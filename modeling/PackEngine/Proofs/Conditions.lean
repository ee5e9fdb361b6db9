import PackEngine.Proofs.Episodes

/-! Function conditions. The conditions that a gate queues run one source after the other, each in
a frame of its own, and put sources aside as the results of that frame say. The line goes on once
all of them have settled. -/
namespace PackEngine

open Machine

namespace Scope

variable {s : Scope} {log : List (Hearing packWords)}

theorem slotAfter_own (own : ∀ heard ∈ log, heard.1.Since s.mark s.given) {id : SlotId}
    (known : id < s.mark.slots.size) (held : Option Outcome) :
    Heap.slotAfter id log held = held := by
  refine Heap.slotAfter_unheard (fun heard member same => ?_) held
  have first := own heard member
  rw [same] at first
  exact absurd known (Nat.not_lt_of_le first)

theorem kept_own (own : ∀ heard ∈ log, heard.1.Since s.mark s.given) {id : CellId}
    (known : id < s.mark.cells.size) : Heap.kept id log = [] := by
  apply List.flatMap_eq_nil_iff.mpr
  rintro ⟨receiver, outcome⟩ member
  have first := own _ member
  cases receiver with
  | collect cell polarity persona callback =>
    have other : cell ≠ id := Nat.ne_of_gt (Nat.lt_of_lt_of_le known first.1)
    simp [Heap.cellHears, other]
  | _ => rfl

theorem Hears.follows {outcomes : List Outcome} {before after : Heap packWords}
    (h : s.Hears outcomes log) (follows : s.mark.Follows log before after) :
    s.mark.Follows (outcomes.flatMap s.base.hearing) before after := by
  have same : (∀ id < s.mark.slots.size, ∀ held, Heap.slotAfter id log held =
        Heap.slotAfter id (outcomes.flatMap s.base.hearing) held) ∧
      ∀ id < s.mark.cells.size, Heap.kept id log =
        Heap.kept id (outcomes.flatMap s.base.hearing) := by
    clear follows
    induction h with
    | nothing own =>
      exact ⟨fun id known held => slotAfter_own own known held,
        fun id known => kept_own own known⟩
    | last own outcome =>
      refine ⟨fun id known held => ?_, fun id known => ?_⟩
      · have silent := slotAfter_own own known held
        unfold Heap.slotAfter at silent ⊢
        simp [silent]
      · have silent := kept_own own known
        unfold Heap.kept at silent ⊢
        rw [List.flatMap_append, silent]
        simp
    | next own outcome nonempty rest ih =>
      refine ⟨fun id known held => ?_, fun id known => ?_⟩
      · have silent := slotAfter_own own known held
        have later := ih.1 id known
        unfold Heap.slotAfter at silent later ⊢
        simp only [List.foldl_append, List.flatMap_cons, silent, later]
      · have silent := kept_own own known
        have later := ih.2 id known
        unfold Heap.kept at silent later ⊢
        simp only [List.flatMap_append, List.flatMap_cons, silent, later, List.nil_append]
  exact ⟨follows.expands, fun id known => (follows.slots id known).trans (same.1 id known _),
    fun id known => (follows.kept id known).trans (congrArg _ (same.2 id known))⟩

end Scope

namespace Machine

variable {pack : Pack} {m : Machine packWords} {lower : List (Entry packWords)}

def scope (m : Machine packWords) (outer : Frame packWords) (returning : Bool)
    (base : Callback packWords) (source : PackSource) : Scope :=
  ⟨outer, returning, base, source.callback, m.heap⟩

/-- All of the next turns are spent above the lower work, which is on top after them. The slots
and cells of `mark` change in between as the log says. -/
structure Stretch (pack : Pack) (mark : Heap packWords) (lower : List (Entry packWords))
    (m : Machine packWords) (n : Nat) (log : List (Hearing packWords)) : Prop where
  runs : m.Runs (packRules pack) n
  above : ∀ k < n, ∃ top upper,
    (m.after (packRules pack) k).stack.entries = top :: (upper ++ lower)
  left : (m.after (packRules pack) n).stack.entries = lower
  follows : mark.Follows log m.heap (m.after (packRules pack) n).heap

theorem Stretch.nothing (mark : Heap packWords) (entries : m.stack.entries = lower) :
    m.Stretch pack mark lower 0 [] :=
  ⟨runs_zero _ m, fun _ less => absurd less (Nat.not_lt_zero _), entries, .refl _ _⟩

theorem Stretch.trans {mark : Heap packWords} {others : List (Entry packWords)} {n k : Nat}
    {log later : List (Hearing packWords)} (first : m.Stretch pack mark (others ++ lower) n log)
    (second : (m.after (packRules pack) n).Stretch pack mark lower k later) :
    m.Stretch pack mark lower (n + k) (log ++ later) where
  runs := (runs_add_iff _ n k m).mpr ⟨first.runs, second.runs⟩
  above := forall_after_add (P := Above lower) (fun i less => Above.mono (first.above i less))
    second.above
  left := by
    rw [after_add]
    exact second.left
  follows := by
    rw [after_add]
    exact first.follows.trans second.follows

theorem Stretch.spends {mark : Heap packWords} {n : Nat} {log : List (Hearing packWords)}
    (h : m.Stretch pack mark lower n log) : m.Spends pack lower lower n :=
  ⟨h.runs, h.above, h.left⟩

theorem Stretch.of_turn {mark : Heap packWords} {top : Entry packWords}
    {upper : List (Entry packWords)} {n : Nat} {log : List (Hearing packWords)}
    (free : m.FreeAbove pack lower) (entries : m.stack.entries = top :: (upper ++ lower))
    (wide : mark.Expands m.heap)
    (spare : ∀ operation ∈ m.turnOperations (packRules pack), operation.Spares mark)
    (later : (m.step (packRules pack)).Stretch pack mark lower n log) :
    m.Stretch pack mark lower (n + 1) (m.turnHeard (packRules pack) ++ log) where
  runs := (runs_succ_iff _ n m).mpr ⟨free.goes entries, later.runs⟩
  above k less := by
    cases k with
    | zero => exact ⟨top, upper, entries⟩
    | succ k => exact later.above k (Nat.lt_of_succ_lt_succ less)
  left := later.left
  follows := (step_follows _ spare wide).trans later.follows

theorem Episode.stretch {s : Scope} {mark : Heap packWords} {top : Entry packWords}
    {waiting upper : List (Entry packWords)} {n : Nat} {outcomes : List Outcome}
    (episode : m.Episode pack s waiting n outcomes) (older : mark.Expands s.mark)
    (entries : m.stack.entries = top :: waiting) (same : waiting = upper ++ lower)
    (stack : s.leaves outcomes waiting = lower) :
    m.Stretch pack mark lower n (outcomes.flatMap s.base.hearing) where
  runs := episode.runs
  above k less := by
    cases k with
    | zero => exact ⟨top, upper, entries.trans (congrArg _ same)⟩
    | succ k =>
      obtain ⟨first, others, found, _⟩ := episode.above (k + 1) less (Nat.succ_pos k)
      exact ⟨first, others ++ upper, by rw [found, same, List.append_assoc]⟩
  left := episode.left.trans stack
  follows := (episode.hears.follows episode.follows).older older

structure Tacit (mark : Heap packWords) (operation : Operation packWords) : Prop where
  works : ∀ frame outcome, operation ≠ .returnFrom frame outcome
  spares : operation.Spares mark
  silent : ∀ m, operation.heard m = []

theorem Tacit.queue (mark : Heap packWords) (entry : Entry packWords) :
    Tacit mark (.queue entry) :=
  ⟨by simp, trivial, fun _ => rfl⟩

theorem Tacit.newSlot (mark : Heap packWords) : Tacit mark .newSlot :=
  ⟨by simp, trivial, fun _ => rfl⟩

theorem Tacit.newCell (mark : Heap packWords) : Tacit mark .newCell :=
  ⟨by simp, trivial, fun _ => rfl⟩

theorem Tacit.report (mark : Heap packWords) (source : PackSource) (error : CommandError)
    (forked : Bool) : Tacit mark (.report source error forked) :=
  ⟨by simp, trivial, fun _ => rfl⟩

theorem Tacit.update (mark : Heap packWords) (change : World → World) :
    Tacit mark (.update change) :=
  ⟨by simp, trivial, fun _ => rfl⟩

theorem Opens.tacit {S : PackSource → Prop} {sources : Sources packWords}
    {operation : Operation packWords} (h : Opens sources S operation) {mark : Heap packWords}
    (young : ∀ cell, sources = .collected cell → mark.cells.size ≤ cell) :
    Tacit mark operation := by
  obtain ⟨event, rfl⟩ | ⟨cell, taken, rfl⟩ | ⟨_, _, _, _, rfl⟩ := h
  · exact ⟨by simp, trivial, fun _ => rfl⟩
  · exact ⟨by simp, young cell taken, fun _ => rfl⟩
  · exact .report _ _ _ _

theorem queuedIn_opens {S : PackSource → Prop} {sources : Sources packWords}
    {opening : List (Operation packWords)}
    (opens : ∀ operation ∈ opening, Opens sources S operation) :
    Operation.queuedIn opening = [] :=
  Operation.queuedIn_eq_nil fun entry member => (opens (.queue entry) member).mundane

theorem allHeard_tacit {rules : Rules packWords} {mark : Heap packWords}
    {operations : List (Operation packWords)}
    (tacit : ∀ operation ∈ operations, Tacit mark operation) (m : Machine packWords) :
    Operation.allHeard rules operations m = [] := by
  induction operations generalizing m with
  | nil => rfl
  | cons operation rest ih =>
    unfold Operation.allHeard
    rw [(tacit operation List.mem_cons_self).silent m,
      ih fun other member => tacit other (List.mem_cons_of_mem _ member)]
    rfl

theorem FreeAbove.queues (free : m.FreeAbove pack lower) {mark : Heap packWords}
    {top : Entry packWords} (entries : m.stack.entries = top :: lower)
    (tacit : ∀ operation ∈ m.turnOperations (packRules pack), Tacit mark operation)
    {queued : List (Entry packWords)}
    (queues : Operation.queuedIn (m.turnOperations (packRules pack)) = queued) :
    (m.step (packRules pack)).stack.entries = queued ++ lower ∧
      m.turnHeard (packRules pack) = [] ∧
      ∀ operation ∈ m.turnOperations (packRules pack), operation.Spares mark := by
  have own : m.stack.entries = top :: ([] ++ lower) := entries
  refine ⟨?_, ?_, fun operation member => (tacit operation member).spares⟩
  · rw [← queues]
    exact free.step_queued own
      (returnsIn_eq_nil fun frame outcome member => (tacit _ member).works frame outcome rfl)
  · rw [turnHeard_of_entries _ entries]
    exact allHeard_tacit tacit _

/-- What waits of a condition: functions to try, and the failure after them. -/
def untried (frame : Frame packWords) (callee : PackSource)
    (functions : List (BoundFunction packWords)) : List (Entry packWords) :=
  functions.map (fun function => ⟨frame, .call function frame.sink true callee⟩) ++
    [⟨frame, .fallthrough⟩]

inductive Tries (pack : Pack) (frame : Frame packWords) (callee : PackSource)
    (lower : List (Entry packWords)) :
    List (BoundFunction packWords) → Machine packWords → Nat → List Outcome → Prop where
  | fails {m : Machine packWords} (entries : m.stack.entries = ⟨frame, .fallthrough⟩ :: lower)
      (hears : m.log (packRules pack) 1 = frame.sink.hearing Outcome.failure) :
      Tries pack frame callee lower [] m 1 [Outcome.failure]
  | decides {function : BoundFunction packWords} {rest : List (BoundFunction packWords)}
      {m : Machine packWords} {n : Nat} {outcomes : List Outcome}
      (entries : m.stack.entries = untried frame callee (function :: rest) ++ lower)
      (episode : m.Episode pack (m.scope frame true frame.sink callee)
        (untried frame callee rest ++ lower) n outcomes)
      (answers : outcomes ≠ []) (left : (m.after (packRules pack) n).stack.entries = lower) :
      Tries pack frame callee lower (function :: rest) m n outcomes
  | passes {function : BoundFunction packWords} {rest : List (BoundFunction packWords)}
      {m : Machine packWords} {n k : Nat} {outcomes : List Outcome}
      (entries : m.stack.entries = untried frame callee (function :: rest) ++ lower)
      (episode : m.Episode pack (m.scope frame true frame.sink callee)
        (untried frame callee rest ++ lower) n [])
      (later : Tries pack frame callee lower rest (m.after (packRules pack) n) k outcomes) :
      Tries pack frame callee lower (function :: rest) m (n + k) outcomes

theorem Reached.returning_turn (reached : m.Reached (packRules pack) PackTask)
    {frame : Frame packWords} {task : Task packWords} (outcome : Outcome)
    (entries : m.stack.entries = ⟨frame, task⟩ :: lower)
    (returns : (m.taking ⟨frame, task⟩ lower).operations (packRules pack) frame task =
      [.returnFrom frame outcome]) :
    m.turnHeard (packRules pack) = frame.sink.hearing outcome ∧
      (m.step (packRules pack)).stack.entries =
        lower.dropWhile (fun entry => frame.boundary.covers entry.frame) ∧
      ∀ mark, ∀ operation ∈ m.turnOperations (packRules pack), operation.Spares mark := by
  have turn : m.turnOperations (packRules pack) = [.returnFrom frame outcome] :=
    (turnOperations_of_entries _ entries).trans returns
  refine ⟨?_, reached.step_dropped entries ?_ ?_ ?_, fun mark operation member => ?_⟩
  · rw [turnHeard_of_entries _ entries, turn]
    exact List.append_nil _
  · rw [turn]
    exact List.cons_ne_nil _ _
  · rw [turn]
    intro returned member
    rw [List.mem_singleton.mp member]
  · rw [turn]
    rfl
  · rw [turn] at member
    rw [List.mem_singleton.mp member]
    trivial

theorem dropWhile_untried {frame : Frame packWords} (callee : PackSource)
    (own : frame.boundary.covers frame = true)
    (stops : ∀ entry ∈ lower, frame.boundary.covers entry.frame = false)
    (functions : List (BoundFunction packWords)) :
    (untried frame callee functions ++ lower).dropWhile
      (fun entry => frame.boundary.covers entry.frame) = lower := by
  rw [List.dropWhile_append_of_pos]
  · exact dropWhile_uncovered stops
  · intro entry member
    simp only [untried, List.mem_append, List.mem_map, List.mem_singleton] at member
    obtain ⟨function, _, rfl⟩ | rfl := member <;> exact own

theorem FreeAbove.tries (free : m.FreeAbove pack lower) {mark : Heap packWords}
    (wide : mark.Expands m.heap) {frame : Frame packWords} {callee : PackSource}
    (hosted : callee.callback.Hosted)
    (own : frame.boundary.covers frame = true)
    (stops : ∀ entry ∈ lower, frame.boundary.covers entry.frame = false)
    {bound : List (BoundFunction packWords)}
    (entries : m.stack.entries = untried frame callee bound ++ lower) :
    ∃ n outcomes, m.Tries pack frame callee lower bound n outcomes ∧ outcomes ≠ [] ∧
      m.Stretch pack mark lower n (outcomes.flatMap frame.sink.hearing) := by
  induction bound generalizing m with
  | nil =>
    have top : m.stack.entries = ⟨frame, .fallthrough⟩ :: ([] ++ lower) := entries
    obtain ⟨heard, stack, spare⟩ := free.reached.returning_turn Outcome.failure top rfl
    rw [List.nil_append, dropWhile_uncovered stops] at stack
    refine ⟨1, [Outcome.failure], .fails top ?_, List.cons_ne_nil _ _, ?_⟩
    · rw [log_one, heard]
    · have stretch := Stretch.of_turn free top wide (spare mark) (.nothing mark stack)
      rw [heard] at stretch
      simpa using stretch
  | cons function rest ih =>
    have top : m.stack.entries = ⟨frame, .call function frame.sink true callee⟩ ::
        (untried frame callee rest ++ lower) := entries
    obtain ⟨n, outcomes, _, episode⟩ := free.mono.call_episode top hosted
    cases outcomes with
    | nil =>
      have first := episode.stretch wide top (List.nil_append _).symm rfl
      have later := wide.trans (after_expands (packRules pack) n m)
      obtain ⟨k, outcomes, tries, nonempty, stretch⟩ :=
        ih (free.spent (episode.spends top).mono) later episode.left
      exact ⟨n + k, outcomes, .passes entries episode tries, nonempty, first.trans stretch⟩
    | cons outcome others =>
      have dropped := dropWhile_untried callee own stops rest
      have left : (m.after (packRules pack) n).stack.entries = lower := episode.left.trans dropped
      exact ⟨n, outcome :: others, .decides entries episode (List.cons_ne_nil _ _) left,
        List.cons_ne_nil _ _, episode.stretch wide top rfl dropped⟩

def conditionOutput (condition : Condition) (cell : CellId) (source : PackSource) :
    Callback packWords := [.collect cell condition.polarity source.persona source.callback]

def conditionCallee (source : PackSource) : PackSource :=
  PackSource.mapPersona Persona.forFunction source.clearCallbacks

/-- The conditions of several sources settle one after the other, each on the functions that it
tries, with results of its own. -/
inductive Sifts (pack : Pack) (condition : Condition) (bound : List (BoundFunction packWords))
    (cell : CellId) (frame : Frame packWords) (lower : List (Entry packWords)) :
    List PackSource → Machine packWords → Nat → List (List Outcome) → Prop where
  | done {m : Machine packWords} (entries : m.stack.entries = lower) :
      Sifts pack condition bound cell frame lower [] m 0 []
  | next {source : PackSource} {others : List PackSource} {m : Machine packWords} {n k : Nat}
      {outcomes : List Outcome} {results : List (List Outcome)}
      (entries : m.stack.entries = ⟨frame, condition.task bound cell source⟩ ::
        (others.map (fun other => ⟨frame, condition.task bound cell other⟩) ++ lower))
      (tries : (m.step (packRules pack)).Tries pack
        (frame.child (conditionOutput condition cell source) none m.heap.slots.size)
        (conditionCallee source)
        (others.map (fun other => ⟨frame, condition.task bound cell other⟩) ++ lower) bound n
        outcomes)
      (later : Sifts pack condition bound cell frame lower others
        (m.after (packRules pack) (n + 1)) k results) :
      Sifts pack condition bound cell frame lower (source :: others) m (n + 1 + k)
        (outcomes :: results)

def conditionsHearing (condition : Condition) (cell : CellId) (sources : List PackSource)
    (results : List (List Outcome)) : List (Hearing packWords) :=
  (sources.zip results).flatMap fun settled =>
    settled.2.flatMap (conditionOutput condition cell settled.1).hearing

theorem turnOperations_of_condition {frame : Frame packWords} {condition : Condition}
    {bound : List (BoundFunction packWords)} {cell : CellId} {source : PackSource}
    (entries : m.stack.entries = ⟨frame, condition.task bound cell source⟩ :: lower) :
    m.turnOperations (packRules pack) = .newSlot ::
      (untried (frame.child (conditionOutput condition cell source) none m.heap.slots.size)
        (conditionCallee source) bound).map .queue := by
  rw [turnOperations_of_entries _ entries]
  refine congrArg (List.cons _) ((conditionProducer_operations _ _ bound _ _).trans ?_)
  simp only [untried, List.map_append, List.map_map]
  rfl

theorem FreeAbove.sifts (free : m.FreeAbove pack lower) {mark : Heap packWords}
    (wide : mark.Expands m.heap) (condition : Condition)
    (bound : List (BoundFunction packWords)) (cell : CellId)
    {frame : Frame packWords} {sources : List PackSource}
    (entries : m.stack.entries =
      sources.map (fun source => ⟨frame, condition.task bound cell source⟩) ++ lower) :
    ∃ n results, m.Sifts pack condition bound cell frame lower sources n results ∧
      results.length = sources.length ∧ (∀ outcomes ∈ results, outcomes ≠ []) ∧
      m.Stretch pack mark lower n (conditionsHearing condition cell sources results) := by
  induction sources generalizing m with
  | nil =>
    exact ⟨0, [], .done entries, rfl, fun _ member => absurd member List.not_mem_nil,
      .nothing mark entries⟩
  | cons source others ih =>
    let waiting :=
      others.map (fun other => Entry.mk frame (condition.task bound cell other)) ++ lower
    let inner := frame.child (conditionOutput condition cell source) none m.heap.slots.size
    have top : m.stack.entries = ⟨frame, condition.task bound cell source⟩ :: ([] ++ waiting) :=
      entries
    have turn : m.turnOperations (packRules pack) = .newSlot ::
        (untried inner (conditionCallee source) bound).map .queue :=
      turnOperations_of_condition top
    have tacit : ∀ operation ∈ m.turnOperations (packRules pack), Tacit mark operation := by
      intro operation member
      rw [turn] at member
      cases List.mem_cons.mp member with
      | inl same => exact same ▸ .newSlot mark
      | inr member =>
        obtain ⟨entry, _, rfl⟩ := List.mem_map.mp member
        exact .queue mark entry
    have queues : Operation.queuedIn (m.turnOperations (packRules pack)) =
        untried inner (conditionCallee source) bound := by
      rw [turn]
      exact Operation.queuedIn_map_queue _
    obtain ⟨stack, silent, spare⟩ := free.mono.queues top tacit queues
    have inside : frame.Inside inner := frame.inside_child _ _
    have own : inner.boundary.covers inner = true := by
      simp [inner, Frame.child, Boundary.nested, Boundary.covers]
    have stops : ∀ entry ∈ waiting, inner.boundary.covers entry.frame = false :=
      fun entry member => inside.uncovered (free.reached.top_precedes top entry member)
    have next := wide.trans (step_expands (packRules pack) m)
    obtain ⟨n, outcomes, tries, nonempty, settled⟩ :=
      (free.mono.step top).tries next Callback.hosted_empty own stops stack
    have first := Stretch.of_turn free.mono top wide spare settled
    rw [silent, List.nil_append] at first
    obtain ⟨k, results, sifts, length, each, rest⟩ := ih (free.spent first.spends.mono)
      (wide.trans (after_expands (packRules pack) (n + 1) m)) first.left
    refine ⟨n + 1 + k, outcomes :: results, .next entries tries sifts, congrArg (· + 1) length,
      fun other member => ?_, first.trans rest⟩
    cases List.mem_cons.mp member with
    | inl same => exact same ▸ nonempty
    | inr member => exact each other member

/-- The sources that a gate lets through: each once for every result of its condition that
passes. -/
def sifted (condition : Condition) (sources : List PackSource) (results : List (List Outcome)) :
    List PackSource :=
  (sources.zip results).flatMap fun settled =>
    (settled.2.filter fun outcome => condition.polarity.passes outcome.value).map
      fun _ => settled.1

theorem kept_conditionsHearing (condition : Condition) (cell : CellId) (sources : List PackSource)
    (results : List (List Outcome)) :
    Heap.kept cell (conditionsHearing condition cell sources results) =
      sifted condition sources results := by
  have once (source : PackSource) (outcomes : List Outcome) :
      (outcomes.flatMap (conditionOutput condition cell source).hearing).flatMap
          (Heap.cellHears cell) =
        (outcomes.filter fun outcome => condition.polarity.passes outcome.value).map
          fun _ => source := by
    induction outcomes with
    | nil => rfl
    | cons outcome rest ih =>
      rw [List.flatMap_cons, List.flatMap_append, ih]
      cases passes : condition.polarity.passes outcome.value <;>
        simp [conditionOutput, Callback.hearing, Heap.cellHears, passes]
  unfold Heap.kept conditionsHearing sifted
  rw [List.flatMap_assoc]
  exact List.flatMap_congr fun settled _ => once settled.1 settled.2

def gateEntries (frame : Frame packWords) (condition : Condition)
    (bound : List (BoundFunction packWords)) (cell : CellId) (sources : List PackSource)
    (continuation : Task packWords) : List (Entry packWords) :=
  sources.map (fun source => ⟨frame, condition.task bound cell source⟩) ++
    [⟨frame, continuation⟩]

section

variable {frame : Frame packWords} {issuer : PackSource} {sources : Sources packWords}
  {chain : Chain packWords} {flags marked : Flags} {topLevel : Bool}
  {modifier : Modifier packWords} {rest : List (Modifier packWords)} {present : List PackSource}
  {condition : Condition} {functions : List (FunctionRef packWords)}
  {bound : List (BoundFunction packWords)}

theorem FreeAbove.gates (free : m.FreeAbove pack lower) {mark : Heap packWords}
    (entries : m.stack.entries = ⟨frame, .line issuer sources chain flags topLevel⟩ :: lower)
    (young : ∀ cell, sources = .collected cell → mark.cells.size ≤ cell)
    (there : m.arrival (packRules pack) = some ⟨modifier :: rest, marked, present⟩)
    (gate : modifier.action = .gate condition)
    (resolves : pack.library.resolve condition.target = .ok functions)
    (binds : FunctionRef.instantiateAll none functions = .ok bound) :
    ((m.step (packRules pack)).stack.entries =
        gateEntries frame condition bound m.heap.cells.size present
          (.continuation issuer m.heap.cells.size { chain with modifiers := rest }
            (marked.union modifier.flags)) ++ lower ∧
      m.turnHeard (packRules pack) = [] ∧
      ∀ operation ∈ m.turnOperations (packRules pack), operation.Spares mark) ∧
    m.heap.cells.size < (m.step (packRules pack)).heap.cells.size ∧
    (m.step (packRules pack)).heap.collected m.heap.cells.size = [] := by
  let cell := m.heap.cells.size
  obtain ⟨opening, same, opens, size, _⟩ := turnOperations_of_line
    (packRules pack).redirectsKeep_true trivial entries fun _ _ => trivial
  let queued := gateEntries frame condition bound cell present
    (.continuation issuer cell { chain with modifiers := rest } (marked.union modifier.flags))
  have turn : m.turnOperations (packRules pack) =
      (opening ++ [.newCell]) ++ queued.map .queue := by
    rw [same, there]
    simp only [arrivalOperations, gate]
    rw [gateOperations_bound resolves binds, size]
    simp [queued, cell, gateEntries]
  have tacit : ∀ operation ∈ m.turnOperations (packRules pack), Tacit mark operation := by
    intro operation member
    simp only [turn, List.mem_append, List.mem_singleton, List.mem_map] at member
    obtain (member | rfl) | ⟨entry, _, rfl⟩ := member
    · exact (opens operation member).tacit young
    · exact .newCell mark
    · exact .queue mark entry
  have queues : Operation.queuedIn (m.turnOperations (packRules pack)) = queued := by
    rw [turn, Operation.queuedIn_append, Operation.queuedIn_append, queuedIn_opens opens]
    exact Operation.queuedIn_map_queue queued
  have direct : ∀ operation ∈ m.turnOperations (packRules pack), ∀ into source,
      operation ≠ .collect into source := by
    rintro operation member into source rfl
    simp only [turn, List.mem_append, List.mem_singleton, List.mem_map] at member
    obtain (member | same) | ⟨_, _, same⟩ := member
    · obtain ⟨_, form⟩ | ⟨_, _, form⟩ | ⟨_, _, _, _, form⟩ := opens _ member <;> cases form
    · cases same
    · cases same
  have queuing := free.queues entries tacit queues
  refine ⟨queuing, ?_, ?_⟩
  · rw [step_eq_applyAll _ entries, turn, Operation.applyAll_append, Operation.applyAll_append]
    refine Nat.lt_of_lt_of_le ?_ (Operation.expands_applyAll _ (queued.map .queue) _).cells
    show cell < (Array.push _ _).size
    rw [Array.size_push, size]
    exact Nat.lt_succ_self _
  · refine List.eq_nil_iff_forall_not_mem.mpr fun source among => ?_
    obtain before | ⟨polarity, outcome, heard⟩ := mem_collected_step direct among
    · rw [m.heap.collected_of_size_le (Nat.le_refl _)] at before
      cases before
    · rw [queuing.2.1] at heard
      cases heard

/-- The conditions of a gate settle, and the rest of the line is next. It finds the sources that
the gate lets through. -/
theorem FreeAbove.gate_settles (free : m.FreeAbove pack lower)
    (entries : m.stack.entries = ⟨frame, .line issuer sources chain flags topLevel⟩ :: lower)
    (there : m.arrival (packRules pack) = some ⟨modifier :: rest, marked, present⟩)
    (gate : modifier.action = .gate condition)
    (resolves : pack.library.resolve condition.target = .ok functions)
    (binds : FunctionRef.instantiateAll none functions = .ok bound) :
    let continuation : Entry packWords := ⟨frame, .continuation issuer m.heap.cells.size
      { chain with modifiers := rest } (marked.union modifier.flags)⟩
    ∃ n results,
      (m.step (packRules pack)).Sifts pack condition bound m.heap.cells.size frame
          (continuation :: lower) present n results ∧
        results.length = present.length ∧ (∀ outcomes ∈ results, outcomes ≠ []) ∧
        (m.step (packRules pack)).Stretch pack (m.step (packRules pack)).heap
          (continuation :: lower) n
          (conditionsHearing condition m.heap.cells.size present results) ∧
        (m.after (packRules pack) (n + 1)).heap.collected m.heap.cells.size =
          sifted condition present results := by
  intro continuation
  have young : ∀ cell, sources = .collected cell → ({} : Heap packWords).cells.size ≤ cell :=
    fun cell _ => Nat.zero_le cell
  obtain ⟨⟨stack, _, _⟩, known, empty⟩ := free.gates entries young there gate resolves binds
  have queued : (m.step (packRules pack)).stack.entries =
      present.map (fun source => ⟨frame, condition.task bound m.heap.cells.size source⟩) ++
        continuation :: lower := by
    rw [stack]
    simp [gateEntries, continuation]
  have top : m.stack.entries = _ :: ([] ++ lower) := entries
  have waiting : (m.step (packRules pack)).FreeAbove pack ([continuation] ++ lower) :=
    (free.step top).mono
  obtain ⟨n, results, sifts, length, nonempty, stretch⟩ :=
    FreeAbove.sifts waiting (Heap.Expands.refl _) condition bound m.heap.cells.size queued
  refine ⟨n, results, sifts, length, nonempty, stretch, ?_⟩
  have kept := stretch.follows.kept m.heap.cells.size known
  rw [empty, List.nil_append, kept_conditionsHearing] at kept
  exact kept

/-- A gate is an ordered filter that settles before its line goes on. From the turn in which the
line gets to it, the conditions of its sources run one after the other, and the rest of the line
waits below them until they all have settled. It then finds the sources that the gate lets
through. -/
theorem Reached.gate_filters (reached : m.Reached (packRules pack) PackTask)
    (unlimited : m.Unlimited (packRules pack))
    (entries : m.stack.entries = ⟨frame, .line issuer sources chain flags topLevel⟩ :: lower)
    (there : m.arrival (packRules pack) = some ⟨modifier :: rest, marked, present⟩)
    (gate : modifier.action = .gate condition)
    (resolves : pack.library.resolve condition.target = .ok functions)
    (binds : FunctionRef.instantiateAll none functions = .ok bound) :
    let continuation : Entry packWords := ⟨frame, .continuation issuer m.heap.cells.size
      { chain with modifiers := rest } (marked.union modifier.flags)⟩
    ∃ n results,
      (m.step (packRules pack)).Sifts pack condition bound m.heap.cells.size frame
          (continuation :: lower) present n results ∧
        results.length = present.length ∧ (∀ outcomes ∈ results, outcomes ≠ []) ∧
        m.Runs (packRules pack) (n + 1) ∧
        (∀ k < n, ∃ top upper, (m.after (packRules pack) (k + 1)).stack.entries =
          top :: (upper ++ continuation :: lower)) ∧
        (m.after (packRules pack) (n + 1)).stack.entries = continuation :: lower ∧
        ((m.after (packRules pack) (n + 1)).takeSources (.collected m.heap.cells.size)).1 =
          sifted condition present results := by
  intro continuation
  have free : m.Free pack := ⟨reached, unlimited⟩
  obtain ⟨n, results, sifts, length, nonempty, stretch, found⟩ :=
    (free.above lower).gate_settles entries there gate resolves binds
  exact ⟨n, results, sifts, length, nonempty,
    (runs_succ_iff _ n m).mpr ⟨free.goes entries, stretch.runs⟩, stretch.above, stretch.left, found⟩

end

/-- A line that goes on for those of two entities that are ready, as the second of the gate's
functions answers; the first of them answers nothing. -/
def choosingPack : Pack where
  functions :=
    [(⟨"minecraft", "choose", .refl true, .refl true⟩, { lines := [.obj [
        ("modifiers", .arr [.arr [.str "As", .arr [.str "a", .str "b"]],
          .arr [.str "IfFunction", .str "#guards"]]),
        ("run", .arr [.str "Say", .str "ready"])]] }),
     (⟨"minecraft", "mute", .refl true, .refl true⟩, { lines := [] }),
     (⟨"minecraft", "ready", .refl true, .refl true⟩,
      { lines := [.obj [("run", .arr [.str "Get", .str "@s", .str "ready"])]] })]
  tags := [(⟨"minecraft", "guards", .refl true, .refl true⟩,
    [⟨"minecraft", "mute", .refl true, .refl true⟩,
      ⟨"minecraft", "ready", .refl true, .refl true⟩])]

/-- The line of the choosing function is next, and one of the entities is ready. -/
def choosing : Machine packWords :=
  (({ target := "choose" } : RunRequest).opening
    ((RunRequest.functions choosingPack { target := "choose" }).toOption.getD [])
    { scores := [(("a", "ready"), 1)] }).after (packRules choosingPack) 1

theorem gate_filters_choosing :
    choosing.Reached (packRules choosingPack) PackTask ∧
      choosing.Unlimited (packRules choosingPack) ∧
      ∃ n results, ∃ sources : List PackSource, sources.length = 2 ∧ results.length = 2 ∧
        (∀ outcomes ∈ results, outcomes ≠ []) ∧ choosing.Runs (packRules choosingPack) (n + 1) ∧
        ((choosing.after (packRules choosingPack) (n + 1)).takeSources (.collected 0)).1 =
          sifted ⟨.holds, "#guards"⟩ sources results := by
  have start := RunRequest.opening_reached { target := "choose" }
    ((RunRequest.functions choosingPack { target := "choose" }).toOption.getD [])
    { scores := [(("a", "ready"), 1)] } choosingPack
  have reached : choosing.Reached (packRules choosingPack) PackTask :=
    start.after ((runs_succ_iff _ _ _).mpr ⟨rfl, runs_zero _ _⟩)
  have unlimited : choosing.Unlimited (packRules choosingPack) :=
    unlimited_of_turn (show turn (packRules choosingPack) 20 choosing = some (.ok (), _) from rfl)
  obtain ⟨n, results, _, length, nonempty, runs, _, _, found⟩ :=
    reached.gate_filters unlimited rfl rfl rfl rfl rfl
  exact ⟨reached, unlimited, n, results, _, rfl, length, nonempty, runs, found⟩

end Machine

end PackEngine
