import PackEngine.Proofs.Journeys
import PackEngine.Proofs.Passages

/-! Scores that lines write. Up to its leaf a line's own turns change no score; only functions that
its conditions run may. Then the leaf runs under each source that has got there, and every write
that the source's journey has asked for is performed. -/
namespace PackEngine

def Operation.Scoreless (pack : Pack) (operation : Operation packWords) : Prop :=
  ∀ m, (operation.apply (packRules pack) m).setting.scores = m.setting.scores

namespace Operation

variable {pack : Pack}

theorem scoreless_queue (pack : Pack) (entry : Entry packWords) :
    Scoreless pack (.queue entry) := by
  intro m
  show (m.enqueue entry).setting.scores = _
  unfold Machine.enqueue
  split
  · rfl
  · split <;> rfl

theorem scoreless_report (pack : Pack) (source : PackSource) (error : CommandError)
    (forked : Bool) : Scoreless pack (.report source error forked) :=
  fun m => (Machine.tells_report pack source error forked m).scores

theorem scoreless_trace (pack : Pack) (event : TraceEvent) : Scoreless pack (.trace event) :=
  fun m => (Machine.tells_trace pack event m).scores

theorem scoreless_returnFrom {frame : Frame packWords} {condition : Condition} {cell : CellId}
    {source : PackSource} (sink : frame.sink = Machine.conditionOutput condition cell source)
    (outcome : Outcome) : Scoreless pack (.returnFrom frame outcome) := by
  intro m
  show (Callback.deliver _ frame.sink outcome m.toScene).setting.scores = _
  rw [sink]
  simp only [Machine.conditionOutput, Callback.deliver, List.foldl_cons, List.foldl_nil,
    Receiver.hear]
  split <;> rfl

theorem scoreless_opens {S : PackSource → Prop} {sources : Sources packWords}
    {operation : Operation packWords} (opens : Machine.Opens sources S operation) :
    operation.Scoreless pack := by
  obtain ⟨event, rfl⟩ | ⟨cell, _, rfl⟩ | ⟨source, error, forked, _, rfl⟩ := opens
  · exact scoreless_trace pack event
  · exact fun _ => rfl
  · exact scoreless_report pack source error forked

end Operation

/-- A frame in which a function runs that a line in `outer` calls, if only for a condition. -/
structure Frame.Beyond (outer frame : Frame packWords) : Prop where
  seed : frame.boundary.seed = outer.boundary.seed
  deeper : outer.depth + 1 < frame.depth

namespace Machine

variable {pack : Pack} {m : Machine packWords} {frame inner : Frame packWords}
  {lower : List (Entry packWords)} {n k : Nat}

theorem scores_step {top : Entry packWords} (entries : m.stack.entries = top :: lower)
    (scoreless : ∀ operation ∈ m.turnOperations (packRules pack), operation.Scoreless pack) :
    (m.step (packRules pack)).setting.scores = m.setting.scores := by
  rw [step_eq_applyAll _ entries]
  exact Operation.applyAll_induction
    (P := fun later : Machine packWords => later.setting.scores = m.setting.scores)
    (fun operation member later same => (scoreless operation member later).trans same) rfl

/-- The next turn belongs to a function that was called for a condition, or it runs no leaf and
changes no score. -/
def KeepsScores (pack : Pack) (frame : Frame packWords) (m : Machine packWords) : Prop :=
  ∃ top others, m.stack.entries = top :: others ∧
    (frame.Beyond top.frame ∨ top.isExecution = false ∧
      (m.step (packRules pack)).setting.scores = m.setting.scores)

def Approaches (pack : Pack) (frame : Frame packWords) (n : Nat) (m : Machine packWords) : Prop :=
  ∀ k < n, (m.after (packRules pack) k).KeepsScores pack frame

theorem approaches_zero (pack : Pack) (frame : Frame packWords) (m : Machine packWords) :
    m.Approaches pack frame 0 := fun _ less => absurd less (Nat.not_lt_zero _)

theorem Approaches.trans (first : m.Approaches pack frame n)
    (second : (m.after (packRules pack) n).Approaches pack frame k) :
    m.Approaches pack frame (n + k) :=
  forall_after_add (P := KeepsScores pack frame) first second

theorem Approaches.of_turn {top : Entry packWords} (entries : m.stack.entries = top :: lower)
    (plain : top.isExecution = false)
    (scoreless : ∀ operation ∈ m.turnOperations (packRules pack), operation.Scoreless pack)
    (later : (m.step (packRules pack)).Approaches pack frame n) :
    m.Approaches pack frame (n + 1) := by
  intro k less
  cases k with
  | zero => exact ⟨top, lower, entries, .inr ⟨plain, scores_step entries scoreless⟩⟩
  | succ k => exact later k (Nat.lt_of_succ_lt_succ less)

/-! Conditions. -/

theorem Episode.approaches {function : BoundFunction packWords} {callee : PackSource}
    {base : Callback packWords} {returning : Bool} {others : List (Entry packWords)}
    {outcomes : List Outcome}
    (seed : inner.boundary.seed = frame.boundary.seed) (deeper : frame.depth < inner.depth)
    (entries : m.stack.entries = ⟨inner, .call function base returning callee⟩ :: others)
    (episode : m.Episode pack (m.scope inner returning base callee) others n outcomes) :
    m.Approaches pack frame n := by
  have scoreless : ∀ operation ∈ m.turnOperations (packRules pack), operation.Scoreless pack := by
    intro operation member
    rw [turnOperations_of_entries _ entries] at member
    simp only [operations, List.mem_append, List.mem_cons, List.not_mem_nil, or_false,
      List.mem_map] at member
    obtain ((rfl | rfl | rfl) | ⟨line, _, rfl⟩) | rfl := member
    · exact fun _ => rfl
    · exact Operation.scoreless_trace pack _
    · exact fun _ => rfl
    · exact Operation.scoreless_queue pack _
    · exact Operation.scoreless_queue pack _
  intro k less
  cases k with
  | zero => exact ⟨_, others, entries, .inr ⟨rfl, scores_step entries scoreless⟩⟩
  | succ k =>
    obtain ⟨top, upper, found, opened⟩ := episode.above (k + 1) less (Nat.succ_pos k)
    have below : inner.depth < top.frame.depth := opened.deeper
    exact ⟨top, upper ++ others, found, .inl ⟨opened.seed.trans seed, by omega⟩⟩

theorem Tries.approaches {callee source : PackSource} {condition : Condition} {cell : CellId}
    {bound : List (BoundFunction packWords)} {outcomes : List Outcome}
    (tries : m.Tries pack inner callee lower bound n outcomes)
    (sink : inner.sink = conditionOutput condition cell source)
    (seed : inner.boundary.seed = frame.boundary.seed) (deeper : frame.depth < inner.depth) :
    m.Approaches pack frame n := by
  induction tries with
  | fails entries hears =>
    refine .of_turn entries rfl (fun operation member => ?_) (approaches_zero pack frame _)
    rw [turnOperations_of_entries _ entries] at member
    rw [List.mem_singleton.mp member]
    exact Operation.scoreless_returnFrom sink _
  | decides entries episode answers left => exact episode.approaches seed deeper entries
  | passes entries episode later ih => exact (episode.approaches seed deeper entries).trans ih

theorem Sifts.approaches {condition : Condition} {bound : List (BoundFunction packWords)}
    {cell : CellId} {sources : List PackSource} {results : List (List Outcome)}
    (sifts : m.Sifts pack condition bound cell frame lower sources n results) :
    m.Approaches pack frame n := by
  induction sifts with
  | done entries => exact approaches_zero pack frame _
  | next entries tries later ih =>
    refine Approaches.trans (.of_turn entries rfl (fun operation member => ?_) ?_) ih
    · rw [turnOperations_of_condition entries] at member
      cases List.mem_cons.mp member with
      | inl same => exact same ▸ fun _ => rfl
      | inr member =>
        obtain ⟨entry, _, rfl⟩ := List.mem_map.mp member
        exact Operation.scoreless_queue pack entry
    · exact tries.approaches rfl rfl (Nat.lt_succ_self frame.depth)

/-! A line whose end is a leaf. -/

section

variable {issuer start : PackSource} {sources : Sources packWords} {chain : Chain packWords}
  {before marked : Flags} {topLevel : Bool} {leaf : LeafAction}

theorem leavesOperations_queue (frame : Frame packWords) (line : LeafLine packWords)
    (sources : List PackSource) :
    leavesOperations frame line sources = (leafEntries frame line sources).map .queue := by
  unfold leafEntries
  match sources with
  | [] => rfl
  | [_] => rfl
  | [_, _] => rfl
  | _ :: _ :: _ :: rest => rw [if_neg (by simp)]; rfl

theorem finishOperations_leaf (acts : chain.executable = .leaf leaf)
    (unmarked : marked.isReturn = false) (present : List PackSource) (m : Machine packWords) :
    finishOperations (packRules pack) frame { chain with modifiers := [] } marked present m =
      (leafEntries frame ⟨leaf, chain.input, marked⟩ present).map .queue := by
  unfold finishOperations
  rw [unmarked]
  cases present with
  | nil => rfl
  | cons first rest =>
    simp only [List.isEmpty_cons, acts]
    exact leavesOperations_queue frame _ _

theorem line_scoreless (acts : chain.executable = .leaf leaf)
    (entries : m.stack.entries = ⟨frame, .line issuer sources chain before topLevel⟩ :: lower)
    (unmarked : returnMarked before chain.modifiers = false) :
    ∀ operation ∈ m.turnOperations (packRules pack), operation.Scoreless pack := by
  obtain ⟨opening, turn, opens, _, _⟩ := turnOperations_of_line
    (packRules pack).redirectsKeep_true trivial entries fun _ _ => trivial
  intro operation member
  rw [turn] at member
  cases List.mem_append.mp member with
  | inl member => exact Operation.scoreless_opens (opens operation member)
  | inr member =>
    generalize Operation.applyAll (packRules pack) opening _ = gets at member
    cases there : m.arrival (packRules pack) with
    | none =>
      rw [there] at member
      cases member
    | some arrival =>
      obtain ⟨ahead, marked, present⟩ := arrival
      rw [there] at member
      cases ahead with
      | nil =>
        have plain : marked.isReturn = false :=
          (Bool.or_false _).symm.trans ((returnMarked_arrival entries there).trans unmarked)
        simp only [arrivalOperations] at member
        rw [finishOperations_leaf acts plain] at member
        obtain ⟨entry, _, rfl⟩ := List.mem_map.mp member
        exact Operation.scoreless_queue pack entry
      | cons modifier rest =>
        by_cases binds : modifier.Binds pack
        · obtain ⟨condition, functions, bound, gate, resolves, binds⟩ := binds
          simp only [arrivalOperations, gate] at member
          rw [gateOperations_bound resolves binds] at member
          simp only [List.cons_append, List.mem_cons, List.mem_append, List.mem_map,
            List.not_mem_nil, or_false] at member
          obtain rfl | ⟨source, _, rfl⟩ | rfl := member
          · exact fun _ => rfl
          · exact Operation.scoreless_queue pack _
          · exact Operation.scoreless_queue pack _
        · obtain ⟨_, _, _, rfl⟩ := arrivalOperations_refused binds gets operation member
          exact Operation.scoreless_report pack _ _ _

/-- For `n` turns the line makes its way, and in the one after them it leaves its leaf to be run
under the sources that have got there. Or it ends before, and there are none. -/
structure Reaches (pack : Pack) (frame : Frame packWords) (lower : List (Entry packWords))
    (leaf : LeafAction) (start : PackSource) (passed : List (Modifier packWords)) (flags : Flags)
    (present : List PackSource) (chain : Chain packWords) (n : Nat) (m : Machine packWords) :
    Prop where
  spends : m.Spends pack lower (leafEntries frame ⟨leaf, chain.input, flags⟩ present ++ lower)
    (n + 1)
  approaches : m.Approaches pack frame (n + 1)
  unmarked : flags.isReturn = false
  arrives : m.Arrives (packRules pack) frame lower flags present chain n ∨ present = [] ∧
    ∀ flags present k, ¬m.Arrives (packRules pack) frame lower flags present chain k
  passes : ∀ source ∈ present, start.Passes (passed ++ chain.modifiers) source

theorem FreeAbove.reaches_leaf (free : m.FreeAbove pack lower)
    (entries : m.stack.entries = ⟨frame, .line issuer sources chain before topLevel⟩ :: lower)
    (acts : chain.executable = .leaf leaf)
    (unmarked : returnMarked before chain.modifiers = false) {passed : List (Modifier packWords)}
    {present : List PackSource} (there : m.arrival (packRules pack) = some ⟨[], marked, present⟩)
    (passes : ∀ source ∈ present, start.Passes (passed ++ chain.modifiers) source) :
    m.Reaches pack frame lower leaf start passed marked present chain 0 := by
  have top : m.stack.entries = _ :: ([] ++ lower) := entries
  have plain : marked.isReturn = false :=
    (Bool.or_false _).symm.trans ((returnMarked_arrival entries there).trans unmarked)
  refine ⟨free.spends_turn top (free.line_queues entries fun gets => ?_),
    .of_turn entries rfl (line_scoreless acts entries unmarked) (approaches_zero pack frame _),
    plain, .inl (.ends entries there), passes⟩
  rw [there]
  simp only [arrivalOperations]
  rw [finishOperations_leaf acts plain]
  refine ⟨Operation.queuedIn_map_queue _, fun operation member => ?_⟩
  obtain ⟨entry, _, rfl⟩ := List.mem_map.mp member
  exact .queue _ entry

theorem FreeAbove.reaches_nothing (free : m.FreeAbove pack lower)
    (entries : m.stack.entries = ⟨frame, .line issuer sources chain before topLevel⟩ :: lower)
    (acts : chain.executable = .leaf leaf)
    (unmarked : returnMarked before chain.modifiers = false) (passed : List (Modifier packWords))
    (stack : (m.step (packRules pack)).stack.entries = lower)
    (never : ∀ flags present k,
      ¬m.Arrives (packRules pack) frame lower flags present chain k) :
    m.Reaches pack frame lower leaf start passed Flags.none [] chain 0 := by
  have top : m.stack.entries = _ :: ([] ++ lower) := entries
  exact ⟨free.spends_turn top stack,
    .of_turn entries rfl (line_scoreless acts entries unmarked) (approaches_zero pack frame _), rfl,
    .inr ⟨rfl, never⟩, fun _ member => absurd member List.not_mem_nil⟩

/-- The conditions of a gate are spent above the work below the line. -/
theorem FreeAbove.spends_gate (free : m.FreeAbove pack lower) {top waiting : Entry packWords}
    {mark : Heap packWords} {log : List (Hearing packWords)}
    (entries : m.stack.entries = top :: lower)
    (stretch : (m.step (packRules pack)).Stretch pack mark (waiting :: lower) k log) :
    m.Spends pack lower (waiting :: lower) (k + 1) := by
  have own : m.stack.entries = top :: ([] ++ lower) := entries
  have waits : (m.step (packRules pack)).Spends pack ([waiting] ++ lower) (waiting :: lower) k :=
    stretch.spends
  have spends := (free.spends_turn own rfl).trans waits.mono
  rwa [Nat.add_comm] at spends

theorem Reaches.beyond {modifier : Modifier packWords} {passed between : List (Modifier packWords)}
    {rest : List (Modifier packWords)} {present others : List PackSource} {flags : Flags}
    {condition : Condition} {bound : List (BoundFunction packWords)}
    {results : List (List Outcome)} {log : List (Hearing packWords)} {mark : Heap packWords}
    (free : m.FreeAbove pack lower)
    (entries : m.stack.entries = ⟨frame, .line issuer sources chain before topLevel⟩ :: lower)
    (acts : chain.executable = .leaf leaf)
    (unmarked : returnMarked before chain.modifiers = false)
    (there : m.arrival (packRules pack) = some ⟨modifier :: rest, marked, present⟩)
    (split : chain.modifiers = between ++ modifier :: rest)
    {continuation : Entry packWords}
    (goesOn : continuation = ⟨frame, .continuation issuer m.heap.cells.size
      { chain with modifiers := rest } (marked.union modifier.flags)⟩)
    (sifts : (m.step (packRules pack)).Sifts pack condition bound m.heap.cells.size frame
      (continuation :: lower) present k results)
    (stretch : (m.step (packRules pack)).Stretch pack mark (continuation :: lower) k log)
    (reaches : (m.after (packRules pack) (k + 1)).Reaches pack frame lower leaf start
      (passed ++ between ++ [modifier]) flags others { chain with modifiers := rest } n) :
    m.Reaches pack frame lower leaf start passed flags others chain (k + 1 + n) := by
  subst goesOn
  have spends := free.spends_gate entries stretch
  have own : m.Approaches pack frame (k + 1) :=
    .of_turn entries rfl (line_scoreless acts entries unmarked) sifts.approaches
  refine ⟨spends.trans reaches.spends, own.trans reaches.approaches, reaches.unmarked, ?_, ?_⟩
  · refine reaches.arrives.imp (fun arrives => .resumes entries there spends.runs
      stretch.above stretch.left arrives) fun ⟨empty, never⟩ => ⟨empty, ?_⟩
    intro flags others k arrives
    cases arrives with
    | ends found other => cases there.symm.trans other
    | resumes found other runs waits top later =>
      cases entries.symm.trans found
      cases there.symm.trans other
      cases stretch.length_eq waits top
      exact never _ _ _ later
  · rw [split, List.append_cons, ← List.append_assoc, ← List.append_assoc]
    exact reaches.passes

theorem FreeAbove.reaches (free : m.FreeAbove pack lower)
    (entries : m.stack.entries = ⟨frame, .line issuer sources chain before topLevel⟩ :: lower)
    (acts : chain.executable = .leaf leaf)
    (unmarked : returnMarked before chain.modifiers = false) {passed : List (Modifier packWords)}
    (stages : ∀ modifier ∈ chain.modifiers, ∃ own : LineModifier, modifier = own.stage)
    (starts : ∀ source ∈ (m.takeSources sources).1, start.Passes passed source) {size : Nat}
    (small : chain.modifiers.length < size) :
    ∃ n flags present, m.Reaches pack frame lower leaf start passed flags present chain n := by
  -- Beyond a gate the line goes on with fewer stages, and other machines and sources.
  induction size generalizing m issuer sources chain before topLevel passed with
  | zero => exact absurd small (Nat.not_lt_zero _)
  | succ size ih =>
    cases there : m.arrival (packRules pack) with
    | none =>
      have stack : (m.step (packRules pack)).stack.entries = [] ++ lower := by
        refine free.line_queues entries fun gets => ?_
        rw [there]
        exact ⟨rfl, fun _ member => absurd member List.not_mem_nil⟩
      refine ⟨0, _, [], free.reaches_nothing entries acts unmarked passed stack ?_⟩
      intro flags present k arrives
      cases arrives with
      | ends found other => cases there.symm.trans other
      | resumes found other => cases there.symm.trans other
    | some arrival =>
      obtain ⟨ahead, marked, present⟩ := arrival
      obtain ⟨between, split, passes⟩ := arrival_passes (P := start.Passes) entries
        (fun passed modifier member produce source setting produced produces before made output
            among => by
          obtain ⟨own, rfl⟩ := stages modifier member
          exact before.produce produces made among) starts there
      cases ahead with
      | nil =>
        rw [List.append_nil] at split
        exact ⟨0, marked, present,
          free.reaches_leaf entries acts unmarked there (split ▸ passes)⟩
      | cons modifier rest =>
        by_cases binds : modifier.Binds pack
        · obtain ⟨condition, functions, bound, gate, resolves, binds⟩ := binds
          obtain ⟨last, results, sifts, _, _, stretch, found⟩ :=
            free.gate_settles entries there gate resolves binds
          have ahead : modifier :: rest <:+ chain.modifiers := ⟨between, split.symm⟩
          have fewer : rest.length < size := by
            have le := ahead.length_le
            rw [List.length_cons] at le
            omega
          have further : returnMarked (marked.union modifier.flags) rest = false := by
            rw [← unmarked, ← returnMarked_arrival entries there]
            simp [returnMarked, Flags.union, Bool.or_assoc]
          -- A gate lets sources through as they are.
          have beyond : ∀ source ∈ sifted condition present results,
              start.Passes (passed ++ between ++ [modifier]) source := by
            intro source among
            obtain ⟨stage, rfl⟩ := stages modifier (ahead.mem List.mem_cons_self)
            rw [stage.stage_action] at gate
            cases stage with
            | redirect => cases gate
            | condition own => exact (passes source (mem_of_mem_sifted among)).gate own
          have later := free.spent (free.spends_gate entries stretch)
          obtain ⟨n, flags, others, reaches⟩ := ih later stretch.left acts further
            (fun other among => stages other (ahead.mem (List.mem_cons_of_mem _ among)))
            (found ▸ beyond) fewer
          exact ⟨last + 1 + n, flags, others,
            .beyond free entries acts unmarked there split rfl sifts stretch reaches⟩
        · refine ⟨0, _, [], free.reaches_nothing entries acts unmarked passed
            (free.line_refused entries there binds) ?_⟩
          intro flags others k arrives
          cases arrives with
          | ends found other => cases there.symm.trans other
          | resumes found other runs waits top later =>
            cases there.symm.trans other
            exact binds (free.gate_bound entries there (step_ne_of_waits waits top))

end

/-! The leaf. -/

section

variable {line : LeafLine packWords} {sources : List PackSource}

theorem FreeAbove.unlimitedFor_heldBack (free : m.FreeAbove pack lower)
    (unmarked : line.flags.isReturn = false)
    (entries : m.stack.entries = heldBack frame line sources ++ lower) :
    m.UnlimitedFor (packRules pack) (2 * sources.length) := by
  induction sources generalizing m with
  | nil => exact fun k less => absurd less (Nat.not_lt_zero k)
  | cons source rest ih =>
    have top : m.stack.entries = ⟨frame, .drip line (source :: rest)⟩ :: ([] ++ lower) := entries
    have later := free.step top
    obtain ⟨next, staged, _⟩ := drip_turns (packRules pack) unmarked free.reached.pending free.fine
      entries later.fine
    have left := (step_execution_keeps (packRules pack) unmarked staged next).1
    exact UnlimitedFor.of_step (n := 2 * rest.length + 1) (free.goes top)
      (.of_step (later.goes next) (ih (later.step next) left))

end

end Machine

end PackEngine
