import PackEngine.Proofs.Results
import PackEngine.Proofs.ReturnLines
import PackEngine.Proofs.Tallies

/-! Call sites. The functions that a line calls run one after the other, each until nothing of it is
left. A single function's results, and those that only the frame hears, go on at once. Those of
several functions are summed for their listener first. In a line that is marked as a return the
first function that answers does so for the frame. -/
namespace PackEngine

open Machine

def calleeOf (original : PackSource) : PackSource :=
  (original.mapPersona Persona.forFunction).clearCallbacks

def siteCalls (frame : Frame packWords) (original : PackSource) (callback : Callback packWords)
    (bound : List (BoundFunction packWords)) : List (Entry packWords) :=
  bound.map fun function =>
    ⟨frame, .call function (announced isSilent original function.id callback) false
      (calleeOf original)⟩

def siteSink (frame : Frame packWords) (original : PackSource) : Callback packWords :=
  original.callback.chain frame.recorder

def summed (bound : List (BoundFunction packWords)) (original : PackSource) : Bool :=
  bound.length != 1 && !original.callback.isEmpty

def totalEntry (frame : Frame packWords) (original : PackSource) (tally : TallyId) :
    Entry packWords :=
  ⟨frame, .deferred (Control.deliverTally tally (siteSink frame original))⟩

def sites (frame : Frame packWords) (bound : List (BoundFunction packWords)) :
    TallyId → List PackSource → List (Entry packWords)
  | _, [] => []
  | tally, original :: others =>
      if summed bound original then
        siteCalls frame original [.tally tally] bound ++
          totalEntry frame original tally :: sites frame bound (tally + 1) others
      else siteCalls frame original (siteSink frame original) bound ++ sites frame bound tally others

/-! What the callbacks of call sites write. -/

theorem slotAfter_announced (id : SlotId) (source : PackSource) (function : FunctionId)
    (callback : Callback packWords) (outcomes : List Outcome) (held : Option Outcome) :
    Heap.slotAfter id
        (outcomes.flatMap (Callback.hearing (announced isSilent source function callback))) held =
      Heap.slotAfter id (outcomes.flatMap callback.hearing) held := by
  have each (outcome : Outcome) (held : Option Outcome) :
      Heap.slotAfter id (Callback.hearing (announced isSilent source function callback) outcome)
        held = Heap.slotAfter id (callback.hearing outcome) held := by
    unfold announced
    split <;> rfl
  induction outcomes generalizing held with
  | nil => rfl
  | cons outcome rest ih =>
    rw [List.flatMap_cons, List.flatMap_cons, Heap.slotAfter_append, Heap.slotAfter_append, each, ih]

theorem slotAfter_siteSink (frame : Frame packWords) (original : PackSource)
    (outcomes : List Outcome) (held : Option Outcome) :
    Heap.slotAfter frame.slot (outcomes.flatMap (siteSink frame original).hearing) held =
      outcomes.getLast?.or held := by
  have each (outcome : Outcome) (held : Option Outcome) :
      Heap.slotAfter frame.slot ((siteSink frame original).hearing outcome) held = some outcome := by
    unfold siteSink Callback.chain
    rw [Callback.hearing_append, Heap.slotAfter_append]
    exact if_pos rfl
  induction outcomes generalizing held with
  | nil => rfl
  | cons outcome rest ih =>
    rw [List.flatMap_cons, Heap.slotAfter_append, each, ih, List.getLast?_cons]
    cases rest.getLast? <;> rfl

theorem slotAfter_tally (id : SlotId) (tally : TallyId) (outcomes : List Outcome)
    (held : Option Outcome) :
    Heap.slotAfter id
        (outcomes.flatMap (Callback.hearing [(.tally tally : Receiver packWords)])) held = held := by
  refine Heap.slotAfter_unheard (fun heard member same => ?_) held
  obtain ⟨outcome, _, member⟩ := List.mem_flatMap.mp member
  rw [List.mem_singleton.mp member] at same
  cases same

namespace Machine

variable {pack : Pack} {m : Machine packWords} {frame : Frame packWords} {original : PackSource}
  {callback : Callback packWords} {lower : List (Entry packWords)}
  {bound : List (BoundFunction packWords)}

inductive Calls (pack : Pack) (frame : Frame packWords) (original : PackSource)
    (callback : Callback packWords) (lower : List (Entry packWords)) :
    List (BoundFunction packWords) → Machine packWords → Nat → List (List Outcome) → Prop where
  | done {m : Machine packWords} (entries : m.stack.entries = lower) :
      Calls pack frame original callback lower [] m 0 []
  | next {function : BoundFunction packWords} {rest : List (BoundFunction packWords)}
      {m : Machine packWords} {n k : Nat} {outcomes : List Outcome} {results : List (List Outcome)}
      (entries : m.stack.entries = siteCalls frame original callback (function :: rest) ++ lower)
      (episode : m.Episode pack
        (m.scope frame false (announced isSilent original function.id callback) (calleeOf original))
        (siteCalls frame original callback rest ++ lower) n outcomes)
      (later : Calls pack frame original callback lower rest (m.after (packRules pack) n) k results) :
      Calls pack frame original callback lower (function :: rest) m (n + k) (outcomes :: results)

section

variable {n : Nat} {results : List (List Outcome)}

theorem Calls.spends (calls : m.Calls pack frame original callback lower bound n results) :
    m.Spends pack lower lower n := by
  induction calls with
  | done entries => exact .nothing entries
  | next entries episode later ih => exact (episode.spends entries).mono.trans ih

theorem Calls.slot (calls : m.Calls pack frame original callback lower bound n results)
    {id : SlotId} (known : id < m.heap.slots.size) :
    (m.after (packRules pack) n).heap.recorded id =
      Heap.slotAfter id (results.flatten.flatMap callback.hearing) (m.heap.recorded id) := by
  induction calls with
  | done => rfl
  | @next function rest m n k outcomes results entries episode later ih =>
    have first : (m.after (packRules pack) n).heap.recorded id =
        Heap.slotAfter id (outcomes.flatMap callback.hearing) (m.heap.recorded id) :=
      ((episode.hears.follows episode.follows).slots id known).trans
        (slotAfter_announced id original function.id callback outcomes _)
    rw [after_add, ih (Nat.lt_of_lt_of_le known (after_expands (packRules pack) n m).slots), first,
      List.flatten_cons, List.flatMap_append, Heap.slotAfter_append]

theorem Calls.tally (calls : m.Calls pack frame original callback lower bound n results)
    {id : TallyId} {tally : Tally} (held : m.heap.tallies[id]? = some tally) :
    (m.after (packRules pack) n).heap.tallies[id]? = some
      ((results.flatten.flatMap fun outcome => Heap.tallied id (callback.hearing outcome)).foldl
        Tally.add tally) := by
  induction calls generalizing tally with
  | done => exact held
  | @next function rest m n k outcomes results entries episode later ih =>
    have known : id < m.heap.tallies.size := (Array.getElem?_eq_some_iff.mp held).1
    have first := tally_after (packRules pack) n held
    rw [episode.hears.tallied known] at first
    simp only [scope, tallied_hearing_announced] at first
    rw [after_add, ih first, List.flatten_cons, List.flatMap_append, List.foldl_append]

theorem FreeAbove.calls (free : m.FreeAbove pack lower)
    (entries : m.stack.entries = siteCalls frame original callback bound ++ lower) :
    ∃ n results, m.Calls pack frame original callback lower bound n results := by
  induction bound generalizing m with
  | nil => exact ⟨0, [], .done entries⟩
  | cons function rest ih =>
    have top : m.stack.entries =
        ⟨frame, .call function (announced isSilent original function.id callback) false
          (calleeOf original)⟩ :: (siteCalls frame original callback rest ++ lower) := entries
    obtain ⟨n, outcomes, _, episode⟩ := free.mono.call_episode top Callback.hosted_empty
    have left := episode.left.trans
      (Scope.leaves_of_call rfl (free.reached.top_precedes top) outcomes)
    obtain ⟨k, results, later⟩ := ih (free.spent (episode.spends top).mono) left
    exact ⟨n + k, outcomes :: results, .next entries episode later⟩

end

theorem FreeAbove.totals (free : m.FreeAbove pack lower) {tally : TallyId}
    (entries : m.stack.entries = totalEntry frame original tally :: lower) :
    (m.step (packRules pack)).stack.entries = lower ∧
      m.turnHeard (packRules pack) =
        (m.heap.total? tally).toList.flatMap (siteSink frame original).hearing ∧
      m.heap.Follows (m.turnHeard (packRules pack)) m.heap (m.step (packRules pack)).heap := by
  have turn : m.turnOperations (packRules pack) =
      [.deliverTally tally (siteSink frame original)] := turnOperations_of_entries _ entries
  have top : m.stack.entries = totalEntry frame original tally :: ([] ++ lower) := entries
  refine ⟨?_, ?_, step_follows _ (fun operation member => ?_) (.refl _)⟩
  · rw [free.step_queued top (by rw [turn]; rfl), turn]
    rfl
  · rw [turnHeard_of_entries _ entries, turn]
    simp only [Operation.allHeard, Operation.heard, List.append_nil]
    rw [show (m.taking (totalEntry frame original tally) lower).heap = m.heap from rfl]
    cases m.heap.total? tally <;> simp
  · rw [turn] at member
    rw [List.mem_singleton.mp member]
    trivial

/-- The results for a line's sources take their way, one source after the other. With a single
function, or for a source that nobody listens to, each result goes on at once, and the last one
stays in the frame's slot. Else the slot is not written until the calls are over, and in one turn
after them the sink hears the sum of what they answered, if they answered anything. -/
inductive Routes (pack : Pack) (frame : Frame packWords) (bound : List (BoundFunction packWords))
    (lower : List (Entry packWords)) :
    TallyId → List PackSource → Machine packWords → Nat → Prop where
  | done {tally : TallyId} {m : Machine packWords} (entries : m.stack.entries = lower) :
      Routes pack frame bound lower tally [] m 0
  | direct {tally : TallyId} {original : PackSource} {others : List PackSource}
      {m : Machine packWords} {n k : Nat} {results : List (List Outcome)}
      (policy : bound.length = 1 ∨ original.callback = [])
      (calls : m.Calls pack frame original (siteSink frame original)
        (sites frame bound tally others ++ lower) bound n results)
      (recorded : (m.after (packRules pack) n).heap.recorded frame.slot =
        results.flatten.getLast?.or (m.heap.recorded frame.slot))
      (later : Routes pack frame bound lower tally others (m.after (packRules pack) n) k) :
      Routes pack frame bound lower tally (original :: others) m (n + k)
  | summed {tally : TallyId} {original : PackSource} {others : List PackSource}
      {m : Machine packWords} {n k : Nat} {results : List (List Outcome)}
      (several : bound.length ≠ 1) (consumer : original.callback ≠ [])
      (calls : m.Calls pack frame original [.tally tally]
        (totalEntry frame original tally :: (sites frame bound (tally + 1) others ++ lower)) bound n
        results)
      (unwritten : (m.after (packRules pack) n).heap.recorded frame.slot =
        m.heap.recorded frame.slot)
      (heard : (m.after (packRules pack) n).turnHeard (packRules pack) =
        (totalOf results.flatten).toList.flatMap (siteSink frame original).hearing)
      (recorded : (m.after (packRules pack) (n + 1)).heap.recorded frame.slot =
        (totalOf results.flatten).or (m.heap.recorded frame.slot))
      (later : Routes pack frame bound lower (tally + 1) others
        (m.after (packRules pack) (n + 1)) k) :
      Routes pack frame bound lower tally (original :: others) m (n + 1 + k)

theorem mem_siteSink {id : TallyId} (member : .tally id ∈ siteSink frame original) :
    .tally id ∈ original.callback := by
  cases List.mem_append.mp member with
  | inl member => exact member
  | inr member => cases List.mem_singleton.mp member

theorem Calls.other_tally {n : Nat} {results : List (List Outcome)}
    (calls : m.Calls pack frame original callback lower bound n results) {id : TallyId}
    {tally : Tally} (held : m.heap.tallies[id]? = some tally) (other : .tally id ∉ callback) :
    (m.after (packRules pack) n).heap.tallies[id]? = some tally := by
  have after := calls.tally held
  rwa [List.flatMap_eq_nil_iff.mpr fun outcome _ => Heap.tallied_hearing other outcome] at after

/-- By induction on the sources. Tallies that wait for the sums of later sources hear nothing of
the earlier ones. -/
theorem FreeAbove.routes (free : m.FreeAbove pack lower) (known : frame.slot < m.heap.slots.size)
    {tally : TallyId} {present : List PackSource}
    (entries : m.stack.entries = sites frame bound tally present ++ lower)
    (opened : ∀ id, tally ≤ id → id < tally + present.countP (summed bound) →
      m.heap.tallies[id]? = some {})
    (foreign : ∀ source ∈ present, ∀ id, .tally id ∈ source.callback → id < tally) :
    ∃ n, m.Routes pack frame bound lower tally present n ∧ m.Spends pack lower lower n := by
  induction present generalizing m tally with
  | nil => exact ⟨0, .done entries, .nothing entries⟩
  | cons original others ih =>
    have elsewhere := fun source member => foreign source (List.mem_cons_of_mem original member)
    -- The sums of this source and of later ones are newer than all that its callback mentions.
    have unheard (id : TallyId) (young : tally ≤ id) : .tally id ∉ siteSink frame original :=
      fun member => absurd (foreign original List.mem_cons_self id (mem_siteSink member))
        (Nat.not_lt_of_le young)
    cases sums : summed bound original with
    | false =>
      have policy : bound.length = 1 ∨ original.callback = [] := by
        by_cases single : bound.length = 1
        · exact .inl single
        · exact .inr (by simpa [summed, single] using sums)
      rw [sites, if_neg (by simp [sums]), List.append_assoc] at entries
      obtain ⟨n, results, calls⟩ := free.mono.calls entries
      have spends := calls.spends.mono
      have recorded := calls.slot known
      rw [slotAfter_siteSink] at recorded
      obtain ⟨k, later, rest⟩ := ih (free.spent spends)
        (Nat.lt_of_lt_of_le known (after_expands (packRules pack) n m).slots) spends.left
        (fun id young less => calls.other_tally
          (opened id young (by simpa [List.countP_cons, sums] using less)) (unheard id young))
        elsewhere
      exact ⟨n + k, .direct policy calls recorded later, spends.trans rest⟩
    | true =>
      obtain ⟨several, consumer⟩ : bound.length ≠ 1 ∧ original.callback ≠ [] := by
        simpa [summed] using sums
      have all : (original :: others).countP (summed bound) =
          others.countP (summed bound) + 1 := List.countP_cons_of_pos sums
      rw [sites, if_pos sums, List.append_assoc] at entries
      obtain ⟨n, results, calls⟩ := free.mono.calls entries
      have spends := calls.spends.mono
      have unwritten := calls.slot known
      rw [slotAfter_tally] at unwritten
      have total : (m.after (packRules pack) n).heap.total? tally = totalOf results.flatten := by
        have among : tally < tally + (original :: others).countP (summed bound) :=
          all ▸ Nat.lt_add_of_pos_right (Nat.succ_pos _)
        have sum := calls.tally (opened tally (Nat.le_refl _) among)
        simp only [Heap.tallied_hearing_tally, List.flatMap_singleton'] at sum
        unfold Heap.total?
        rw [sum]
        exact total?_foldl_add _
      have here := free.spent spends
      obtain ⟨stack, heard, follows⟩ := here.mono.totals calls.spends.left
      rw [total] at heard
      have wide := after_expands (packRules pack) n m
      have recorded := follows.slots frame.slot (Nat.lt_of_lt_of_le known wide.slots)
      rw [heard, slotAfter_siteSink, unwritten] at recorded
      have waiting (id : TallyId) (young : tally + 1 ≤ id)
          (less : id < tally + 1 + others.countP (summed bound)) :
          (m.after (packRules pack) (n + 1)).heap.tallies[id]? = some {} := by
        have among : id < tally + (original :: others).countP (summed bound) := by
          rwa [all, Nat.add_comm (others.countP _), ← Nat.add_assoc]
        have before := calls.other_tally (opened id (Nat.le_of_succ_le young) among) fun member => by
          cases List.mem_singleton.mp member
          exact Nat.not_succ_le_self _ young
        have after := tally_step (packRules pack) before
        rw [heard, Heap.tallied_unheard] at after
        · rwa [after_succ]
        · intro heard member same
          obtain ⟨outcome, _, member⟩ := List.mem_flatMap.mp member
          obtain ⟨receiver, among, rfl⟩ := List.mem_map.mp member
          exact unheard id (Nat.le_of_succ_le young) (same ▸ among)
      have next := spends.trans (here.spends_turn spends.left stack)
      obtain ⟨k, later, rest⟩ := ih (free.spent next)
        (Nat.lt_of_lt_of_le known (after_expands (packRules pack) (n + 1) m).slots) next.left waiting
        fun source member id among => Nat.lt_succ_of_lt (elsewhere source member id among)
      refine ⟨n + 1 + k, .summed several consumer calls unwritten heard ?_ later, next.trans rest⟩
      rw [after_succ, recorded]
      cases totalOf results.flatten <;> rfl

/-- The functions of a return call run one after the other, until one of them answers: the source's
callback hears each of its answers, and then the frame's sink does, and the frame has ended. If none
answers, the sink hears a failure, and the frame ends as well. -/
inductive Attempts (pack : Pack) (frame : Frame packWords) (original : PackSource)
    (lower : List (Entry packWords)) :
    List (BoundFunction packWords) → Machine packWords → Nat → List Outcome → Prop where
  | fails {m : Machine packWords} (entries : m.stack.entries = ⟨frame, .fallthrough⟩ :: lower)
      (heard : m.turnHeard (packRules pack) = frame.sink.hearing Outcome.failure)
      (left : (m.step (packRules pack)).stack.entries =
        lower.dropWhile fun entry => frame.boundary.covers entry.frame) :
      Attempts pack frame original lower [] m 1 []
  | answers {function : BoundFunction packWords} {rest : List (BoundFunction packWords)}
      {m : Machine packWords} {n : Nat} {outcomes : List Outcome}
      (entries : m.stack.entries = returnCalls frame (function :: rest) original ++ lower)
      (episode : m.Episode pack
        (m.scope frame true
          (announced isSilent original function.id (original.callback.chain frame.sink))
          (calleeOf original))
        (returnCalls frame rest original ++ lower) n outcomes)
      (nonempty : outcomes ≠ [])
      (left : (m.after (packRules pack) n).stack.entries =
        lower.dropWhile fun entry => frame.boundary.covers entry.frame) :
      Attempts pack frame original lower (function :: rest) m n outcomes
  | passes {function : BoundFunction packWords} {rest : List (BoundFunction packWords)}
      {m : Machine packWords} {n k : Nat} {outcomes : List Outcome}
      (entries : m.stack.entries = returnCalls frame (function :: rest) original ++ lower)
      (episode : m.Episode pack
        (m.scope frame true
          (announced isSilent original function.id (original.callback.chain frame.sink))
          (calleeOf original))
        (returnCalls frame rest original ++ lower) n [])
      (later : Attempts pack frame original lower rest (m.after (packRules pack) n) k outcomes) :
      Attempts pack frame original lower (function :: rest) m (n + k) outcomes

theorem dropWhile_returnCalls (bound : List (BoundFunction packWords))
    (own : frame.boundary.covers frame = true) (sources : List PackSource)
    (lower : List (Entry packWords)) :
    (sources.flatMap (returnCalls frame bound) ++ lower).dropWhile
        (fun entry => frame.boundary.covers entry.frame) =
      lower.dropWhile fun entry => frame.boundary.covers entry.frame := by
  refine List.dropWhile_append_of_pos fun entry member => ?_
  obtain ⟨_, _, member⟩ := List.mem_flatMap.mp member
  rw [(pursues_of_mem_returnCalls member).1]
  exact own

theorem FreeAbove.attempts (free : m.FreeAbove pack lower)
    (entries : m.stack.entries = returnCalls frame bound original ++ lower) :
    ∃ n outcomes, m.Attempts pack frame original lower bound n outcomes ∧
      m.Spends pack lower (lower.dropWhile fun entry => frame.boundary.covers entry.frame) n := by
  induction bound generalizing m with
  | nil =>
    have top : m.stack.entries = ⟨frame, .fallthrough⟩ :: ([] ++ lower) := entries
    obtain ⟨heard, left, _⟩ := free.reached.returning_turn Outcome.failure top rfl
    exact ⟨1, [], .fails top heard left, free.spends_turn top left⟩
  | cons function rest ih =>
    have top : m.stack.entries = ⟨frame, .call function
        (announced isSilent original function.id (original.callback.chain frame.sink)) true
        (calleeOf original)⟩ :: (returnCalls frame rest original ++ lower) := entries
    obtain ⟨n, outcomes, _, episode⟩ := free.mono.call_episode top Callback.hosted_empty
    have spends := (episode.spends top).mono
    cases outcomes with
    | nil =>
      obtain ⟨k, outcomes, later, more⟩ := ih (free.spent spends) spends.left
      exact ⟨n + k, outcomes, .passes entries episode later, spends.trans more⟩
    | cons outcome more =>
      have own : frame.boundary.covers frame = true := by
        simp [Boundary.covers, (free.reached.knows _ (top ▸ List.mem_cons_self)).valid]
      have dropped := dropWhile_returnCalls rest own [original] lower
      rw [List.flatMap_singleton] at dropped
      have left := episode.left.trans dropped
      exact ⟨n, _, .answers entries episode (List.cons_ne_nil _ _) left,
        ⟨spends.runs, spends.above, left⟩⟩

end Machine

section

variable {pack : Pack} {frame : Frame packWords} {lower : List (Entry packWords)}
  {chain : Chain packWords} {flags : Flags} {target : String} {arguments : Option Json}
  {functions : List (FunctionRef packWords)} {bound : List (BoundFunction packWords)}

theorem Machine.Tacit.newTally (mark : Heap packWords) : Tacit mark .newTally :=
  ⟨by simp, trivial, fun _ => rfl⟩

theorem Callback.Ordinary.tally {callback : Callback packWords} (h : callback.Ordinary)
    (id : TallyId) : .tally id ∉ callback := by
  intro member
  obtain ⟨listener, same, _⟩ := h _ member
  cases same

theorem actOperations_sites (frame : Frame packWords) (chain : Chain packWords)
    (resolves : pack.library.resolve target = .ok functions)
    (binds : FunctionRef.instantiateAll arguments functions = .ok bound)
    (calls : flags.isReturn = false) (source : PackSource) (m : Machine packWords) :
    ∃ first, actOperations (packRules pack) frame (.function target arguments) chain flags source
        m = first ++ (if summed bound source then
          siteCalls frame source [.tally m.heap.tallies.size] bound ++
            [totalEntry frame source m.heap.tallies.size]
          else siteCalls frame source (siteSink frame source) bound).map .queue ∧
      first.countP Operation.opensTally = (if summed bound source then 1 else 0) ∧
      Operation.queuedIn first = [] ∧ ∀ mark, ∀ operation ∈ first, Tacit mark operation := by
  let tell : Operation packWords := .update (source.persona.sendSuccess (runningText functions))
  have acts := actOperations_functions resolves binds frame chain flags source m
  cases sums : summed bound source with
  | true =>
    obtain ⟨several, consumer⟩ : bound.length ≠ 1 ∧ source.callback ≠ [] := by
      simpa [summed] using sums
    rw [queueFunctions_summed _ _ _ _ _ binds several consumer calls] at acts
    refine ⟨[tell, .newTally], acts, rfl, rfl, fun mark operation member => ?_⟩
    simp only [List.mem_cons, List.not_mem_nil, or_false] at member
    obtain rfl | rfl := member
    · exact .update mark _
    · exact .newTally mark
  | false =>
    have policy : (bound.length == 1 || source.callback.isEmpty) = true := by
      simp only [summed, Bool.and_eq_false_iff, Bool.not_eq_false', bne_eq_false_iff_eq] at sums
      simpa using sums
    rw [queueFunctions_operations, binds] at acts
    dsimp only at acts
    rw [if_neg (by simp [calls]), if_pos policy] at acts
    refine ⟨[tell], acts.trans ?_, rfl, rfl, fun mark operation member => ?_⟩
    · simp [siteCalls, siteSink, calleeOf, tell, Function.comp_def]
    · exact List.mem_singleton.mp member ▸ .update mark _

theorem actAllOperations_sites (frame : Frame packWords) (chain : Chain packWords)
    (resolves : pack.library.resolve target = .ok functions)
    (binds : FunctionRef.instantiateAll arguments functions = .ok bound)
    (calls : flags.isReturn = false) (mark : Heap packWords) (sources : List PackSource)
    (m : Machine packWords) :
    let acts := actAllOperations (packRules pack) frame (.function target arguments) chain flags
      sources m
    Operation.queuedIn acts = sites frame bound m.heap.tallies.size sources ∧
      sources.countP (summed bound) = acts.countP Operation.opensTally ∧
      ∀ operation ∈ acts, Tacit mark operation := by
  induction sources generalizing m with
  | nil => exact ⟨rfl, rfl, fun _ member => absurd member List.not_mem_nil⟩
  | cons source rest ih =>
    obtain ⟨first, own, opens, idle, tacit⟩ := actOperations_sites frame chain resolves binds
      calls source m
    obtain ⟨queues, opened, later⟩ := ih (Operation.applyAll (packRules pack) (actOperations
      (packRules pack) frame (.function target arguments) chain flags source m) m)
    unfold actAllOperations
    dsimp only
    rw [Operation.tallies_size_applyAll] at queues
    rw [own] at queues opened later ⊢
    rw [List.countP_append, Operation.countP_opensTally_queue, opens, Nat.add_zero] at queues
    refine ⟨?_, ?_, fun operation member => ?_⟩
    · rw [Operation.queuedIn_append, Operation.queuedIn_append, idle,
        Operation.queuedIn_map_queue, queues, List.nil_append, sites]
      split <;> simp
    · rw [List.countP_append, List.countP_append, Operation.countP_opensTally_queue, opens, ← opened,
        List.countP_cons]
      omega
    · simp only [List.mem_append, List.mem_map] at member
      obtain (member | ⟨entry, _, rfl⟩) | member := member
      · exact tacit mark operation member
      · exact .queue mark entry
      · exact later operation member

theorem finishOperations_action {action : CallAction} (ends : chain.executable = .action action)
    {present : List PackSource} (acts : present ≠ [] ∨ flags.isReturn = false)
    (m : Machine packWords) :
    finishOperations (packRules pack) frame { chain with modifiers := [] } flags present m =
      actAllOperations (packRules pack) frame action { chain with modifiers := [] } flags present
        m := by
  unfold finishOperations
  cases present with
  | nil => simp [actAllOperations, acts.resolve_left fun nonempty => nonempty rfl]
  | cons source rest => simp only [ends, List.isEmpty_cons, Bool.false_eq_true, if_false]

variable {m : Machine packWords} {issuer : PackSource} {sources : Sources packWords}
  {before marked : Flags} {topLevel : Bool} {present : List PackSource}

namespace Machine

/-- The turn in which a line gets to an action that only queues work and opens sums. Nothing is
heard in it, and the sums are empty. -/
theorem FreeAbove.acting_turn (free : m.FreeAbove pack lower)
    (entries : m.stack.entries = ⟨frame, .line issuer sources chain before topLevel⟩ :: lower)
    (there : m.arrival (packRules pack) = some ⟨[], marked, present⟩) {action : CallAction}
    (ends : chain.executable = .action action) (reaches : present ≠ [] ∨ marked.isReturn = false)
    {queued : List (Entry packWords)} {opened : Nat}
    (acts : ∀ here : Machine packWords, here.heap.tallies.size = m.heap.tallies.size →
      let acting := actAllOperations (packRules pack) frame action { chain with modifiers := [] }
        marked present here
      Operation.queuedIn acting = queued ∧ opened ≤ acting.countP Operation.opensTally ∧
        ∀ operation ∈ acting, Tacit {} operation) :
    (m.step (packRules pack)).stack.entries = queued ++ lower ∧
      m.turnHeard (packRules pack) = [] ∧
      ∀ id, m.heap.tallies.size ≤ id → id < m.heap.tallies.size + opened →
        (m.step (packRules pack)).heap.tallies[id]? = some {} := by
  obtain ⟨opening, turn, opens, _, _⟩ := turnOperations_of_line
    (packRules pack).redirectsKeep_true trivial entries fun _ _ => trivial
  have sumless : opening.countP Operation.opensTally = 0 := by
    refine List.countP_eq_zero.mpr fun operation member => ?_
    obtain ⟨event, rfl⟩ | ⟨cell, _, rfl⟩ | ⟨_, _, _, _, rfl⟩ := opens operation member <;>
      exact Bool.false_ne_true
  have size := Operation.tallies_size_applyAll (packRules pack) opening
    (m.taking ⟨frame, .line issuer sources chain before topLevel⟩ lower)
  rw [sumless] at size
  obtain ⟨queues, sums, quiet⟩ := acts _ size
  rw [← finishOperations_action ends reaches] at queues sums quiet
  rw [there] at turn
  have tacit : ∀ operation ∈ m.turnOperations (packRules pack), Tacit {} operation := by
    intro operation member
    rw [turn] at member
    cases List.mem_append.mp member with
    | inl member => exact (opens operation member).tacit fun cell _ => Nat.zero_le cell
    | inr member => exact quiet operation member
  have all : Operation.queuedIn (m.turnOperations (packRules pack)) = queued := by
    rw [turn, Operation.queuedIn_append, queuedIn_opens opens]
    exact queues
  obtain ⟨stack, heard, _⟩ := free.queues entries tacit all
  refine ⟨stack, heard, fun id young less => ?_⟩
  rw [step_eq_applyAll _ entries]
  refine Operation.tally_opened tacit young ?_
  rw [Operation.tallies_size_applyAll, turn, List.countP_append, sumless, Nat.zero_add]
  exact Nat.lt_of_lt_of_le less (Nat.add_le_add_left sums _)

theorem Orderly.arriving {start : Nat} (orderly : m.Orderly start)
    (entries : m.stack.entries = ⟨frame, .line issuer sources chain before topLevel⟩ :: lower)
    {ahead : List (Modifier packWords)}
    (there : m.arrival (packRules pack) = some ⟨ahead, marked, present⟩) :
    ∀ source ∈ present, Callback.Ordinary source.callback := by
  cases (orderly.addressed _ (entries ▸ List.mem_cons_self)).task with
  | line _ _ _ issued heard =>
    have fit : ∀ source ∈ (m.takeSources sources).1, Callback.Ordinary source.callback := by
      cases sources with
      | ready present => exact heard present rfl
      | collected cell => exact orderly.calm.cells cell
    have closed : (packRules pack).RedirectsKeep fun source =>
        Callback.Ordinary source.callback := keepsStores_ordinary.redirectsKeep
    obtain ⟨_, _, _, _, fits⟩ := turnOperations_of_line closed issued entries fit
    exact fits _ there

/-- Where results go from the call sites of a line. In the turn in which a line gets to its
executable, and that calls functions, their calls are queued for each of the line's sources, and
nobody hears anything. The functions of a source run one after the other, each until nothing of it
is left, under the source without its callback. No limit stops the run before it is back at the
lower work, and the sources listen to sums only that there are, as they do in every orderly run.

If there is one function, or nobody listens to the source, each result is heard by the source's
callback and then by the frame's slot as it is returned. Else nothing is written to the slot until
the calls for the source are over; then the callback and the slot hear the sum of the results once,
or nothing if there was no result.

In a line that is marked as a return the functions run for the first source, until one of them
answers: the source's callback hears each answer, and then the frame's sink does. If none answers,
the sink hears a failure. In both cases nothing of the frame is left, and nothing of it ever waits
again. -/
theorem Reached.call_sites_route (reached : m.Reached (packRules pack) PackTask)
    (unlimited : m.UnlimitedAbove (packRules pack) lower)
    (entries : m.stack.entries = ⟨frame, .line issuer sources chain before topLevel⟩ :: lower)
    (there : m.arrival (packRules pack) = some ⟨[], marked, present⟩)
    (ends : chain.executable = .action (.function target arguments))
    (resolves : pack.library.resolve target = .ok functions)
    (binds : FunctionRef.instantiateAll arguments functions = .ok bound)
    (known : ∀ source ∈ present, ∀ tally, .tally tally ∈ source.callback →
      tally < m.heap.tallies.size) :
    (marked.isReturn = false → m.turnHeard (packRules pack) = [] ∧ ∃ n,
      (m.step (packRules pack)).Routes pack frame bound lower m.heap.tallies.size present n ∧
      m.Spends pack lower lower (1 + n)) ∧
    (marked.isReturn = true → ∀ original others, present = original :: others →
      m.turnHeard (packRules pack) = [] ∧ ∃ n outcomes,
      (m.step (packRules pack)).Attempts pack frame original
        (others.flatMap (returnCalls frame bound) ++ lower) bound n outcomes ∧
      m.Spends pack lower (lower.dropWhile fun entry => frame.boundary.covers entry.frame) (1 + n) ∧
      ∀ k, (m.after (packRules pack) (1 + n)).Runs (packRules pack) k →
        ∀ entry ∈ (m.after (packRules pack) (1 + n + k)).stack.entries, entry.frame ≠ frame) := by
  have free : m.FreeAbove pack lower := ⟨reached, unlimited⟩
  have top : m.stack.entries =
      ⟨frame, .line issuer sources chain before topLevel⟩ :: ([] ++ lower) := entries
  have knows := reached.knows _ (entries ▸ List.mem_cons_self)
  have first := free.spends_turn top rfl
  refine ⟨fun calls => ?_, fun returns original others same => ?_⟩
  · obtain ⟨stack, heard, opened⟩ := free.acting_turn entries there ends (.inr calls)
      fun here size => by
        obtain ⟨queues, sums, tacit⟩ := actAllOperations_sites frame { chain with modifiers := [] }
          resolves binds calls {} present here
        exact ⟨size ▸ queues, Nat.le_of_eq sums, tacit⟩
    obtain ⟨n, routes, rest⟩ := (free.step top).routes
      (Nat.lt_of_lt_of_le knows.known (step_expands (packRules pack) m).slots) stack opened known
    exact ⟨heard, n, routes, first.trans rest⟩
  · subst same
    obtain ⟨stack, heard, _⟩ := free.acting_turn entries there ends (.inl (List.cons_ne_nil _ _))
      fun here _ => by
        obtain ⟨queues, tacit⟩ := actAllOperations_returnCalls resolves binds returns {} _ here
        exact ⟨queues, Nat.zero_le _, tacit⟩
    rw [List.flatMap_cons, List.append_assoc] at stack
    obtain ⟨n, outcomes, attempts, rest⟩ := (free.step top).mono.attempts stack
    have own : frame.boundary.covers frame = true := by
      simp [Boundary.covers, knows.valid]
    rw [dropWhile_returnCalls bound own others] at rest
    have all := first.trans rest.mono
    refine ⟨heard, n, outcomes, attempts, all, fun k further => ?_⟩
    rw [after_add]
    refine (free.spent all).reached.absent ?_ (fun entry member => ?_) further
    · exact Nat.lt_of_lt_of_le knows.known (after_expands (packRules pack) (1 + n) m).slots
    · exact reached.absent_of_returned entries entry (all.left ▸ member)

end Machine

end

namespace Machine

/-- The line that sums both functions of the pair is next. -/
def summing : Machine packWords := (pairRun "both").after (packRules pairPack) 1

theorem call_sites_route_pair :
    (summing.turnHeard (packRules pairPack) = [] ∧
      ∃ frame bound lower, ∃ original : PackSource, ∃ n, bound.length = 2 ∧
        original.callback = [.host (.score .result "x" "y")] ∧
        (summing.step (packRules pairPack)).Routes pairPack frame bound lower 0 [original] n ∧
        summing.Spends pairPack lower lower (1 + n)) ∧
    ∃ frame bound lower left original n outcomes,
      ((returnRun "found").step (packRules returnPack)).Attempts returnPack frame original lower
        bound n outcomes ∧
      (returnRun "found").Spends returnPack lower left (1 + n) := by
  have runs : (pairRun "both").Runs (packRules pairPack) 1 :=
    (runs_succ_iff _ _ _).mpr ⟨rfl, runs_zero _ _⟩
  have opening := RunRequest.opening_reached { target := "both" } (pairFunctions "both") {} pairPack
  have start : summing.Reached (packRules pairPack) PackTask := opening.after runs
  have orderly : summing.Orderly 0 :=
    (RunRequest.opening_orderly Callback.ordinary_empty rfl).after opening runs
  have unlimited : summing.Unlimited (packRules pairPack) :=
    unlimited_of_turn (show turn (packRules pairPack) 20 _ = some (.ok (), _) from rfl)
  have later := returnRun_reached "found" rfl
  have fine : (returnRun "found").Unlimited (packRules returnPack) :=
    unlimited_of_turn (show turn (packRules returnPack) 20 _ = some (.ok (), _) from rfl)
  obtain ⟨sums, _⟩ := start.call_sites_route (unlimited.above _) rfl rfl rfl rfl rfl
    fun source member tally among =>
      absurd among ((orderly.arriving rfl rfl source member).tally tally)
  obtain ⟨_, returns⟩ := later.call_sites_route (fine.above _) rfl rfl rfl rfl rfl
    fun source member tally among => by
      rw [List.mem_singleton.mp member] at among
      cases among
  obtain ⟨silent, n, routes, spends⟩ := sums rfl
  obtain ⟨_, k, outcomes, attempts, ends, _⟩ := returns rfl _ _ rfl
  exact ⟨⟨silent, _, _, _, _, n, rfl, rfl, routes, spends⟩, _, _, _, _, _, k, outcomes, attempts,
    ends⟩

end Machine

end PackEngine
