import PackEngine.Proofs.Activations
import PackEngine.Proofs.Commands

/-! The operations of a pack's tasks. A line ends by returning once for each of its sources, or by
work that never returns; of each operation in that work its form is known. -/
namespace PackEngine

variable {V : Vocabulary}

inductive PackTask : Task packWords → Prop where
  | line (issuer : PackSource) (sources : Sources packWords) (chain : Chain packWords)
      (flags : Flags) (topLevel : Bool) : PackTask (.line issuer sources chain flags topLevel)
  | execute (line : LeafLine packWords) (source : PackSource) : PackTask (.execute line source)
  | drip (line : LeafLine packWords) (sources : List PackSource) : PackTask (.drip line sources)
  | call (function : BoundFunction packWords) (callback : Callback packWords) (returnCall : Bool)
      (source : PackSource) : PackTask (.call function callback returnCall source)
  | endFunction : PackTask .endFunction
  | condition (bound : List (BoundFunction packWords)) (callee : PackSource)
      (output : Callback packWords) : PackTask (.isolated (conditionProducer bound callee) output)
  | fallthrough : PackTask .fallthrough
  | total (tally : TallyId) (sink : Callback packWords) :
      PackTask (.deferred (Control.deliverTally tally sink))
  | heading (index : Nat) (item : PrintItem) :
      PackTask (.deferred (tell (World.add (.traced (.opened index) item))))
  | closing (index : Nat) (source : PackSource) (text : String) :
      PackTask (.deferred (traceClosing index source text))

inductive Feedback : (World → World) → Prop where
  | success (persona : Persona) (text : String) : Feedback (persona.sendSuccess text)
  | failure (persona : Persona) (text : String) : Feedback (persona.sendFailure text)
  | opened (index : Nat) : Feedback (World.add (.traceOpened index))

/-- The work of a line that does not return. The callbacks of its sources satisfy `C`, and it
begins with a number of tallies. -/
inductive LineWork (frame : Frame packWords) (issuer : PackSource) (chain : Chain packWords)
    (tallies : Nat) (C : Callback packWords → Prop) : Operation packWords → Prop where
  | trace (event : TraceEvent) : LineWork frame issuer chain tallies C (.trace event)
  | emptyCell (cell : CellId) : LineWork frame issuer chain tallies C (.emptyCell cell)
  | report (source : PackSource) (error : CommandError) (forked : Bool) :
      LineWork frame issuer chain tallies C (.report source error forked)
  | tell {change : World → World} (feedback : Feedback change) :
      LineWork frame issuer chain tallies C (.update change)
  | newCell : LineWork frame issuer chain tallies C .newCell
  | newTally : LineWork frame issuer chain tallies C .newTally
  | attach (tracer : TracerId) : LineWork frame issuer chain tallies C (.attach tracer)
  | refuse {callback : Callback packWords} (heard : C callback) :
      LineWork frame issuer chain tallies C (.deliver callback Outcome.failure)
  | record : LineWork frame issuer chain tallies C (.record frame Outcome.failure)
  | execute (line : LeafLine packWords) {source : PackSource} (heard : C source.callback) :
      LineWork frame issuer chain tallies C (.queue ⟨frame, .execute line source⟩)
  | drip (line : LeafLine packWords) {sources : List PackSource}
      (heard : ∀ source ∈ sources, C source.callback) :
      LineWork frame issuer chain tallies C (.queue ⟨frame, .drip line sources⟩)
  | fallthrough : LineWork frame issuer chain tallies C (.queue ⟨frame, .fallthrough⟩)
  | condition (polarity : Polarity) (bound : List (BoundFunction packWords)) (cell : CellId)
      {source : PackSource} (heard : C source.callback) :
      LineWork frame issuer chain tallies C (.queue ⟨frame,
        conditionTask (PackSource.mapPersona Persona.forFunction) polarity bound cell source⟩)
  | continuation (cell : CellId) {rest : Chain packWords} (flags : Flags)
      (shorter : rest.modifiers.length < chain.modifiers.length) :
      LineWork frame issuer chain tallies C (.queue ⟨frame, .continuation issuer cell rest flags⟩)
  | returnCall (function : BoundFunction packWords) {source : PackSource} (callee : PackSource)
      (heard : C source.callback) :
      LineWork frame issuer chain tallies C (.queue ⟨frame, .call function
        (announced isSilent source function.id (source.callback.chain frame.sink)) true
        callee.clearCallbacks⟩)
  | call (function : BoundFunction packWords) {source : PackSource} (callee : PackSource)
      (heard : C source.callback) :
      LineWork frame issuer chain tallies C (.queue ⟨frame, .call function
        (announced isSilent source function.id (source.callback.chain frame.recorder)) false
        callee.clearCallbacks⟩)
  | talliedCall (function : BoundFunction packWords) (source callee : PackSource)
      {tally : TallyId} (fresh : tallies ≤ tally) :
      LineWork frame issuer chain tallies C (.queue ⟨frame, .call function
        (announced isSilent source function.id [.tally tally]) false callee.clearCallbacks⟩)
  | total {tally : TallyId} (fresh : tallies ≤ tally) {source : PackSource}
      (heard : C source.callback) :
      LineWork frame issuer chain tallies C (.queue ⟨frame,
        .deferred (Control.deliverTally tally (source.callback.chain frame.recorder))⟩)
  | heading (index : Nat) (item : PrintItem) :
      LineWork frame issuer chain tallies C (.queue ⟨frame,
        .deferred (PackEngine.tell (World.add (.traced (.opened index) item)))⟩)
  | tracedCall (function : BoundFunction packWords) {traced : PackSource}
      (heard : C traced.callback) :
      LineWork frame issuer chain tallies C
        (.queue ⟨frame, .call function Callback.empty false traced⟩)
  | closing (index : Nat) (source : PackSource) (text : String) :
      LineWork frame issuer chain tallies C
        (.queue ⟨frame, .deferred (traceClosing index source text)⟩)

def returnsOf (frame : Frame packWords) (outcome : Outcome) (sources : List PackSource) :
    List (Operation packWords) :=
  sources.flatMap fun source => [.deliver source.callback outcome, .returnFrom frame outcome]

/-- A line works, or it returns explicitly under all sources that it still has. -/
inductive PackLine (frame : Frame packWords) (issuer : PackSource) (chain : Chain packWords)
    (tallies : Nat) (C : Callback packWords → Prop) : List (Operation packWords) → Prop where
  | works {operations : List (Operation packWords)}
      (work : ∀ operation ∈ operations, LineWork frame issuer chain tallies C operation) :
      PackLine frame issuer chain tallies C operations
  | returns {first : List (Operation packWords)} {action : CallAction} {outcome : Outcome}
      {sources : List PackSource}
      (quiet : ∀ operation ∈ first,
        operation.Mundane ∧ LineWork frame issuer chain tallies C operation)
      (ends : chain.executable = .action action) (returned : action.returned? = some outcome)
      (present : sources ≠ []) (heard : ∀ source ∈ sources, C source.callback) :
      PackLine frame issuer chain tallies C (first ++ returnsOf frame outcome sources)

section

variable {pack : Pack} {frame : Frame packWords} {issuer : PackSource} {chain : Chain packWords}
  {tallies : Nat} {C : Callback packWords → Prop}

theorem actAllOperations_of_returned {action : CallAction} {outcome : Outcome}
    (returned : action.returned? = some outcome) (acted : Chain packWords) (flags : Flags)
    (sources : List PackSource) (m : Machine packWords) :
    Machine.actAllOperations (packRules pack) frame action acted flags sources m =
      returnsOf frame outcome sources := by
  have acts (source : PackSource) (m : Machine packWords) :
      Machine.actOperations (packRules pack) frame action acted flags source m =
        [.deliver source.callback outcome, .returnFrom frame outcome] := by
    cases action with
    | function target arguments => cases returned
    | debug target => cases returned
    | returnValue value =>
      cases returned
      rfl
    | returnFail =>
      cases returned
      rfl
  induction sources generalizing m with
  | nil => rfl
  | cons source rest ih =>
    unfold Machine.actAllOperations
    dsimp only
    rw [acts, ih]
    rfl

theorem CallAction.Move.works {action : CallAction} {source : PackSource} {tally : TallyId}
    {operation : Operation packWords} (move : action.Move frame source tally operation)
    (other : action.returned? = none) (heard : C source.callback) (fresh : tallies ≤ tally) :
    LineWork frame issuer chain tallies C operation := by
  cases move with
  | tell => exact .tell (.success _ _)
  | returnCall _ _ function => exact .returnCall function _ heard
  | fallthrough => exact .fallthrough
  | call _ _ function => exact .call function _ heard
  | newTally => exact .newTally
  | talliedCall _ _ function => exact .talliedCall function _ _ fresh
  | total => exact .total fresh heard
  | opened _ index => exact .tell (.opened index)
  | attach => exact .attach _
  | failed => exact .tell (.failure _ _)
  | heading _ index => exact .heading index _
  | tracedCall _ trace own function =>
    subst own
    exact .tracedCall function heard
  | closing _ index text => exact .closing index source text
  | deliver returned => cases other.symm.trans returned
  | returnFrom returned => cases other.symm.trans returned

theorem actAllOperations_works {action : CallAction} (other : action.returned? = none)
    (acted : Chain packWords) (flags : Flags) {sources : List PackSource}
    (heard : ∀ source ∈ sources, C source.callback) {m : Machine packWords}
    (le : tallies ≤ m.heap.tallies.size) :
    ∀ operation ∈
      Machine.actAllOperations (packRules pack) frame action acted flags sources m,
      LineWork frame issuer chain tallies C operation := by
  refine Machine.forall_actAllOperations (fun source among before operation member => ?_)
    fun source among _ error _ => ⟨.report _ _ _, .refuse (heard source among), .record⟩
  have grows := (Operation.grows_applyAll (packRules pack) before m).tallies
  exact (action.moves operation member).works other (heard source among)
    (Nat.le_trans le grows)

theorem gateOperations_works (condition : Condition) {passed rest : List (Modifier packWords)}
    {modifier : Modifier packWords} (place : chain.modifiers = passed ++ modifier :: rest)
    (flags : Flags) {sources : List PackSource} (heard : ∀ source ∈ sources, C source.callback)
    (m : Machine packWords) :
    ∀ operation ∈ Machine.gateOperations (packRules pack) frame condition issuer sources
      { chain with modifiers := modifier :: rest } flags m,
      LineWork frame issuer chain tallies C operation := by
  intro operation member
  unfold Machine.gateOperations at member
  cases List.mem_append.mp member with
  | inr member =>
    split at member
    · cases member
    · rw [List.mem_singleton.mp member]
      exact .report _ _ _
  | inl member =>
    change operation ∈ (condition.schedule pack issuer sources
      { chain with modifiers := modifier :: rest } flags).operations _ _ _ at member
    unfold Condition.schedule at member
    cases resolved : pack.library.resolve condition.target with
    | error error =>
      rw [resolved] at member
      cases member
    | ok functions =>
      rw [resolved] at member
      change operation ∈ (scheduleConditions (PackSource.mapPersona Persona.forFunction)
        condition.polarity functions issuer sources
        { chain with modifiers := modifier :: rest } flags).operations _ _ _ at member
      rw [scheduleConditions_operations] at member
      split at member
      · cases member
      · simp only [Chain.next?, List.cons_append, List.mem_cons, List.mem_append, List.mem_map,
          List.not_mem_nil, or_false] at member
        obtain rfl | ⟨source, present, rfl⟩ | rfl := member
        · exact .newCell
        · exact .condition _ _ _ (heard source present)
        · refine .continuation _ _ ?_
          rw [place, List.length_append, List.length_cons]
          show rest.length < _
          omega

theorem finishOperations_works (flags : Flags) {sources : List PackSource}
    (heard : ∀ source ∈ sources, C source.callback) {m : Machine packWords}
    (le : tallies ≤ m.heap.tallies.size) :
    PackLine frame issuer chain tallies C (Machine.finishOperations (packRules pack) frame
      { chain with modifiers := [] } flags sources m) := by
  unfold Machine.finishOperations
  split
  · refine .works fun operation member => ?_
    split at member
    · rw [List.mem_singleton.mp member]
      exact .fallthrough
    · cases member
  · next present =>
    have present : sources ≠ [] := fun nothing => present (List.isEmpty_iff.mpr nothing)
    dsimp only
    cases ends : chain.executable with
    | leaf leaf =>
      have taken : ∀ source ∈ (if flags.isReturn then sources.take 1 else sources),
          C source.callback := by
        intro source member
        split at member
        · exact heard source (List.mem_of_mem_take member)
        · exact heard source member
      exact .works (Machine.forall_leavesOperations
        (fun source member => .execute _ (taken source member)) (.drip _ taken))
    | action action =>
      dsimp only
      cases returned : action.returned? with
      | none => exact .works (actAllOperations_works returned _ flags heard le)
      | some outcome =>
        rw [actAllOperations_of_returned returned]
        have quiet : ∀ operation ∈ ([] : List (Operation packWords)),
            operation.Mundane ∧ LineWork frame issuer chain tallies C operation :=
          fun _ member => absurd member List.not_mem_nil
        exact .returns quiet ends returned present heard

def KeepsStores (C : Callback packWords → Prop) : Prop :=
  ∀ callback stored holder objective, C callback →
    C (callback.chain [.host (.score stored holder objective)])

theorem KeepsStores.redirectsKeep (keeps : KeepsStores C) :
    (packRules pack).RedirectsKeep fun source => C source.callback := by
  intro redirect source world produced heard ok other member
  cases Except.ok.inj ok
  cases redirect with
  | entities targets =>
    obtain ⟨_, _, rfl⟩ := List.mem_map.mp member
    exact heard
  | position position =>
    rw [List.mem_singleton.mp member]
    exact heard
  | dimension dimension =>
    rw [List.mem_singleton.mp member]
    exact heard
  | scoreWithin holder objective low high =>
    simp only [Redirect.produce] at member
    split at member
    · split at member
      · rw [List.mem_singleton.mp member]
        exact heard
      · cases member
    · cases member
  | store stored holder objective =>
    rw [List.mem_singleton.mp member]
    exact keeps _ _ _ _ heard

theorem PackLine.after_quiet {first operations : List (Operation packWords)}
    (quiet : ∀ operation ∈ first,
      operation.Mundane ∧ LineWork frame issuer chain tallies C operation)
    (h : PackLine frame issuer chain tallies C operations) :
    PackLine frame issuer chain tallies C (first ++ operations) := by
  cases h with
  | works work =>
    refine .works fun operation member => ?_
    cases List.mem_append.mp member with
    | inl member => exact (quiet operation member).2
    | inr member => exact work operation member
  | returns before ends returned present heard =>
    rw [← List.append_assoc]
    refine .returns (fun operation member => ?_) ends returned present heard
    cases List.mem_append.mp member with
    | inl member => exact quiet operation member
    | inr member => exact before operation member

theorem line_operations (keeps : KeepsStores C) (issued : C issuer.callback)
    (sources : Sources packWords) (flags : Flags) (topLevel : Bool) (m : Machine packWords)
    (heard : ∀ source ∈ (m.takeSources sources).1, C source.callback) :
    PackLine frame issuer chain m.heap.tallies.size C
      (m.operations (packRules pack) frame (.line issuer sources chain flags topLevel)) := by
  have present : ∀ source ∈ ((if topLevel then
      m.trace (packRules pack) (.command frame.depth chain.input) else m).takeSources sources).1,
      C source.callback := by
    have heap : (m.trace (packRules pack) (.command frame.depth chain.input)).heap = m.heap := by
      unfold Machine.trace
      cases m.tracer <;> rfl
    cases sources with
    | ready sources => exact heard
    | collected cell =>
      cases topLevel with
      | false => exact heard
      | true =>
        simp only [Machine.takeSources, if_true, heap]
        exact heard
  simp only [Machine.operations]
  obtain ⟨reports, ending, same, only, ends⟩ := Machine.walkOperations_shape frame
    (KeepsStores.redirectsKeep keeps) issuer issued (List.nil_append chain.modifiers).symm flags _
    present _
  rw [same, ← List.append_assoc]
  refine PackLine.after_quiet ?_ ?_
  · intro operation member
    simp only [List.mem_append] at member
    obtain (member | member) | member := member
    · cases topLevel with
      | false => cases member
      | true =>
        rw [List.mem_singleton.mp member]
        exact ⟨trivial, .trace _⟩
    · cases sources with
      | ready sources => cases member
      | collected cell =>
        rw [List.mem_singleton.mp member]
        exact ⟨trivial, .emptyCell _⟩
    · obtain ⟨source, error, forked, _, rfl⟩ := only operation member
      exact ⟨trivial, .report _ _ _⟩
  · cases ends with
    | stopped => exact .works fun _ member => absurd member List.not_mem_nil
    | gated flags place gates fit => exact .works (gateOperations_works _ place flags fit _)
    | finished flags fit =>
      refine finishOperations_works flags fit ?_
      rw [← Operation.applyAll_append]
      exact (Operation.grows_applyAll _ _ m).tallies

end

end PackEngine
