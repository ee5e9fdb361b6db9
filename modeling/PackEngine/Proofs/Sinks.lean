import PackEngine.Proofs.Ledger

/-! Where results go. A law for sinks says which callbacks the frames of a call may have; it is
kept by all that a pack's tasks queue, and what they do besides returning stays out of the
ledger. -/
namespace PackEngine

variable {pack : Pack} {start : Nat} {watched : Option TallyId}
  {F : Frame packWords → Prop} {Q : Boundary → Callback packWords → Prop}

/-- The boundary of a callee that does not share its caller's. -/
def Frame.below (frame : Frame packWords) : Boundary := frame.boundary.nested (frame.depth + 1)

/-- Frames that satisfy `F` and have sinks as `Q` allows lead to such frames only. -/
structure SinkLaw (watched : Option TallyId) (F : Frame packWords → Prop)
    (Q : Boundary → Callback packWords → Prop) : Prop where
  sane : ∀ {boundary callback}, Q boundary callback → ∀ receiver ∈ callback, receiver.Sane
  inner : ∀ {frame}, F frame → ∀ (task : Task packWords) slot, F (task.workplace frame slot)
  returnCall : ∀ {frame} {source : PackSource} (function : FunctionId), F frame →
    Q frame.boundary frame.sink → Callback.Ordinary source.callback →
    Q frame.boundary (announced isSilent source function (source.callback.chain frame.sink))
  call : ∀ {frame} {source : PackSource} (function : FunctionId), F frame →
    Callback.Ordinary source.callback →
    Q frame.below (announced isSilent source function (source.callback.chain frame.recorder))
  talliedCall : ∀ {frame} {tally : TallyId} (source : PackSource) (function : FunctionId),
    F frame → watched ≠ some tally →
    Q frame.below (announced isSilent source function [.tally tally])
  tracedCall : ∀ {frame}, F frame → Q frame.below Callback.empty
  condition : ∀ {frame} {callback : Callback packWords} (cell : CellId) (polarity : Polarity)
    (persona : Persona), F frame → callback.Ordinary →
    Q frame.below [.collect cell polarity persona callback]

inductive Told (watched : Option TallyId) (Q : Boundary → Callback packWords → Prop)
    (frame : Frame packWords) : Task packWords → Prop where
  | line {issuer : PackSource} {sources : Sources packWords} (chain : Chain packWords)
      (flags : Flags) (topLevel : Bool) (issued : Callback.Ordinary issuer.callback)
      (heard : ∀ present, sources = .ready present →
        ∀ source ∈ present, Callback.Ordinary source.callback) :
      Told watched Q frame (.line issuer sources chain flags topLevel)
  | execute (line : LeafLine packWords) {source : PackSource}
      (heard : Callback.Ordinary source.callback) : Told watched Q frame (.execute line source)
  | drip (line : LeafLine packWords) {sources : List PackSource}
      (heard : ∀ source ∈ sources, Callback.Ordinary source.callback) :
      Told watched Q frame (.drip line sources)
  | call (function : BoundFunction packWords) {callback : Callback packWords}
      {returnCall : Bool} {source : PackSource}
      (told : Q (if returnCall then frame.boundary else frame.below) callback)
      (heard : Callback.Ordinary source.callback) :
      Told watched Q frame (.call function callback returnCall source)
  | endFunction : Told watched Q frame .endFunction
  | condition (bound : List (BoundFunction packWords)) {callee : PackSource}
      {output : Callback packWords} (told : Q frame.below output)
      (heard : Callback.Ordinary callee.callback) :
      Told watched Q frame (.isolated (conditionProducer bound callee) output)
  | fallthrough : Told watched Q frame .fallthrough
  | total (tally : TallyId) {sink : Callback packWords}
      (quiet : ∀ receiver ∈ sink, receiver.Quiet watched) :
      Told watched Q frame (.deferred (Control.deliverTally tally sink))
  | heading (index : Nat) (item : PrintItem) :
      Told watched Q frame (.deferred (tell (World.add (.traced (.opened index) item))))
  | closing (index : Nat) (source : PackSource) (text : String) :
      Told watched Q frame (.deferred (traceClosing index source text))

structure Addressed (watched : Option TallyId) (F : Frame packWords → Prop)
    (Q : Boundary → Callback packWords → Prop) (entry : Entry packWords) : Prop where
  fit : F entry.frame
  sink : Q entry.frame.boundary entry.frame.sink
  task : Told watched Q entry.frame entry.task

structure Lawful (pack : Pack) (start : Nat) (watched : Option TallyId)
    (F : Frame packWords → Prop) (Q : Boundary → Callback packWords → Prop)
    (operations : List (Operation packWords)) : Prop where
  accounted : ∀ operation ∈ operations, operation.Accounted pack start watched
  addressed : ∀ entry, .queue entry ∈ operations → Addressed watched F Q entry

def Operation.queued? : Operation packWords → Option (Entry packWords)
  | .queue entry => some entry
  | _ => none

theorem Lawful.of_silent {operations : List (Operation packWords)}
    (h : ∀ operation ∈ operations, operation.returned? = none ∧ operation.queued? = none ∧
      operation.Silent pack start watched) : Lawful pack start watched F Q operations := by
  refine ⟨fun operation member => ?_, fun entry member => ?_⟩
  · obtain ⟨other, _, silent⟩ := h operation member
    exact .silent other silent
  · cases (h _ member).2.1

theorem Lawful.of_return {frame : Frame packWords} {outcome : Outcome}
    (h : Operation.Accounted pack start watched (.returnFrom frame outcome)) :
    Lawful pack start watched F Q [.returnFrom frame outcome] := by
  refine ⟨fun operation member => ?_, fun entry member => ?_⟩
  · rw [List.mem_singleton.mp member]
    exact h
  · cases List.mem_singleton.mp member

theorem Callback.ordinary_empty : Callback.Ordinary Callback.empty :=
  fun _ member => absurd member List.not_mem_nil

theorem keepsStores_ordinary : KeepsStores Callback.Ordinary := by
  intro callback stored holder objective ordinary receiver member
  cases List.mem_append.mp member with
  | inl member => exact ordinary receiver member
  | inr member => exact ⟨.score stored holder objective, List.mem_singleton.mp member, trivial⟩

theorem quiet_recorder {callback : Callback packWords} (ordinary : callback.Ordinary)
    (frame : Frame packWords) :
    ∀ receiver ∈ callback.chain frame.recorder, receiver.Quiet watched := by
  intro receiver member
  cases List.mem_append.mp member with
  | inl member => exact ordinary.quiet watched receiver member
  | inr member =>
    rw [List.mem_singleton.mp member]
    trivial

theorem LineWork.accounted {frame : Frame packWords} {issuer : PackSource}
    {chain : Chain packWords} {tallies : Nat} {operation : Operation packWords}
    (h : LineWork frame issuer chain tallies Callback.Ordinary operation) :
    operation.Accounted pack start watched := by
  cases h with
  | trace event => exact .silent rfl (.trace event)
  | emptyCell cell => exact .silent rfl (.emptyCell cell)
  | report source error forked => exact .silent rfl (.report source error forked)
  | tell feedback => exact .silent rfl (.update feedback.extends)
  | newCell => exact .silent rfl .newCell
  | newTally => exact .silent rfl .newTally
  | attach tracer => exact .silent rfl (.attach tracer)
  | refuse heard => exact .silent rfl (.of_deliver (heard.quiet watched) _)
  | record => exact .silent rfl (.record _ _)
  | _ => exact .silent rfl (.queue _)

theorem lawful_call (pack : Pack) {frame : Frame packWords} (function : BoundFunction packWords)
    {callback : Callback packWords} {returnCall : Bool} {source : PackSource}
    {m : Machine packWords}
    (fit : F ((Task.call function callback returnCall source).workplace frame m.heap.slots.size))
    (told : Q (if returnCall then frame.boundary else frame.below) callback)
    (heard : Callback.Ordinary source.callback) :
    Lawful pack start watched F Q
      (m.operations (packRules pack) frame (.call function callback returnCall source)) := by
  have sink : Q (frame.child callback (if returnCall then some frame.boundary else none)
      m.heap.slots.size).boundary callback := by
    cases returnCall <;> exact told
  have form (operation : Operation packWords) (member : operation ∈ m.operations (packRules pack)
      frame (.call function callback returnCall source)) :
      operation.Accounted pack start watched ∧
        ∀ entry, operation = .queue entry → Addressed watched F Q entry := by
    simp only [Machine.operations, List.mem_append, List.mem_cons, List.mem_map,
      List.not_mem_nil, or_false] at member
    obtain ((rfl | rfl | rfl) | ⟨line, _, rfl⟩) | rfl := member
    · exact ⟨.silent rfl .charge, fun _ same => by cases same⟩
    · exact ⟨.silent rfl (.trace _), fun _ same => by cases same⟩
    · exact ⟨.silent rfl .newSlot, fun _ same => by cases same⟩
    · refine ⟨.silent rfl (.queue _), fun entry same => ?_⟩
      cases same
      refine ⟨fit, sink, .line _ _ _ heard fun present same source member => ?_⟩
      cases same
      rw [List.mem_singleton.mp member]
      exact heard
    · refine ⟨.silent rfl (.queue _), fun entry same => ?_⟩
      cases same
      exact ⟨fit, sink, .endFunction⟩
  exact ⟨fun operation member => (form operation member).1,
    fun entry member => (form _ member).2 entry rfl⟩

theorem lawful_drip (pack : Pack) {frame : Frame packWords} (fit : F frame)
    (sink : Q frame.boundary frame.sink) (line : LeafLine packWords) {sources : List PackSource}
    (heard : ∀ source ∈ sources, Callback.Ordinary source.callback) :
    Lawful pack start watched F Q (Machine.dripOperations frame line sources) := by
  cases sources with
  | nil => exact .of_silent fun _ member => absurd member List.not_mem_nil
  | cons source rest =>
    refine ⟨fun operation member => ?_, fun entry member => ?_⟩
    · obtain rfl | rfl := mem_dripOperations member <;> exact .silent rfl (.queue _)
    · obtain same | same := mem_dripOperations member
      · cases same
        exact ⟨fit, sink, .execute line (heard source List.mem_cons_self)⟩
      · cases same
        exact ⟨fit, sink, .drip line fun other member =>
          heard other (List.mem_cons_of_mem source member)⟩

section

variable (law : SinkLaw watched F Q) {frame : Frame packWords}

include law

theorem LineWork.told {issuer : PackSource} {chain : Chain packWords} {tallies : Nat}
    (fit : F frame) (sink : Q frame.boundary frame.sink)
    (issued : Callback.Ordinary issuer.callback)
    (older : ∀ id, watched = some id → id < tallies) {entry : Entry packWords}
    (h : LineWork frame issuer chain tallies Callback.Ordinary (.queue entry)) :
    Addressed watched F Q entry := by
  have fresh {tally : TallyId} (le : tallies ≤ tally) : watched ≠ some tally :=
    fun same => absurd (older tally same) (Nat.not_lt_of_le le)
  cases h with
  | execute line heard => exact ⟨fit, sink, .execute line heard⟩
  | drip line heard => exact ⟨fit, sink, .drip line heard⟩
  | fallthrough => exact ⟨fit, sink, .fallthrough⟩
  | condition polarity bound cell heard =>
    exact ⟨fit, sink, .condition bound (law.condition cell polarity _ fit heard)
      Callback.ordinary_empty⟩
  | continuation cell flags shorter =>
    exact ⟨fit, sink, .line _ flags false issued fun _ same => by cases same⟩
  | returnCall function callee heard =>
    exact ⟨fit, sink, .call function (law.returnCall _ fit sink heard) Callback.ordinary_empty⟩
  | call function callee heard =>
    exact ⟨fit, sink, .call function (law.call _ fit heard) Callback.ordinary_empty⟩
  | talliedCall function source callee le =>
    exact ⟨fit, sink, .call function (law.talliedCall source _ fit (fresh le))
      Callback.ordinary_empty⟩
  | total le heard => exact ⟨fit, sink, .total _ (quiet_recorder heard frame)⟩
  | heading index item => exact ⟨fit, sink, .heading index item⟩
  | tracedCall function heard => exact ⟨fit, sink, .call function (law.tracedCall fit) heard⟩
  | closing index source text => exact ⟨fit, sink, .closing index source text⟩

theorem lawful_line (pack : Pack) (fit : F frame) (sink : Q frame.boundary frame.sink)
    {issuer : PackSource} {sources : Sources packWords} (chain : Chain packWords) (flags : Flags)
    (topLevel : Bool) (issued : Callback.Ordinary issuer.callback)
    (heard : ∀ present, sources = .ready present →
      ∀ source ∈ present, Callback.Ordinary source.callback)
    {m : Machine packWords} (calm : Calm start watched m.toScene) :
    Lawful pack start watched F Q
      (m.operations (packRules pack) frame (.line issuer sources chain flags topLevel)) := by
  have present : ∀ source ∈ (m.takeSources sources).1, Callback.Ordinary source.callback := by
    cases sources with
    | ready present => exact heard present rfl
    | collected cell => exact calm.cells cell
  have line : PackLine frame issuer chain m.heap.tallies.size Callback.Ordinary
      (m.operations (packRules pack) frame (.line issuer sources chain flags topLevel)) :=
    line_operations keepsStores_ordinary issued sources flags topLevel m present
  generalize m.operations (packRules pack) frame (.line issuer sources chain flags topLevel) =
    operations at line
  cases line with
  | works work =>
    exact ⟨fun operation member => (work operation member).accounted,
      fun entry member => (work _ member).told law fit sink issued calm.opened⟩
  | returns quiet ends returned nonempty heard =>
    refine ⟨fun operation member => ?_, fun entry member => ?_⟩
    · cases List.mem_append.mp member with
      | inl member => exact (quiet operation member).2.accounted
      | inr member =>
        obtain ⟨source, present, rfl⟩ | rfl := mem_returnsOf member
        · exact .silent rfl (.of_deliver ((heard source present).quiet watched) _)
        · exact .returns _ (law.sane sink)
    · cases List.mem_append.mp member with
      | inl member => exact (quiet _ member).1.elim
      | inr member =>
        obtain ⟨source, _, same⟩ | same := mem_returnsOf member <;> cases same

theorem lawful_leaf (pack : Pack) (sink : Q frame.boundary frame.sink) (line : LeafLine packWords)
    {source : PackSource} (heard : Callback.Ordinary source.callback) (m : Machine packWords) :
    Lawful pack start watched F Q
      (Machine.leafOperations (packRules pack) frame line source m) := by
  refine ⟨fun operation member => ?_, fun entry member =>
    absurd member (leafOperations_idle _ line source m entry)⟩
  obtain ⟨outcome, tracing, same, traces⟩ :=
    Machine.leafOperations_eq (packRules pack) frame line source m
  rw [same] at member
  simp only [List.mem_append, List.mem_cons, List.not_mem_nil, or_false] at member
  obtain (((rfl | rfl) | member) | (rfl | rfl)) | member := member
  · exact .silent rfl .charge
  · exact .silent rfl (.update fun w => LeafAction.extends_perform source w line.leaf)
  · obtain ⟨event, rfl⟩ | ⟨error, forked, rfl⟩ := traces _ member
    · exact .silent rfl (.trace event)
    · exact .silent rfl (.report source error forked)
  · exact .silent rfl (.of_deliver (heard.quiet watched) outcome)
  · exact .silent rfl (.record frame outcome)
  · split at member
    · rw [List.mem_singleton.mp member]
      exact .returns outcome (law.sane sink)
    · cases member

theorem lawful_condition (pack : Pack) (fit : F frame) (bound : List (BoundFunction packWords))
    {callee : PackSource} {output : Callback packWords} (told : Q frame.below output)
    (heard : Callback.Ordinary callee.callback) (m : Machine packWords) :
    Lawful pack start watched F Q
      (m.operations (packRules pack) frame
        (.isolated (conditionProducer bound callee) output)) := by
  have inner := law.inner fit (.isolated (conditionProducer bound callee) output)
    m.heap.slots.size
  refine ⟨fun operation member => ?_, fun entry member => ?_⟩
  · simp only [Machine.operations, conditionProducer_operations, List.mem_append,
      List.mem_cons, List.mem_map, List.not_mem_nil, or_false] at member
    obtain rfl | ⟨function, _, rfl⟩ | rfl := member
    · exact .silent rfl .newSlot
    · exact .silent rfl (.queue _)
    · exact .silent rfl (.queue _)
  · simp only [Machine.operations, conditionProducer_operations, List.mem_append,
      List.mem_cons, List.mem_map, List.not_mem_nil, or_false] at member
    obtain same | ⟨function, _, same⟩ | same := member
    · cases same
    · cases same
      exact ⟨inner, told, .call function told heard⟩
    · cases same
      exact ⟨inner, told, .fallthrough⟩

theorem Addressed.lawful {entry : Entry packWords} (h : Addressed watched F Q entry) (pack : Pack)
    {m : Machine packWords} (calm : Calm start watched m.toScene) :
    Lawful pack start watched F Q
      (m.operations (packRules pack) entry.frame entry.task) := by
  obtain ⟨frame, task⟩ := entry
  obtain ⟨fit, sink, told⟩ := h
  have returns (outcome : Outcome) : Operation.Accounted pack start watched
      (.returnFrom frame outcome) := .returns outcome (law.sane sink)
  cases told with
  | line chain flags topLevel issued heard =>
    exact lawful_line law pack fit sink chain flags topLevel issued heard calm
  | execute line heard => exact lawful_leaf law pack sink line heard m
  | drip line heard => exact lawful_drip pack fit sink line heard
  | call function told heard => exact lawful_call pack function (law.inner fit _ _) told heard
  | endFunction =>
    simp only [Machine.operations]
    cases m.heap.recorded frame.slot with
    | none => exact .of_silent fun _ member => absurd member List.not_mem_nil
    | some outcome => exact .of_return (returns outcome)
  | condition bound told heard => exact lawful_condition law pack fit bound told heard m
  | fallthrough => exact .of_return (returns Outcome.failure)
  | total tally quiet =>
    refine .of_silent fun operation member => ?_
    rw [List.mem_singleton.mp member]
    exact ⟨rfl, rfl, .deliverTally tally quiet⟩
  | heading index item =>
    refine .of_silent fun operation member => ?_
    rw [List.mem_singleton.mp member]
    exact ⟨rfl, rfl, .update fun w => w.extends_traced _ _⟩
  | closing index source text =>
    have form : m.operations (packRules pack) frame (.deferred (traceClosing index source text)) =
        [.detach, .update (World.add (.traced (.opened index) .flush)),
          .update (source.persona.sendSuccess text)] := rfl
    dsimp only
    rw [form]
    refine .of_silent fun operation member => ?_
    simp only [List.mem_cons, List.not_mem_nil, or_false] at member
    obtain rfl | rfl | rfl := member
    · exact ⟨rfl, rfl, .detach⟩
    · exact ⟨rfl, rfl, .update fun w => w.extends_traced _ _⟩
    · exact ⟨rfl, rfl, .update fun w => source.persona.extends_sendSuccess _ w⟩

end

end PackEngine
