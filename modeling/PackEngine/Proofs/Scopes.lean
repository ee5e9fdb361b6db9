import PackEngine.Proofs.Arrivals

/-! Scopes. All that a call leads to runs in frames that are opened after it. Their results go to
the call's own callback, with newer receivers before it, or to newer receivers only; and each turn
in the scope queues work there or returns. -/
namespace PackEngine

open Machine

/-- Only the host hears the callback. -/
def Callback.Hosted (callback : Callback packWords) : Prop :=
  ∀ receiver ∈ callback, ∃ listener : Listener, receiver = .host listener

def Callback.From (given callback : Callback packWords) : Prop :=
  ∀ receiver ∈ callback, ∃ listener : Listener, receiver = .host listener ∧
    (receiver ∈ given ∨ ∃ stored holder objective, listener = .score stored holder objective)

theorem Callback.Hosted.from {callback : Callback packWords} (h : callback.Hosted) :
    Callback.From callback callback := by
  intro receiver member
  obtain ⟨listener, same⟩ := h receiver member
  exact ⟨listener, same, .inl member⟩

theorem Callback.hosted_empty : Callback.Hosted Callback.empty :=
  fun _ member => absurd member List.not_mem_nil

theorem Callback.from_empty (given : Callback packWords) : Callback.From given Callback.empty :=
  fun _ member => absurd member List.not_mem_nil

theorem keepsStores_from (given : Callback packWords) : KeepsStores (Callback.From given) := by
  intro callback stored holder objective comes receiver member
  cases List.mem_append.mp member with
  | inl member => exact comes receiver member
  | inr member =>
    exact ⟨_, List.mem_singleton.mp member, .inr ⟨stored, holder, objective, rfl⟩⟩

/-- A receiver that was opened after `mark`, or through which the host hears `given` or a store. -/
def Receiver.Since (mark : Heap packWords) (given : Callback packWords) :
    Receiver packWords → Prop
  | .slot id => mark.slots.size ≤ id
  | .tally id => mark.tallies.size ≤ id
  | .collect cell _ _ callback => mark.cells.size ≤ cell ∧ Callback.From given callback
  | .announce _ _ => True
  | .host listener => .host listener ∈ given ∨
      ∃ stored holder objective, listener = .score stored holder objective

/-- A call from the frame `outer`, or an isolated condition in it, whose results `base` hears. Its
source has the callback `given`, and it begins with the heap `mark`. -/
structure Scope where
  outer : Frame packWords
  returning : Bool
  base : Callback packWords
  given : Callback packWords
  mark : Heap packWords

namespace Scope

variable {s : Scope}

def boundary (s : Scope) : Boundary := if s.returning then s.outer.boundary else s.outer.below

def Own (s : Scope) (callback : Callback packWords) : Prop :=
  ∀ receiver ∈ callback, receiver.Since s.mark s.given

theorem Own.of_from {callback : Callback packWords} (h : Callback.From s.given callback) :
    s.Own callback := by
  intro receiver member
  obtain ⟨listener, rfl, heard⟩ := h receiver member
  exact heard

theorem Own.append {first second : Callback packWords} (before : s.Own first)
    (after : s.Own second) : s.Own (first ++ second) := by
  intro receiver member
  cases List.mem_append.mp member with
  | inl member => exact before receiver member
  | inr member => exact after receiver member

theorem Own.singleton {receiver : Receiver packWords} (h : receiver.Since s.mark s.given) :
    s.Own [receiver] := by
  intro other member
  rw [List.mem_singleton.mp member]
  exact h

theorem announced_own (s : Scope) (source : PackSource) (function : FunctionId)
    (callback : Callback packWords) : ∃ front : Callback packWords, s.Own front ∧
      announced isSilent source function callback = front ++ callback := by
  unfold announced
  split
  · exact ⟨[], fun _ member => absurd member List.not_mem_nil, rfl⟩
  · exact ⟨[.announce source.persona function], .singleton trivial, rfl⟩

theorem Own.announced {callback : Callback packWords} (own : s.Own callback)
    (source : PackSource) (function : FunctionId) :
    s.Own (announced isSilent source function callback) := by
  obtain ⟨front, before, same⟩ := s.announced_own source function callback
  rw [same]
  exact before.append own

inductive Sends (s : Scope) (boundary : Boundary) (callback : Callback packWords) : Prop where
  | base {front : Callback packWords} (same : boundary = s.boundary) (own : s.Own front)
      (ends : callback = front ++ s.base) : Sends s boundary callback
  | own (deeper : s.outer.depth + 1 < boundary.depth) (own : s.Own callback) :
      Sends s boundary callback

theorem Sends.prepend {boundary : Boundary} {callback front : Callback packWords}
    (h : s.Sends boundary callback) (own : s.Own front) :
    s.Sends boundary (front ++ callback) := by
  cases h with
  | base same before ends =>
    refine .base same (own.append before) ?_
    rw [ends, List.append_assoc]
  | own deeper before => exact .own deeper (own.append before)

structure Opened (s : Scope) (frame : Frame packWords) : Prop where
  seed : frame.boundary.seed = s.outer.boundary.seed
  deeper : s.outer.depth < frame.depth
  young : s.mark.slots.size ≤ frame.slot
  sink : s.Sends frame.boundary frame.sink

inductive Fits (s : Scope) (frame : Frame packWords) : Task packWords → Prop where
  | line {issuer : PackSource} {sources : Sources packWords} (chain : Chain packWords)
      (flags : Flags) (topLevel : Bool) (issued : Callback.From s.given issuer.callback)
      (ready : ∀ present, sources = .ready present →
        ∀ source ∈ present, Callback.From s.given source.callback)
      (collected : ∀ cell, sources = .collected cell → s.mark.cells.size ≤ cell) :
      Fits s frame (.line issuer sources chain flags topLevel)
  | execute (line : LeafLine packWords) {source : PackSource}
      (heard : Callback.From s.given source.callback) : Fits s frame (.execute line source)
  | drip (line : LeafLine packWords) {sources : List PackSource}
      (heard : ∀ source ∈ sources, Callback.From s.given source.callback) :
      Fits s frame (.drip line sources)
  | call (function : BoundFunction packWords) {callback : Callback packWords}
      {returnCall : Bool} {source : PackSource}
      (told : s.Sends (if returnCall then frame.boundary else frame.below) callback)
      (heard : Callback.From s.given source.callback) :
      Fits s frame (.call function callback returnCall source)
  | endFunction : Fits s frame .endFunction
  | condition (bound : List (BoundFunction packWords)) {callee : PackSource}
      {output : Callback packWords} (told : s.Own output)
      (heard : Callback.From s.given callee.callback) :
      Fits s frame (.isolated (conditionProducer bound callee) output)
  | fallthrough : Fits s frame .fallthrough
  | total (tally : TallyId) {sink : Callback packWords} (told : s.Own sink) :
      Fits s frame (.deferred (Control.deliverTally tally sink))
  | heading (index : Nat) (item : PrintItem) :
      Fits s frame (.deferred (tell (World.add (.traced (.opened index) item))))
  | closing (index : Nat) (source : PackSource) (text : String) :
      Fits s frame (.deferred (traceClosing index source text))

structure Holds (s : Scope) (entry : Entry packWords) : Prop where
  opened : s.Opened entry.frame
  fits : s.Fits entry.frame entry.task

def Keeps (s : Scope) (heap : Heap packWords) : Prop :=
  ∀ cell, s.mark.cells.size ≤ cell → ∀ source ∈ heap.collected cell,
    Callback.From s.given source.callback

def Works (s : Scope) : Operation packWords → Prop
  | .queue entry => s.Holds entry
  | .returnFrom _ _ => False
  | .record frame _ => s.mark.slots.size ≤ frame.slot
  | .deliver callback _ => s.Own callback
  | .deliverTally _ callback => s.Own callback
  | .collect _ _ => False
  | .emptyCell cell => s.mark.cells.size ≤ cell
  | _ => True

def Quiet (s : Scope) (operation : Operation packWords) : Prop :=
  operation.Mundane ∧ s.Works operation

inductive Turn (s : Scope) (frame : Frame packWords) : List (Operation packWords) → Prop where
  | works {operations : List (Operation packWords)}
      (work : ∀ operation ∈ operations, s.Works operation) : Turn s frame operations
  | returns {pieces : List (List (Operation packWords) × Outcome)} (nonempty : pieces ≠ [])
      (quiet : ∀ piece ∈ pieces, ∀ operation ∈ piece.1, s.Quiet operation) :
      Turn s frame (pieces.flatMap fun piece => piece.1 ++ [.returnFrom frame piece.2])

variable {frame : Frame packWords}

theorem Turn.after_quiet {first operations : List (Operation packWords)}
    (quiet : ∀ operation ∈ first, s.Quiet operation) (h : s.Turn frame operations) :
    s.Turn frame (first ++ operations) := by
  cases h with
  | works work =>
    refine .works fun operation member => ?_
    cases List.mem_append.mp member with
    | inl member => exact (quiet operation member).2
    | inr member => exact work operation member
  | @returns pieces nonempty each =>
    cases pieces with
    | nil => exact absurd rfl nonempty
    | cons piece rest =>
      have same : first ++ (piece :: rest).flatMap
          (fun piece => piece.1 ++ [Operation.returnFrom frame piece.2]) =
          ((first ++ piece.1, piece.2) :: rest).flatMap
            fun piece => piece.1 ++ [Operation.returnFrom frame piece.2] := by
        simp [List.flatMap_cons]
      rw [same]
      refine .returns (List.cons_ne_nil _ _) fun other member => ?_
      cases List.mem_cons.mp member with
      | inr member => exact each other (List.mem_cons_of_mem _ member)
      | inl same =>
        rw [same]
        intro operation member
        cases List.mem_append.mp member with
        | inl member => exact quiet operation member
        | inr member => exact each piece List.mem_cons_self operation member

theorem Turn.of_return {first : List (Operation packWords)}
    (quiet : ∀ operation ∈ first, s.Quiet operation) (outcome : Outcome) :
    s.Turn frame (first ++ [.returnFrom frame outcome]) := by
  have one : s.Turn frame
      ([(first, outcome)].flatMap fun piece => piece.1 ++ [.returnFrom frame piece.2]) := by
    refine .returns (List.cons_ne_nil _ _) fun piece member => ?_
    rw [List.mem_singleton.mp member]
    exact quiet
  simpa using one

theorem Turn.of_fallthrough (outcome : Outcome) : s.Turn frame [.returnFrom frame outcome] := by
  have quiet : ∀ operation ∈ ([] : List (Operation packWords)), s.Quiet operation :=
    fun _ member => absurd member List.not_mem_nil
  exact .of_return quiet outcome

theorem Turn.of_returnsOf {outcome : Outcome} {sources : List PackSource} (present : sources ≠ [])
    (heard : ∀ source ∈ sources, Callback.From s.given source.callback) :
    s.Turn frame (returnsOf frame outcome sources) := by
  have same : returnsOf frame outcome sources =
      (sources.map fun source => ([Operation.deliver source.callback outcome], outcome)).flatMap
        fun piece => piece.1 ++ [.returnFrom frame piece.2] := by
    simp [returnsOf, List.flatMap_map]
  rw [same]
  refine .returns (by simpa using present) fun piece member => ?_
  obtain ⟨source, among, rfl⟩ := List.mem_map.mp member
  intro operation member
  rw [List.mem_singleton.mp member]
  exact ⟨trivial, Own.of_from (heard source among)⟩

end Scope

/-! The actions of lines resume no line and isolate nothing. -/

/-- Touches no cell, and queues no task that does. -/
def Operation.Plain : Operation packWords → Prop
  | .queue entry => entry.task.rank.1 = 0
  | .collect _ _ => False
  | .emptyCell _ => False
  | _ => True

theorem CallAction.Move.plain {action : CallAction} {frame : Frame packWords}
    {source : PackSource} {tally : TallyId} {operation : Operation packWords}
    (move : action.Move frame source tally operation) : operation.Plain := by
  cases move <;> trivial

theorem actAllOperations_plain {pack : Pack} {frame : Frame packWords} (action : CallAction)
    (acted : Chain packWords) (flags : Flags) (sources : List PackSource)
    (m : Machine packWords) :
    ∀ operation ∈ actAllOperations (packRules pack) frame action acted flags sources m,
      operation.Plain :=
  forall_actAllOperations (fun _ _ _ operation member => (action.moves operation member).plain)
    fun _ _ _ _ _ => ⟨trivial, trivial, trivial⟩

namespace Scope

variable {s : Scope} {frame : Frame packWords} {pack : Pack}

theorem works_of_lineWork (opened : s.Opened frame) {issuer : PackSource}
    {chain : Chain packWords} {tallies : Nat} (wide : s.mark.tallies.size ≤ tallies)
    {operation : Operation packWords}
    (h : LineWork frame issuer chain tallies (Callback.From s.given) operation)
    (plain : operation.Plain) : s.Works operation := by
  have recorder : s.Own frame.recorder := .singleton opened.young
  have below : s.outer.depth + 1 < frame.below.depth := Nat.succ_lt_succ opened.deeper
  cases h with
  | emptyCell cell => exact plain.elim
  | refuse heard => exact .of_from heard
  | record => exact opened.young
  | execute line heard => exact ⟨opened, .execute line heard⟩
  | fallthrough => exact ⟨opened, .fallthrough⟩
  | drip line heard => cases plain
  | condition polarity bound cell heard => cases plain
  | continuation cell flags shorter => cases plain
  | @returnCall function source callee heard =>
    obtain ⟨front, own, same⟩ :=
      s.announced_own source function.id (source.callback.chain frame.sink)
    refine ⟨opened, .call function ?_ (Callback.from_empty _)⟩
    rw [same]
    exact (opened.sink.prepend (.of_from heard)).prepend own
  | @call function source callee heard =>
    refine ⟨opened, .call function (.own below ?_) (Callback.from_empty _)⟩
    exact ((Own.of_from heard).append recorder).announced source function.id
  | @talliedCall function source callee tally fresh =>
    have counted : s.Own [.tally tally] := .singleton (Nat.le_trans wide fresh)
    exact ⟨opened, .call function (.own below (counted.announced source function.id))
      (Callback.from_empty _)⟩
  | total fresh heard => exact ⟨opened, .total _ ((Own.of_from heard).append recorder)⟩
  | heading index item => exact ⟨opened, .heading index item⟩
  | tracedCall function heard =>
    refine ⟨opened, .call function (.own below ?_) heard⟩
    exact fun _ member => absurd member List.not_mem_nil
  | closing index source text => exact ⟨opened, .closing index source text⟩
  | _ => trivial

theorem leaves_work (opened : s.Opened frame) (line : LeafLine packWords)
    {sources : List PackSource}
    (heard : ∀ source ∈ sources, Callback.From s.given source.callback) :
    ∀ operation ∈ leavesOperations frame line sources, s.Works operation :=
  forall_leavesOperations (fun source member => ⟨opened, .execute line (heard source member)⟩)
    ⟨opened, .drip line heard⟩

theorem turn_finish (pack : Pack) (opened : s.Opened frame) (issuer : PackSource)
    (chain : Chain packWords) (flags : Flags) {sources : List PackSource}
    (heard : ∀ source ∈ sources, Callback.From s.given source.callback) {m : Machine packWords}
    (wide : s.mark.Expands m.heap) :
    s.Turn frame (finishOperations (packRules pack) frame { chain with modifiers := [] } flags
      sources m) := by
  unfold finishOperations
  split
  · refine .works fun operation member => ?_
    split at member
    · rw [List.mem_singleton.mp member]
      exact ⟨opened, .fallthrough⟩
    · cases member
  · next present =>
    have present : sources ≠ [] := fun nothing => present (List.isEmpty_iff.mpr nothing)
    dsimp only
    cases chain.executable with
    | leaf leaf =>
      refine .works (leaves_work opened _ fun source member => ?_)
      split at member
      · exact heard source (List.mem_of_mem_take member)
      · exact heard source member
    | action action =>
      dsimp only
      cases returned : action.returned? with
      | some outcome =>
        rw [actAllOperations_of_returned returned]
        exact .of_returnsOf present heard
      | none =>
        refine .works fun operation member => ?_
        have work : LineWork frame issuer chain s.mark.tallies.size (Callback.From s.given)
            operation := actAllOperations_works returned _ flags heard wide.tallies operation member
        exact works_of_lineWork opened (Nat.le_refl _) work
          (actAllOperations_plain action _ flags sources m operation member)

theorem turn_gate (pack : Pack) (opened : s.Opened frame) (condition : Condition)
    {issuer : PackSource} (issued : Callback.From s.given issuer.callback)
    (chain : Chain packWords) (modifier : Modifier packWords) (rest : List (Modifier packWords))
    (flags : Flags) {sources : List PackSource}
    (heard : ∀ source ∈ sources, Callback.From s.given source.callback) {m : Machine packWords}
    (wide : s.mark.Expands m.heap) :
    s.Turn frame (gateOperations (packRules pack) frame condition issuer sources
      { chain with modifiers := modifier :: rest } flags m) := by
  refine .works fun operation member => ?_
  by_cases bounds : ∃ functions bound, pack.library.resolve condition.target = .ok functions ∧
      FunctionRef.instantiateAll none functions = .ok bound
  · obtain ⟨functions, bound, resolves, binds⟩ := bounds
    rw [gateOperations_bound resolves binds] at member
    simp only [List.cons_append, List.mem_cons, List.mem_append, List.mem_map,
      List.not_mem_nil, or_false] at member
    obtain rfl | ⟨source, present, rfl⟩ | rfl := member
    · trivial
    · exact ⟨opened, .condition bound (.singleton ⟨wide.cells, heard source present⟩)
        (Callback.from_empty _)⟩
    · refine ⟨opened, .line _ flags false issued (fun _ same => by cases same) fun cell same => ?_⟩
      cases same
      exact wide.cells
  · obtain ⟨error, refused⟩ := gateOperations_refused frame issuer chain modifier rest
      (fun functions bound resolves binds => bounds ⟨functions, bound, resolves, binds⟩) sources
      flags m
    rw [refused] at member
    rw [List.mem_singleton.mp member]
    trivial

theorem turn_line (pack : Pack) (opened : s.Opened frame) {issuer : PackSource}
    {sources : Sources packWords} (chain : Chain packWords) (flags : Flags) (topLevel : Bool)
    (issued : Callback.From s.given issuer.callback)
    (ready : ∀ present, sources = .ready present →
      ∀ source ∈ present, Callback.From s.given source.callback)
    (collected : ∀ cell, sources = .collected cell → s.mark.cells.size ≤ cell)
    {m : Machine packWords} (wide : s.mark.Expands m.heap) (keeps : s.Keeps m.heap) :
    s.Turn frame
      (m.operations (packRules pack) frame (.line issuer sources chain flags topLevel)) := by
  have fit : ∀ source ∈ (m.takeSources sources).1, Callback.From s.given source.callback := by
    cases sources with
    | ready present => exact ready present rfl
    | collected cell => exact keeps cell (collected cell rfl)
  have closed : (packRules pack).RedirectsKeep fun source =>
      Callback.From s.given source.callback := (keepsStores_from s.given).redirectsKeep
  obtain ⟨opening, same, opens, arrives, fits⟩ :=
    lineOperations_reach frame closed issuer issued sources chain flags topLevel m fit
  have there : s.mark.Expands (m.reach (packRules pack) frame issuer sources chain flags
      topLevel).2.heap := by
    rw [← arrives]
    exact wide.trans (Operation.expands_applyAll _ opening m)
  rw [same]
  refine .after_quiet (fun operation member => ?_) ?_
  · obtain ⟨event, rfl⟩ | ⟨cell, from_cell, rfl⟩ | ⟨_, _, _, _, rfl⟩ := opens operation member
    · exact ⟨trivial, trivial⟩
    · exact ⟨trivial, collected cell from_cell⟩
    · exact ⟨trivial, trivial⟩
  · generalize m.reach (packRules pack) frame issuer sources chain flags topLevel = reached at *
    obtain ⟨arrival, later⟩ := reached
    cases arrival with
    | none => exact .works fun _ member => absurd member List.not_mem_nil
    | some arrival =>
      have heard := fits arrival rfl
      obtain ⟨ahead, marked, present⟩ := arrival
      cases ahead with
      | nil => exact turn_finish pack opened issuer chain marked heard there
      | cons modifier rest =>
        simp only [arrivalOperations]
        cases modifier.action with
        | gate condition =>
          exact turn_gate pack opened condition issued chain modifier rest _ heard there
        | _ => exact .works fun _ member => absurd member List.not_mem_nil

theorem turn_leaf (pack : Pack) (opened : s.Opened frame) (line : LeafLine packWords)
    {source : PackSource} (heard : Callback.From s.given source.callback)
    (m : Machine packWords) :
    s.Turn frame (leafOperations (packRules pack) frame line source m) := by
  obtain ⟨outcome, tracing, same, traces⟩ := leafOperations_eq (packRules pack) frame line source m
  have quiet : ∀ operation ∈ [.charge,
      .update fun setting => ((packRules pack).leaf line.leaf source setting).2] ++ tracing ++
        [.deliver source.callback outcome, .record frame outcome], s.Quiet operation := by
    intro operation member
    simp only [List.mem_append, List.mem_cons, List.not_mem_nil, or_false] at member
    obtain ((rfl | rfl) | member) | rfl | rfl := member
    · exact ⟨trivial, trivial⟩
    · exact ⟨trivial, trivial⟩
    · obtain ⟨event, rfl⟩ | ⟨error, forked, rfl⟩ := traces _ member <;> exact ⟨trivial, trivial⟩
    · exact ⟨trivial, Own.of_from heard⟩
    · exact ⟨trivial, opened.young⟩
  rw [same]
  split
  · exact .of_return quiet outcome
  · rw [List.append_nil]
    exact .works fun operation member => (quiet operation member).2

theorem opened_child (opened : s.Opened frame) {callback : Callback packWords}
    {returnCall : Bool}
    (told : s.Sends (if returnCall then frame.boundary else frame.below) callback) {slot : SlotId}
    (young : s.mark.slots.size ≤ slot) :
    s.Opened (frame.child callback (if returnCall then some frame.boundary else none) slot) := by
  refine ⟨?_, Nat.lt_succ_of_lt opened.deeper, young, ?_⟩
  · cases returnCall <;> exact opened.seed
  · cases returnCall <;> exact told

theorem works_body (function : BoundFunction packWords) {callee : Frame packWords}
    (opened : s.Opened callee) {source : PackSource}
    (heard : Callback.From s.given source.callback) :
    ∀ operation ∈ function.lines.map (fun line => Operation.queue
        (Entry.mk callee (Task.command line source))) ++ [.queue ⟨callee, .endFunction⟩],
      s.Works operation := by
  intro operation member
  simp only [List.mem_append, List.mem_map, List.mem_singleton] at member
  obtain ⟨line, _, rfl⟩ | rfl := member
  · refine ⟨opened, .line line Flags.none true heard (fun present same other among => ?_)
      fun _ same => by cases same⟩
    cases same
    rw [List.mem_singleton.mp among]
    exact heard
  · exact ⟨opened, .endFunction⟩

theorem Holds.turn {entry : Entry packWords} (h : s.Holds entry) (pack : Pack)
    {m : Machine packWords} (wide : s.mark.Expands m.heap) (keeps : s.Keeps m.heap) :
    s.Turn entry.frame (m.operations (packRules pack) entry.frame entry.task) := by
  obtain ⟨frame, task⟩ := entry
  obtain ⟨opened, fits⟩ := h
  have silent {operations : List (Operation packWords)}
      (h : ∀ operation ∈ operations, s.Works operation) : s.Turn frame operations := .works h
  cases fits with
  | line chain flags topLevel issued ready collected =>
    exact turn_line pack opened chain flags topLevel issued ready collected wide keeps
  | execute line heard => exact turn_leaf pack opened line heard m
  | @drip line sources heard =>
    cases sources with
    | nil => exact silent fun _ member => absurd member List.not_mem_nil
    | cons source rest =>
      refine silent fun operation member => ?_
      obtain rfl | rfl := mem_dripOperations member
      · exact ⟨opened, .execute line (heard source List.mem_cons_self)⟩
      · exact ⟨opened, .drip line fun other among =>
          heard other (List.mem_cons_of_mem source among)⟩
  | @call function callback returnCall source told heard =>
    have callee := opened_child opened told wide.slots
    refine silent fun operation member => ?_
    rw [operations, List.append_assoc] at member
    cases List.mem_append.mp member with
    | inr member => exact works_body function callee heard operation member
    | inl member =>
      simp only [List.mem_cons, List.not_mem_nil, or_false] at member
      obtain rfl | rfl | rfl := member <;> trivial
  | endFunction =>
    simp only [operations]
    cases m.heap.recorded frame.slot with
    | none => exact silent fun _ member => absurd member List.not_mem_nil
    | some outcome => exact .of_fallthrough outcome
  | @condition bound callee output told heard =>
    have below : s.outer.depth + 1 < frame.below.depth := Nat.succ_lt_succ opened.deeper
    have inner : s.Opened (frame.child output none m.heap.slots.size) :=
      ⟨opened.seed, Nat.lt_succ_of_lt opened.deeper, wide.slots, .own below told⟩
    refine silent fun operation member => ?_
    simp only [operations, conditionProducer_operations, List.mem_append,
      List.mem_cons, List.mem_map, List.not_mem_nil, or_false] at member
    obtain rfl | ⟨function, _, rfl⟩ | rfl := member
    · trivial
    · exact ⟨inner, .call function (.own below told) heard⟩
    · exact ⟨inner, .fallthrough⟩
  | fallthrough => exact .of_fallthrough Outcome.failure
  | total tally told =>
    refine silent fun operation member => ?_
    rw [List.mem_singleton.mp member]
    exact told
  | heading index item =>
    refine silent fun operation member => ?_
    rw [List.mem_singleton.mp member]
    trivial
  | closing index source text =>
    have form : m.operations (packRules pack) frame (.deferred (traceClosing index source text)) =
        [.detach, .update (World.add (.traced (.opened index) .flush)),
          .update (source.persona.sendSuccess text)] := rfl
    dsimp only
    rw [form]
    refine silent fun operation member => ?_
    simp only [List.mem_cons, List.not_mem_nil, or_false] at member
    obtain rfl | rfl | rfl := member <;> trivial

end Scope

end PackEngine
