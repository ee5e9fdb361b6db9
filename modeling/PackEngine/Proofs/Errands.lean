import Mathlib.Logic.Relation
import PackEngine.Proofs.Callers
import PackEngine.Proofs.Openings

/-! What a line does in its turn, source by source. A line runs under its own sources and under
those that redirects make of them; all that it tells, queues and calls it does for one of these. -/
namespace PackEngine

open Machine

def PackSource.Becomes : PackSource → PackSource → Prop :=
  Relation.ReflTransGen fun source other =>
    ∃ (redirect : Redirect) (w : World), other ∈ redirect.produce source w

def Machine.RunsUnder (m : Machine packWords) (task : Task packWords) (source : PackSource) :
    Prop :=
  match task with
  | .line issuer sources _ _ _ =>
      PackSource.Becomes issuer source ∨
        ∃ own ∈ (m.takeSources sources).1, PackSource.Becomes own source
  | .execute _ own => source = own
  | .drip _ own => source ∈ own
  | _ => False

def Machine.ArrivesUnder (pack : Pack) (m : Machine packWords) (source : PackSource) : Prop :=
  ∃ arrival, m.arrival (packRules pack) = some arrival ∧ source ∈ arrival.sources

inductive Way where
  /-- A line calls it. -/
  | called
  /-- A condition asks for its result. -/
  | asked
  /-- A debug command traces it. -/
  | traced
deriving DecidableEq

def Task.way? : Task packWords → Option Way
  | .line _ _ ⟨_, _, .action (.function _ _)⟩ _ _ => some .called
  | .line _ _ ⟨_, _, .action (.debug _)⟩ _ _ => some .traced
  | .isolated _ _ => some .asked
  | _ => none

/-- The ways that lead from the task to one that it queues. -/
def Task.ways (task : Task packWords) : Task packWords → List Way
  | .call _ _ _ _ => task.way?.toList
  | _ => []

def Operation.Unheard : Operation packWords → Prop
  | .record _ _ => True
  | .attach _ => True
  | .newTally => True
  | .newCell => True
  | .emptyCell _ => True
  | .trace _ => True
  | _ => False

inductive Errand (pack : Pack) (m : Machine packWords) (frame : Frame packWords)
    (task : Task packWords) : Operation packWords → Prop where
  | plain {operation : Operation packWords} (plain : operation.Unheard) :
      Errand pack m frame task operation
  | report {source : PackSource} (under : m.RunsUnder task source) (error : CommandError)
      (forked : Bool) : Errand pack m frame task (.report source error forked)
  | success {source : PackSource} (under : m.RunsUnder task source) (text : String) :
      Errand pack m frame task (.update (source.persona.sendSuccess text))
  | failure {source : PackSource} (under : m.RunsUnder task source) (text : String) :
      Errand pack m frame task (.update (source.persona.sendFailure text))
  | opened (index : Nat) : Errand pack m frame task (.update (World.add (.traceOpened index)))
  | deliver {source : PackSource} (under : m.RunsUnder task source) (outcome : Outcome) :
      Errand pack m frame task (.deliver source.callback outcome)
  | returnFrom (outcome : Outcome) : Errand pack m frame task (.returnFrom frame outcome)
  | execute {source : PackSource} (under : m.RunsUnder task source) (line : LeafLine packWords) :
      Errand pack m frame task (.queue ⟨frame, .execute line source⟩)
  | drip {sources : List PackSource} (under : ∀ source ∈ sources, m.RunsUnder task source)
      (line : LeafLine packWords) : Errand pack m frame task (.queue ⟨frame, .drip line sources⟩)
  | fallthrough : Errand pack m frame task (.queue ⟨frame, .fallthrough⟩)
  | condition (opens : .newCell ∈ m.turnOperations (packRules pack)) {source : PackSource}
      (arrives : m.ArrivesUnder pack source) (condition : Condition)
      (bound : List (BoundFunction packWords)) :
      Errand pack m frame task (.queue ⟨frame, condition.task bound m.heap.cells.size source⟩)
  | continuation (opens : .newCell ∈ m.turnOperations (packRules pack)) {issuer : PackSource}
      (under : m.RunsUnder task issuer) (rest : Chain packWords) (flags : Flags) :
      Errand pack m frame task (.queue ⟨frame, .continuation issuer m.heap.cells.size rest flags⟩)
  | called (way : task.way? = some .called) {caller : PackSource}
      (under : m.RunsUnder task caller) (function : BoundFunction packWords)
      {callback : Callback packWords}
      (heard : ∀ receiver ∈ callback, receiver ∈ caller.callback ∨ receiver ∈ frame.sink ∨
        receiver = .slot frame.slot ∨ ∃ tally, receiver = .tally tally) (returnCall : Bool) :
      Errand pack m frame task (.queue ⟨frame, .call function
        (announced isSilent caller function.id callback) returnCall
        (caller.mapPersona Persona.forFunction).clearCallbacks⟩)
  | traced (way : task.way? = some .traced) (trace : DebugTrace)
      (under : m.RunsUnder task trace.source) (function : BoundFunction packWords) :
      Errand pack m frame task (.queue ⟨frame, .call function Callback.empty false trace.traced⟩)
  | total {source : PackSource} (under : m.RunsUnder task source) (tally : TallyId) :
      Errand pack m frame task (.queue ⟨frame,
        .deferred (Control.deliverTally tally (source.callback.chain frame.recorder))⟩)
  | heading (index : Nat) (text : String) : Errand pack m frame task
      (.queue ⟨frame, .deferred (tell (World.add (.traced (.opened index) (.heading text))))⟩)
  | closing {source : PackSource} (under : m.RunsUnder task source) (index : Nat)
      (text : String) :
      Errand pack m frame task (.queue ⟨frame, .deferred (traceClosing index source text)⟩)

section

variable {pack : Pack} {m : Machine packWords} {frame : Frame packWords} {task : Task packWords}

theorem Machine.runsUnder_redirectsKeep (pack : Pack) (m : Machine packWords) (issuer : PackSource)
    (sources : Sources packWords) (chain : Chain packWords) (flags : Flags) (topLevel : Bool) :
    (packRules pack).RedirectsKeep (m.RunsUnder (.line issuer sources chain flags topLevel)) := by
  intro redirect source w produced under made other member
  cases Except.ok.inj made
  obtain begins | ⟨own, among, begins⟩ := under
  · exact .inl (begins.tail ⟨redirect, w, member⟩)
  · exact .inr ⟨own, among, begins.tail ⟨redirect, w, member⟩⟩

theorem CallAction.Move.errand {action : CallAction} {source : PackSource} {tally : TallyId}
    {operation : Operation packWords} (move : action.Move frame source tally operation)
    (calls : ∀ target arguments, action = .function target arguments → task.way? = some .called)
    (traces : ∀ target, action = .debug target → task.way? = some .traced)
    (under : m.RunsUnder task source) : Errand pack m frame task operation := by
  cases move with
  | tell => exact .success under _
  | returnCall target arguments function =>
    refine .called (calls target arguments rfl) under function (fun receiver among => ?_) true
    exact (List.mem_append.mp among).imp_right .inl
  | fallthrough => exact .fallthrough
  | call target arguments function =>
    refine .called (calls target arguments rfl) under function (fun receiver among => ?_) false
    exact (List.mem_append.mp among).imp_right fun among =>
      .inr (.inl (List.mem_singleton.mp among))
  | newTally => exact .plain trivial
  | talliedCall target arguments function =>
    refine .called (calls target arguments rfl) under function (fun receiver among => ?_) false
    exact .inr (.inr (.inr ⟨_, List.mem_singleton.mp among⟩))
  | total => exact .total under _
  | opened _ index => exact .opened index
  | attach => exact .plain trivial
  | failed _ text => exact .failure under text
  | heading _ index text => exact .heading index text
  | tracedCall target trace own function =>
    subst own
    exact .traced (traces target rfl) trace under function
  | closing _ index text => exact .closing under index text
  | @deliver _ outcome => exact .deliver under outcome
  | @returnFrom _ outcome => exact .returnFrom outcome

theorem actAllOperations_errands {action : CallAction}
    (calls : ∀ target arguments, action = .function target arguments → task.way? = some .called)
    (traces : ∀ target, action = .debug target → task.way? = some .traced)
    (acted : Chain packWords) (flags : Flags) {sources : List PackSource}
    (under : ∀ source ∈ sources, m.RunsUnder task source) (there : Machine packWords) :
    ∀ operation ∈ actAllOperations (packRules pack) frame action acted flags sources there,
      Errand pack m frame task operation := by
  refine forall_actAllOperations (fun source among _ operation member => ?_)
    fun source among _ error _ => ⟨.report (under source among) _ _,
      .deliver (under source among) _, .plain trivial⟩
  exact (action.moves operation member).errand calls traces (under source among)

theorem finishOperations_errands {chain : Chain packWords}
    (calls : ∀ target arguments, chain.executable = .action (.function target arguments) →
      task.way? = some .called)
    (traces : ∀ target, chain.executable = .action (.debug target) → task.way? = some .traced)
    (flags : Flags) {present : List PackSource}
    (under : ∀ source ∈ present, m.RunsUnder task source) (there : Machine packWords) :
    ∀ operation ∈ finishOperations (packRules pack) frame { chain with modifiers := [] } flags
      present there, Errand pack m frame task operation := by
  intro operation member
  unfold finishOperations at member
  split at member
  · split at member
    · rw [List.mem_singleton.mp member]
      exact .fallthrough
    · cases member
  · cases ends : chain.executable with
    | action action =>
      simp only [ends] at member
      refine actAllOperations_errands (fun target arguments same => ?_) (fun target same => ?_) _
        flags under there operation member
      · exact calls target arguments (by rw [ends, same])
      · exact traces target (by rw [ends, same])
    | leaf leaf =>
      simp only [ends] at member
      have fewer : ∀ source ∈ (if flags.isReturn then present.take 1 else present),
          m.RunsUnder task source := by
        intro source among
        split at among
        · exact under source (List.mem_of_mem_take among)
        · exact under source among
      exact forall_leavesOperations (fun source among => .execute (fewer source among) _)
        (.drip fewer _) operation member

theorem gateOperations_errands {condition : Condition} {issuer : PackSource}
    (issued : m.RunsUnder task issuer) {chain : Chain packWords} {modifier : Modifier packWords}
    {rest : List (Modifier packWords)} {flags : Flags} {present : List PackSource}
    (arrive : ∀ source ∈ present, m.ArrivesUnder pack source) {there : Machine packWords}
    (size : there.heap.cells.size = m.heap.cells.size)
    (own : ∀ operation ∈ gateOperations (packRules pack) frame condition issuer present
      { chain with modifiers := modifier :: rest } flags there,
        operation ∈ m.turnOperations (packRules pack)) :
    ∀ operation ∈ gateOperations (packRules pack) frame condition issuer present
      { chain with modifiers := modifier :: rest } flags there,
      Errand pack m frame task operation := by
  by_cases bounds : ∃ functions bound, pack.library.resolve condition.target = .ok functions ∧
      FunctionRef.instantiateAll none functions = .ok bound
  · obtain ⟨functions, bound, resolves, binds⟩ := bounds
    rw [gateOperations_bound resolves binds, size] at own ⊢
    have opens : .newCell ∈ m.turnOperations (packRules pack) := own _ List.mem_cons_self
    intro operation member
    simp only [List.cons_append, List.mem_cons, List.mem_append, List.mem_map, List.not_mem_nil,
      or_false] at member
    obtain rfl | ⟨source, among, rfl⟩ | rfl := member
    · exact .plain trivial
    · exact .condition opens (arrive source among) condition bound
    · exact .continuation opens issued _ flags
  · obtain ⟨error, refused⟩ := gateOperations_refused frame issuer chain modifier rest
      (fun functions bound resolves binds => bounds ⟨functions, bound, resolves, binds⟩) present
      flags there
    intro operation member
    rw [refused] at member
    rw [List.mem_singleton.mp member]
    exact .report issued error _

/-- All that a line does in its turn it does for sources that it runs under. -/
theorem Machine.line_errands (pack : Pack) {issuer : PackSource} {sources : Sources packWords}
    {chain : Chain packWords} {flags : Flags} {topLevel : Bool} {lower : List (Entry packWords)}
    (entries : m.stack.entries = ⟨frame, .line issuer sources chain flags topLevel⟩ :: lower) :
    (∀ operation ∈ m.turnOperations (packRules pack),
      Errand pack m frame (.line issuer sources chain flags topLevel) operation) ∧
    ∀ source, m.ArrivesUnder pack source →
      m.RunsUnder (.line issuer sources chain flags topLevel) source := by
  let task : Task packWords := .line issuer sources chain flags topLevel
  have issued : m.RunsUnder task issuer := .inl .refl
  obtain ⟨opening, turn, opens, size, fits⟩ := turnOperations_of_line
    (runsUnder_redirectsKeep pack m issuer sources chain flags topLevel) issued
    entries fun source among => .inr ⟨source, among, .refl⟩
  refine ⟨fun operation member => ?_, fun source ⟨arrival, there, among⟩ =>
    fits arrival there source among⟩
  have placed := member
  rw [turn] at placed
  cases List.mem_append.mp placed with
  | inl first =>
    obtain ⟨event, rfl⟩ | ⟨cell, _, rfl⟩ | ⟨source, error, forked, under, rfl⟩ :=
      opens operation first
    · exact .plain trivial
    · exact .plain trivial
    · exact .report under error forked
  | inr last =>
    cases there : m.arrival (packRules pack) with
    | none =>
      rw [there] at last
      cases last
    | some arrival =>
      have under := fits arrival there
      obtain ⟨ahead, marked, present⟩ := arrival
      rw [there] at last turn
      cases ahead with
      | nil =>
        refine finishOperations_errands (fun target arguments ends => ?_) (fun target ends => ?_)
          marked under _ operation last
        · obtain ⟨input, modifiers, executable⟩ := chain
          cases ends
          rfl
        · obtain ⟨input, modifiers, executable⟩ := chain
          cases ends
          rfl
      | cons modifier rest =>
        simp only [arrivalOperations] at last turn
        cases gates : modifier.action with
        | keep =>
          simp only [gates] at last
          cases last
        | redirect redirect =>
          simp only [gates] at last
          cases last
        | gate condition =>
          simp only [gates] at last turn
          refine gateOperations_errands issued (fun source among => ⟨_, there, among⟩) size
            (fun other among => ?_) operation last
          rw [turn]
          exact List.mem_append_right opening among

end

end PackEngine
