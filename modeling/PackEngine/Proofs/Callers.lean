import PackEngine.Proofs.Tracers

/-! What a line does for its sources once it has come to its action. It tells their callbacks its
own results, or lets functions tell them theirs. Functions run under no callback, unless a debug
command traces them. -/
namespace PackEngine

open Machine

inductive CallFrom (frame : Frame packWords) (executable : Executable packWords)
    (C : Callback packWords → Prop) : Task packWords → Prop where
  | returning (function : BoundFunction packWords) {caller : PackSource} (callee : PackSource)
      (heard : C caller.callback) : CallFrom frame executable C (.call function
        (announced isSilent caller function.id (caller.callback.chain frame.sink)) true
        callee.clearCallbacks)
  | calling (function : BoundFunction packWords) {caller : PackSource} (callee : PackSource)
      (heard : C caller.callback) : CallFrom frame executable C (.call function
        (announced isSilent caller function.id (caller.callback.chain frame.recorder)) false
        callee.clearCallbacks)
  | tallying (function : BoundFunction packWords) (caller callee : PackSource) (tally : TallyId) :
      CallFrom frame executable C (.call function
        (announced isSilent caller function.id [.tally tally]) false callee.clearCallbacks)
  /-- The results of a traced function go nowhere, those of its lines where the line's own go. -/
  | tracing (function : BoundFunction packWords) {traced : PackSource}
      (debugs : ∃ target, executable = .action (.debug target)) (heard : C traced.callback) :
      CallFrom frame executable C (.call function Callback.empty false traced)

inductive Results : Executable packWords → Outcome → Prop where
  | value {leaf : LeafAction} (source : PackSource) (w : World) {value : Int32}
      (ran : (leaf.perform source w).1 = .ok value) : Results (.leaf leaf) (Outcome.ok value)
  | failure {leaf : LeafAction} (source : PackSource) (w : World) {error : CommandError}
      (ran : (leaf.perform source w).1 = .error error) : Results (.leaf leaf) Outcome.failure
  | returned {action : CallAction} {outcome : Outcome}
      (returned : action.returned? = some outcome) : Results (.action action) outcome
  | refused (action : CallAction) : Results (.action action) Outcome.failure

def Operation.Idle : Operation packWords → Prop
  | .queue _ => False
  | .returnFrom _ _ => False
  | .deliver _ _ => False
  | .deliverTally _ _ => False
  | .collect _ _ => False
  | _ => True

inductive Acts (frame : Frame packWords) (action : CallAction) (C : Callback packWords → Prop) :
    Operation packWords → Prop where
  | idle {operation : Operation packWords} (idle : operation.Idle) : Acts frame action C operation
  | results {callback : Callback packWords} {outcome : Outcome} (heard : C callback)
      (results : Results (.action action) outcome) :
      Acts frame action C (.deliver callback outcome)
  | returns (outcome : Outcome) : Acts frame action C (.returnFrom frame outcome)
  | calls {task : Task packWords} (calls : CallFrom frame (.action action) C task) :
      Acts frame action C (.queue ⟨frame, task⟩)
  | fallthrough : Acts frame action C (.queue ⟨frame, .fallthrough⟩)
  | total (tally : TallyId) {caller : Callback packWords} (heard : C caller) :
      Acts frame action C
        (.queue ⟨frame, .deferred (Control.deliverTally tally (caller.chain frame.recorder))⟩)
  | heading (index : Nat) (item : PrintItem) : Acts frame action C
      (.queue ⟨frame, .deferred (tell (World.add (.traced (.opened index) item)))⟩)
  | closing (index : Nat) (source : PackSource) (text : String) :
      Acts frame action C (.queue ⟨frame, .deferred (traceClosing index source text)⟩)

section

variable {pack : Pack} {frame : Frame packWords} {C : Callback packWords → Prop}

theorem CallAction.Move.acts {action : CallAction} {source : PackSource} {tally : TallyId}
    {operation : Operation packWords} (move : action.Move frame source tally operation)
    (heard : C source.callback) : Acts frame action C operation := by
  cases move with
  | returnCall _ _ function => exact .calls (.returning function _ heard)
  | fallthrough => exact .fallthrough
  | call _ _ function => exact .calls (.calling function _ heard)
  | talliedCall _ _ function => exact .calls (.tallying function source _ _)
  | total => exact .total _ heard
  | heading _ index => exact .heading index _
  | tracedCall target trace own function =>
    subst own
    exact .calls (.tracing function ⟨target, rfl⟩ heard)
  | closing _ index text => exact .closing index source text
  | deliver returned => exact .results heard (.returned returned)
  | @returnFrom _ outcome => exact .returns outcome
  | _ => exact .idle trivial

theorem actAllOperations_acts (action : CallAction) (acted : Chain packWords) (flags : Flags)
    {sources : List PackSource} (heard : ∀ source ∈ sources, C source.callback)
    (m : Machine packWords) :
    ∀ operation ∈ actAllOperations (packRules pack) frame action acted flags sources m,
      Acts frame action C operation := by
  refine forall_actAllOperations (fun source among _ operation member => ?_)
    fun source among _ error _ => ⟨.idle trivial, ?_, .idle trivial⟩
  · exact (action.moves operation member).acts (heard source among)
  · exact .results (heard source among) (.refused action)

end

end PackEngine
