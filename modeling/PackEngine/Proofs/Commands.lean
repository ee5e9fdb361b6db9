import PackEngine.Pack.Run
import PackEngine.Proofs.Operation

/-! What commands do, one operation at a time. -/
namespace PackEngine

variable {V : Vocabulary}

/-! Sequences of procedures. -/

theorem Procedure.operations_queueAll_bind (rules : Rules V) (frame : Frame V)
    (tasks : List (Task V)) (next : Unit → Control V α) (m : Machine V) :
    ((Control.queueAll tasks).bind next).operations rules frame m =
      tasks.map (fun task => .queue ⟨frame, task⟩) ++
        (next ()).operations rules frame (tasks.foldl (fun m task => m.queueIn frame task) m) := by
  induction tasks generalizing m with
  | nil => rfl
  | cons task rest ih => exact congrArg (List.cons _) (ih _)

theorem Procedure.operations_queueAll (rules : Rules V) (frame : Frame V)
    (tasks : List (Task V)) (m : Machine V) :
    (Control.queueAll tasks).operations rules frame m =
      tasks.map fun task => .queue ⟨frame, task⟩ := by
  induction tasks generalizing m with
  | nil => rfl
  | cons task rest ih => exact congrArg (List.cons _) (ih _)

theorem Procedure.operations_bind (rules : Rules V) (frame : Frame V)
    (procedure : Procedure V (Task V) α) (next : α → Procedure V (Task V) β) (m : Machine V) :
    (procedure.bind next).operations rules frame m =
      procedure.operations rules frame m ++
        match procedure.run rules frame m with
        | (.ok value, after) => (next value).operations rules frame after
        | (.error _, _) => [] := by
  induction procedure generalizing m with
  | done value => rfl
  | fail error => rfl
  | look following ih => exact ih _ m
  | consult following ih => exact ih _ m
  | queue task following ih => exact congrArg (List.cons _) (ih _)
  | returnWith outcome following ih => exact congrArg (List.cons _) (ih _)
  | record outcome following ih => exact congrArg (List.cons _) (ih _)
  | deliver callback outcome following ih => exact congrArg (List.cons _) (ih _)
  | deliverTally tally callback following ih => exact congrArg (List.cons _) (ih _)
  | report source error forked following ih => exact congrArg (List.cons _) (ih _)
  | attach tracer following ih =>
    refine congrArg (List.cons _) ((ih _ _).trans ?_)
    simp only [run, Machine.attach]
    cases m.tracer <;> simp
  | detach following ih => exact congrArg (List.cons _) (ih _ _)
  | newTally following ih => exact congrArg (List.cons _) (ih _ _)
  | newCell following ih => exact congrArg (List.cons _) (ih _ _)
  | collect cell source following ih => exact congrArg (List.cons _) (ih _)
  | update change following ih => exact congrArg (List.cons _) (ih _)

theorem Procedure.run_bind (rules : Rules packWords) (frame : Frame packWords)
    (procedure : Control packWords α) (next : α → Control packWords β) (m : Machine packWords) :
    (procedure.bind next).run rules frame m =
      match procedure.run rules frame m with
      | (.ok value, after) => (next value).run rules frame after
      | (.error error, after) => (.error error, after) := by
  induction procedure generalizing m with
  | done value => rfl
  | fail error => rfl
  | look following ih => exact ih _ m
  | consult following ih => exact ih _ m
  | attach tracer following ih =>
    simp only [Procedure.bind, run]
    cases m.attach tracer with
    | error error => exact ih _ _
    | ok attached => exact ih _ _
  | detach following ih => exact ih _ _
  | newTally following ih => exact ih _ _
  | newCell following ih => exact ih _ _
  | queue task following ih => exact ih _
  | returnWith outcome following ih => exact ih _
  | record outcome following ih => exact ih _
  | deliver callback outcome following ih => exact ih _
  | deliverTally tally callback following ih => exact ih _
  | report source error forked following ih => exact ih _
  | collect cell source following ih => exact ih _
  | update change following ih => exact ih _

theorem Procedure.run_map (rules : Rules packWords) (frame : Frame packWords)
    (procedure : Control packWords α) (f : α → β) (m : Machine packWords) :
    ((procedure.bind fun value => .done (f value)).run rules frame m).1 =
      (procedure.run rules frame m).1.map f := by
  rw [run_bind]
  split
  · next same => rw [same]; rfl
  · next same => rw [same]; rfl

theorem Procedure.operations_map (rules : Rules packWords) (frame : Frame packWords)
    (procedure : Control packWords α) (f : α → β) (m : Machine packWords) :
    (procedure.bind fun value => .done (f value)).operations rules frame m =
      procedure.operations rules frame m := by
  rw [operations_bind]
  split <;> exact List.append_nil _

theorem Procedure.attach_bind (rules : Rules packWords) (frame : Frame packWords)
    (tracer : TracerId) (next : Unit → Control packWords α) {m : Machine packWords}
    (free : m.tracer = none) :
    ((Control.attach (V := packWords) tracer).bind next).operations rules frame m =
        .attach tracer :: (next ()).operations rules frame { m with tracer := some tracer } ∧
      ((Control.attach (V := packWords) tracer).bind next).run rules frame m =
        (next ()).run rules frame { m with tracer := some tracer } := by
  constructor
  · simp [Control.attach, Procedure.bind, Procedure.operations, free]
  · simp [Control.attach, Procedure.bind, Procedure.run, Machine.attach, free]

/-! Conditions and calls. -/

/-- What an isolated condition does: it return-calls every function, and fails in the end. -/
def conditionProducer (bound : List (BoundFunction V)) (callee : Source V) : Control V Unit := do
  let view ← Control.look
  Control.queueAll
    (bound.map (fun function => .call function view.frame.sink true callee) ++ [.fallthrough])

def conditionTask (adapt : Source V → Source V) (polarity : Polarity)
    (bound : List (BoundFunction V)) (cell : CellId) (source : Source V) : Task V :=
  .isolated (conditionProducer bound (adapt source.clearCallbacks))
    [.collect cell polarity source.persona source.callback]

theorem conditionProducer_operations (rules : Rules V) (frame : Frame V)
    (bound : List (BoundFunction V)) (callee : Source V) (m : Machine V) :
    (conditionProducer bound callee).operations rules frame m =
      bound.map (fun function => .queue ⟨frame, .call function frame.sink true callee⟩) ++
        [.queue ⟨frame, .fallthrough⟩] := by
  refine (Procedure.operations_queueAll rules frame _ m).trans ?_
  simp [Function.comp_def]

theorem scheduleConditions_operations (rules : Rules V) (frame : Frame V)
    (adapt : Source V → Source V) (polarity : Polarity) (functions : List (FunctionRef V))
    (issuer : Source V) (sources : List (Source V)) (chain : Chain V) (flags : Flags)
    (m : Machine V) :
    (scheduleConditions adapt polarity functions issuer sources chain flags).operations rules
        frame m =
      match FunctionRef.instantiateAll none functions with
      | .error _ => []
      | .ok bound =>
          let cell := m.heap.newCell.1
          .newCell ::
            sources.map (fun source =>
              .queue ⟨frame, conditionTask adapt polarity bound cell source⟩) ++
            match chain.next? with
            | some next => [.queue ⟨frame, .continuation issuer cell next flags⟩]
            | none => [] := by
  unfold scheduleConditions
  cases FunctionRef.instantiateAll none functions with
  | error error => rfl
  | ok bound =>
    refine congrArg (List.cons _) ?_
    refine (Procedure.operations_queueAll_bind rules frame _ _ _).trans ?_
    rw [List.map_map]
    cases chain.next? <;> rfl

theorem queueFunctions_operations (rules : Rules V) (frame : Frame V)
    (isSilent : V.Persona → Bool) (functions : List (FunctionRef V)) (arguments : Option Json)
    (issuer source : Source V) (flags : Flags) (m : Machine V) :
    (queueFunctions isSilent functions arguments issuer source flags).operations rules frame m =
      match FunctionRef.instantiateAll arguments functions with
      | .error _ => []
      | .ok bound =>
          let calls (callback : Callback V) (returnCall : Bool) : List (Operation V) :=
            bound.map fun function =>
              .queue ⟨frame, .call function (announced isSilent issuer function.id callback)
                returnCall source.clearCallbacks⟩
          if flags.isReturn then
            calls (issuer.callback.chain frame.sink) true ++ [.queue ⟨frame, .fallthrough⟩]
          else
            let sink := issuer.callback.chain frame.recorder
            if bound.length == 1 || issuer.callback.isEmpty then calls sink false
            else
              let tally := m.heap.newTally.1
              .newTally :: calls [.tally tally] false ++
                [.queue ⟨frame, .deferred (Control.deliverTally tally sink)⟩] := by
  unfold queueFunctions
  cases FunctionRef.instantiateAll arguments functions with
  | error error => rfl
  | ok bound =>
    simp only [bind, Procedure.bind, Control.ofExcept, Control.look, Procedure.operations]
    split
    · refine (Procedure.operations_queueAll rules frame _ m).trans ?_
      simp [Function.comp_def]
    · split
      · refine (Procedure.operations_queueAll rules frame _ m).trans ?_
        simp [Function.comp_def]
      · refine congrArg (List.cons _) ?_
        refine (Procedure.operations_queueAll rules frame _ _).trans ?_
        simp [Function.comp_def]

theorem attach_operations (rules : Rules V) (frame : Frame V) (tracer : V.Tracer)
    (m : Machine V) : (Control.attach tracer).operations rules frame m = [.attach tracer] := by
  refine congrArg (List.cons _) ?_
  dsimp only
  split <;> rfl

/-! Traces that lines open. -/

def traceClosing (index : Nat) (source : PackSource) (text : String) : Control packWords Unit := do
  let _ ← Control.detach
  tell (World.add (.traced (.opened index) .flush))
  tell (source.persona.sendSuccess text)

structure DebugTrace where
  /-- The frame of the line. -/
  frame : Frame packWords
  index : Nat
  source : PackSource
  functions : List (FunctionRef packWords)
  /-- What the source is told at the end. -/
  summary : String

namespace DebugTrace

variable (trace : DebugTrace)

def traced : PackSource :=
  trace.source.mapPersona fun p =>
    (p.withOutput (.trace trace.index)).withMaximumPermission Persona.functionPermission

def callsOf (function : FunctionRef packWords) : List (Entry packWords) :=
  match function.bind none with
  | .error _ => []
  | .ok lines =>
      [⟨trace.frame, .deferred (tell (World.add
          (.traced (.opened trace.index) (.heading function.id.render))))⟩,
        ⟨trace.frame, .call ⟨function.id, lines⟩ Callback.empty false trace.traced⟩]

def calls : List (Entry packWords) := trace.functions.flatMap trace.callsOf

def closing : Entry packWords :=
  ⟨trace.frame, .deferred (traceClosing trace.index trace.source trace.summary)⟩

def tracing (function : FunctionRef packWords) : List (Operation packWords) :=
  match function.bind none with
  | .error error => [.update (trace.source.persona.sendFailure error.message)]
  | .ok _ => (trace.callsOf function).map .queue

def opening : List (Operation packWords) :=
  [.update (World.add (.traceOpened trace.index)), .attach (.opened trace.index)] ++
    trace.functions.flatMap trace.tracing ++ [.queue trace.closing]

end DebugTrace

theorem queueTraced_operations (pack : Pack) (trace : DebugTrace)
    (functions : List (FunctionRef packWords)) (m : Machine packWords) :
    (queueTraced trace.index trace.source trace.traced functions).operations (packRules pack)
        trace.frame m = functions.flatMap trace.tracing ∧
      ∃ commands, ((queueTraced trace.index trace.source trace.traced functions).run
        (packRules pack) trace.frame m).1 = .ok commands := by
  induction functions generalizing m with
  | nil => exact ⟨rfl, _, rfl⟩
  | cons function rest ih =>
    rw [List.flatMap_cons]
    unfold queueTraced DebugTrace.tracing DebugTrace.callsOf
    cases function.bind none with
    | error error =>
      obtain ⟨same, counts⟩ :=
        ih { m with setting := trace.source.persona.sendFailure error.message m.setting }
      exact ⟨congrArg (_ :: ·) same, counts⟩
    | ok lines =>
      let heading : Task packWords := .deferred (tell (World.add
        (.traced (.opened trace.index) (.heading function.id.render))))
      let call : Task packWords := .call ⟨function.id, lines⟩ Callback.empty false trace.traced
      obtain ⟨same, commands, counts⟩ :=
        ih ((m.enqueue ⟨trace.frame, heading⟩).enqueue ⟨trace.frame, call⟩)
      have others := Procedure.operations_map (packRules pack) trace.frame
        (queueTraced trace.index trace.source trace.traced rest) (lines.length + ·)
        ((m.enqueue ⟨trace.frame, heading⟩).enqueue ⟨trace.frame, call⟩)
      refine ⟨congrArg (fun later => Operation.queue ⟨trace.frame, heading⟩ ::
        Operation.queue ⟨trace.frame, call⟩ :: later) (others.trans same),
        lines.length + commands, ?_⟩
      exact (Procedure.run_map (packRules pack) trace.frame _ (lines.length + ·) _).trans
        (congrArg (Except.map _) counts)

/-- A debug command opens a trace where no tracer is attached, or it tells its source of failures at
most, and nothing if it is refused. -/
theorem debugTrace_operations (pack : Pack) (frame : Frame packWords) (target : String) (source : PackSource) (flags : Flags)
    (m : Machine packWords) :
    ((∀ operation ∈ (debugTrace pack target source flags).operations (packRules pack) frame m,
        ∃ text, operation = .update (source.persona.sendFailure text)) ∧
      ∀ error, ((debugTrace pack target source flags).run (packRules pack) frame m).1 =
          .error error →
        (debugTrace pack target source flags).operations (packRules pack) frame m = []) ∨
      m.tracer = none ∧
        ((debugTrace pack target source flags).run (packRules pack) frame m).1 = .ok () ∧
        ∃ trace : DebugTrace, trace.frame = frame ∧ trace.index = m.setting.traces ∧
          trace.source = source ∧ pack.library.resolve target = .ok trace.functions ∧
          (debugTrace pack target source flags).operations (packRules pack) frame m =
            trace.opening := by
  unfold debugTrace
  cases flags.isReturn with
  | true => exact .inl ⟨fun _ member => absurd member List.not_mem_nil, fun _ _ => rfl⟩
  | false =>
    simp only [bind, Procedure.bind, Control.look, Procedure.operations, Procedure.run,
      Bool.false_eq_true, if_false]
    cases free : m.tracer with
    | some attached => exact .inl ⟨fun _ member => absurd member List.not_mem_nil, fun _ _ => rfl⟩
    | none =>
      cases resolves : pack.library.resolve target with
      | error error => exact .inl ⟨fun _ member => absurd member List.not_mem_nil, fun _ _ => rfl⟩
      | ok functions =>
        simp only [Option.isSome_none, Bool.false_eq_true, if_false, Procedure.bind,
          Control.ofExcept, Control.consult, Procedure.operations, Procedure.run]
        cases m.setting.tracesWritable with
        | false =>
          exact .inl ⟨fun operation member => ⟨_, List.mem_singleton.mp member⟩,
            fun _ refused => by cases refused⟩
        | true =>
          let index := m.setting.traces
          let change : World → World := World.add (.traceOpened index)
          let trace (summary : String) : DebugTrace := ⟨frame, index, source, functions, summary⟩
          let close (commands : Nat) : Control packWords Unit := Control.queue
            (.deferred (traceClosing index source
              (tracedText functions commands m.setting.traceFile)))
          let queues := queueTraced index source (trace "").traced functions
          have attaches := Procedure.attach_bind (packRules pack) frame (.opened index)
            (fun _ => queues.bind close) (m := { m with setting := change m.setting }) free
          let there : Machine packWords :=
            { m with setting := change m.setting, tracer := some (.opened index) }
          obtain ⟨same, commands, counts⟩ :=
            queueTraced_operations pack (trace "") functions there
          have operations := Procedure.operations_bind (packRules pack) frame queues close there
          have ran := Procedure.run_bind (packRules pack) frame queues close there
          cases result : queues.run (packRules pack) frame there with
          | mk count after =>
            have counted : count = .ok commands := (congrArg Prod.fst result).symm.trans counts
            subst counted
            rw [result] at operations ran
            refine .inr ⟨trivial, (congrArg Prod.fst attaches.2).trans (congrArg Prod.fst ran),
              trace (tracedText functions commands m.setting.traceFile), rfl, rfl, rfl, rfl, ?_⟩
            have all := attaches.1.trans (congrArg (_ :: ·) (operations.trans
              (congrArg (· ++ _) same)))
            exact congrArg (Operation.update change :: ·) all

namespace DebugTrace

variable {trace : DebugTrace}

theorem mem_calls {entry : Entry packWords} (member : entry ∈ trace.calls) :
    (∃ text, entry = ⟨trace.frame, .deferred (tell (World.add
        (.traced (.opened trace.index) (.heading text))))⟩) ∨
      ∃ function, entry = ⟨trace.frame, .call function Callback.empty false trace.traced⟩ := by
  obtain ⟨function, _, member⟩ := List.mem_flatMap.mp member
  unfold callsOf at member
  split at member
  · cases member
  · simp only [List.mem_cons, List.not_mem_nil, or_false] at member
    obtain rfl | rfl := member
    · exact .inl ⟨_, rfl⟩
    · exact .inr ⟨_, rfl⟩

theorem mem_tracing {function : FunctionRef packWords} {operation : Operation packWords}
    (member : operation ∈ trace.tracing function) :
    (∃ text, operation = .update (trace.source.persona.sendFailure text)) ∨
      ∃ entry ∈ trace.callsOf function, operation = .queue entry := by
  unfold tracing at member
  split at member
  · exact .inl ⟨_, List.mem_singleton.mp member⟩
  · obtain ⟨entry, among, rfl⟩ := List.mem_map.mp member
    exact .inr ⟨entry, among, rfl⟩

theorem mem_opening {operation : Operation packWords} (member : operation ∈ trace.opening) :
    operation = .update (World.add (.traceOpened trace.index)) ∨
      operation = .attach (.opened trace.index) ∨
      operation ∈ trace.functions.flatMap trace.tracing ∨ operation = .queue trace.closing := by
  simpa [opening, or_assoc] using member

end DebugTrace

/-! Commands. -/

def CallAction.returned? : CallAction → Option Outcome
  | .returnValue value => some (Outcome.ok value)
  | .returnFail => some Outcome.failure
  | _ => none

inductive CallAction.Move (frame : Frame packWords) (source : PackSource) (tally : TallyId) :
    CallAction → Operation packWords → Prop where
  | tell (target : String) (arguments : Option Json) (functions : List (FunctionRef packWords)) :
      Move frame source tally (.function target arguments)
        (.update (source.persona.sendSuccess (runningText functions)))
  | returnCall (target : String) (arguments : Option Json) (function : BoundFunction packWords) :
      Move frame source tally (.function target arguments) (.queue ⟨frame, .call function
        (announced isSilent source function.id (source.callback.chain frame.sink)) true
        (source.mapPersona Persona.forFunction).clearCallbacks⟩)
  | fallthrough (target : String) (arguments : Option Json) :
      Move frame source tally (.function target arguments) (.queue ⟨frame, .fallthrough⟩)
  | call (target : String) (arguments : Option Json) (function : BoundFunction packWords) :
      Move frame source tally (.function target arguments) (.queue ⟨frame, .call function
        (announced isSilent source function.id (source.callback.chain frame.recorder)) false
        (source.mapPersona Persona.forFunction).clearCallbacks⟩)
  | newTally (target : String) (arguments : Option Json) :
      Move frame source tally (.function target arguments) .newTally
  | talliedCall (target : String) (arguments : Option Json) (function : BoundFunction packWords) :
      Move frame source tally (.function target arguments) (.queue ⟨frame, .call function
        (announced isSilent source function.id [.tally tally]) false
        (source.mapPersona Persona.forFunction).clearCallbacks⟩)
  | total (target : String) (arguments : Option Json) :
      Move frame source tally (.function target arguments) (.queue ⟨frame,
        .deferred (Control.deliverTally tally (source.callback.chain frame.recorder))⟩)
  | opened (target : String) (index : Nat) :
      Move frame source tally (.debug target) (.update (World.add (.traceOpened index)))
  | attach (target : String) (index : Nat) :
      Move frame source tally (.debug target) (.attach (.opened index))
  | failed (target : String) (text : String) :
      Move frame source tally (.debug target) (.update (source.persona.sendFailure text))
  | heading (target : String) (index : Nat) (text : String) :
      Move frame source tally (.debug target) (.queue ⟨frame,
        .deferred (PackEngine.tell (World.add (.traced (.opened index) (.heading text))))⟩)
  | tracedCall (target : String) (trace : DebugTrace) (own : trace.source = source)
      (function : BoundFunction packWords) :
      Move frame source tally (.debug target)
        (.queue ⟨frame, .call function Callback.empty false trace.traced⟩)
  | closing (target : String) (index : Nat) (text : String) :
      Move frame source tally (.debug target)
        (.queue ⟨frame, .deferred (traceClosing index source text)⟩)
  | deliver {action : CallAction} {outcome : Outcome} (returned : action.returned? = some outcome) :
      Move frame source tally action (.deliver source.callback outcome)
  | returnFrom {action : CallAction} {outcome : Outcome}
      (returned : action.returned? = some outcome) :
      Move frame source tally action (.returnFrom frame outcome)

section

variable {pack : Pack} {frame : Frame packWords} {source : PackSource} {flags : Flags}
  {m : Machine packWords}

theorem callFunctions_operations {target : String} {arguments : Option Json} :
    ∀ operation ∈ (callFunctions pack target arguments source flags).operations (packRules pack)
      frame m,
      CallAction.Move frame source m.heap.tallies.size (.function target arguments) operation := by
  unfold callFunctions
  cases pack.library.resolve target with
  | error error => exact fun _ member => absurd member List.not_mem_nil
  | ok functions =>
    intro operation member
    obtain rfl | member := List.mem_cons.mp member
    · exact .tell target arguments functions
    · change operation ∈ (queueFunctions isSilent functions arguments source
        (source.mapPersona Persona.forFunction) flags).operations _ _ _ at member
      rw [queueFunctions_operations] at member
      split at member
      · cases member
      · dsimp only at member
        split at member
        · simp only [List.mem_append, List.mem_map, List.mem_singleton] at member
          obtain ⟨function, _, rfl⟩ | rfl := member
          · exact .returnCall target arguments function
          · exact .fallthrough target arguments
        · split at member
          · obtain ⟨function, _, rfl⟩ := List.mem_map.mp member
            exact .call target arguments function
          · simp only [List.cons_append, List.mem_cons, List.mem_append, List.mem_map,
              List.not_mem_nil, or_false] at member
            obtain rfl | ⟨function, _, rfl⟩ | rfl := member
            · exact .newTally target arguments
            · exact .talliedCall target arguments function
            · exact .total target arguments

theorem debugTrace_moves {target : String} {tally : TallyId} :
    ∀ operation ∈ (debugTrace pack target source flags).operations (packRules pack) frame m,
      CallAction.Move frame source tally (.debug target) operation := by
  intro operation member
  obtain ⟨tells, _⟩ | ⟨_, _, trace, rfl, _, rfl, _, opens⟩ :=
    debugTrace_operations pack frame target source flags m
  · obtain ⟨text, rfl⟩ := tells operation member
    exact .failed target text
  · rw [opens] at member
    obtain rfl | rfl | traced | rfl := DebugTrace.mem_opening member
    · exact .opened target trace.index
    · exact .attach target trace.index
    · obtain ⟨function, among, traced⟩ := List.mem_flatMap.mp traced
      obtain ⟨text, rfl⟩ | ⟨entry, queued, rfl⟩ := DebugTrace.mem_tracing traced
      · exact .failed target text
      · obtain ⟨text, rfl⟩ | ⟨function, rfl⟩ :=
          DebugTrace.mem_calls (List.mem_flatMap.mpr ⟨function, among, queued⟩)
        · exact .heading target trace.index text
        · exact .tracedCall target trace rfl function
    · exact .closing target trace.index trace.summary

theorem CallAction.moves (action : CallAction) :
    ∀ operation ∈ (action.perform pack source flags).operations (packRules pack) frame m,
      action.Move frame source m.heap.tallies.size operation := by
  have returns {action : CallAction} {outcome : Outcome}
      (returned : action.returned? = some outcome) :
      ∀ operation ∈ (returnNow source outcome).operations (packRules pack) frame m,
        action.Move frame source m.heap.tallies.size operation := by
    intro operation member
    simp only [returnNow, bind, Procedure.bind, Control.deliver, Control.returnWith,
      Procedure.operations, List.mem_cons, List.not_mem_nil, or_false] at member
    obtain rfl | rfl := member
    · exact .deliver returned
    · exact .returnFrom returned
  cases action with
  | function target arguments => exact callFunctions_operations
  | debug target => exact debugTrace_moves
  | returnValue value => exact returns rfl
  | returnFail => exact returns rfl

end

end PackEngine
