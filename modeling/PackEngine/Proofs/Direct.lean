import PackEngine.Proofs.Openings

/-! Runs in direct style. Lines and functions are evaluated by recursion, and a return is an early
exit: nothing is put on a stack or a queue, and nothing is dropped from one. -/
namespace PackEngine.Direct

structure Play where
  scene : Scene packWords
  tracer : Option TracerId
  /-- Leaf executions and function calls so far. -/
  executed : Nat

namespace Play

variable (p : Play)

def charge : Play := { p with executed := p.executed + 1 }

def tell (change : World → World) : Play :=
  { p with scene := { p.scene with setting := change p.scene.setting } }

def trace (event : TraceEvent) : Play :=
  match p.tracer with
  | none => p
  | some tracer => p.tell (World.add (.traced tracer (.event event)))

def report (source : PackSource) (error : CommandError) (forked : Bool) : Play :=
  (p.trace (.error error.message)).tell (source.persona.handleError error forked)

def deliver (pack : Pack) (callback : Callback packWords) (outcome : Outcome) : Play :=
  { p with scene := callback.deliver (packRules pack) outcome p.scene }

def deliverTally (pack : Pack) (tally : TallyId) (callback : Callback packWords) : Play :=
  { p with scene := callback.deliverTally (packRules pack) tally p.scene }

def withHeap (heap : Heap packWords) : Play := { p with scene := { p.scene with heap := heap } }

def record (slot : SlotId) (outcome : Outcome) : Play :=
  p.withHeap (p.scene.heap.record slot outcome)

end Play

/-- How an evaluation ends: work goes on after it, or everything is left up to the nearest frame
that was not entered by a return call. -/
inductive Exit where
  | onward
  | left
deriving DecidableEq, Repr

/-- The result is `none` if functions call each other more deeply than expected. -/
abbrev Eval := Play → Option (Exit × Play)

namespace Eval

def done : Eval := fun p => some (.onward, p)

def leave : Eval := fun p => some (.left, p)

def effect (change : Play → Play) : Eval := fun p => some (.onward, change p)

def andThen (first second : Eval) : Eval := fun p =>
  match first p with
  | some (.onward, p) => second p
  | other => other

def each : List Eval → Eval
  | [] => done
  | first :: rest => first.andThen (each rest)

def confine (body : Eval) : Eval := fun p => (body p).map fun (_, p) => (.onward, p)

end Eval

structure Activation where
  depth : Nat
  sink : Callback packWords
  slot : SlotId

structure Setup where
  pack : Pack
  /-- Sources one stage may produce. -/
  forks : Nat
  /-- Each source of a function line makes its calls before the next source is looked at. -/
  inTurn : Bool

/-- How functions are called: from an activation, with a callback for the result, by a return call
or not, under a source. -/
abbrev Caller :=
  Activation → BoundFunction packWords → Callback packWords → Bool → PackSource → Eval

section

variable (setup : Setup) (call : Caller) (act : Activation)

def evalReturn (outcome : Outcome) : Eval := fun p =>
  some (.left, p.deliver setup.pack act.sink outcome)

def evalEnd : Eval := fun p =>
  match p.scene.heap.recorded act.slot with
  | some outcome => evalReturn setup act outcome p
  | none => some (.onward, p)

def evalLeaf (line : LeafLine packWords) (source : PackSource) : Eval := fun p =>
  let result := (line.leaf.perform source p.scene.setting).1
  let p := p.charge.tell fun w => (line.leaf.perform source w).2
  let (outcome, p) : Outcome × Play :=
    match result with
    | .ok value => (Outcome.ok value, p.trace (.returned act.depth line.input value))
    | .error error =>
        (Outcome.failure, (p.report source error line.flags.forked).trace
          (.returned act.depth line.input 0))
  let p := (p.deliver setup.pack source.callback outcome).record act.slot outcome
  if line.flags.isReturn then evalReturn setup act outcome p else some (.onward, p)

def refuse (source : PackSource) (error : CommandError) (forked : Bool) (p : Play) : Play :=
  ((p.report source error forked).deliver setup.pack source.callback Outcome.failure).record
    act.slot Outcome.failure

def prepareBound (bound : List (BoundFunction packWords)) (source : PackSource) (flags : Flags)
    (p : Play) : Play × Eval :=
  let calls (callback : Callback packWords) (returnCall : Bool) : List Eval :=
    bound.map fun function =>
      call act function (announced isSilent source function.id callback) returnCall
        (source.mapPersona Persona.forFunction).clearCallbacks
  if flags.isReturn then
    (p, .each (calls (source.callback.chain act.sink) true ++
      [evalReturn setup act Outcome.failure]))
  else
    let sink := source.callback.chain [.slot act.slot]
    if bound.length == 1 || source.callback.isEmpty then (p, .each (calls sink false))
    else
      let tally := p.scene.heap.newTally.1
      (p.withHeap p.scene.heap.newTally.2, .each (calls [.tally tally] false ++
        [.effect (·.deliverTally setup.pack tally sink)]))

def prepareCalls (target : String) (arguments : Option Json) (source : PackSource) (flags : Flags)
    (p : Play) : Play × Eval :=
  match setup.pack.library.resolve target with
  | .error error => (refuse setup act source error flags.forked p, .done)
  | .ok functions =>
      let p := p.tell (source.persona.sendSuccess (runningText functions))
      match FunctionRef.instantiateAll arguments functions with
      | .error error => (refuse setup act source error flags.forked p, .done)
      | .ok bound => prepareBound setup call act bound source flags p

def prepareTraced (index : Nat) (source traced : PackSource) :
    List (FunctionRef packWords) → Play → Nat × Play × List Eval
  | [], p => (0, p, [])
  | function :: rest, p =>
      match function.bind none with
      | .error error =>
          prepareTraced index source traced rest
            (p.tell (source.persona.sendFailure error.message))
      | .ok lines =>
          let (more, p, evals) := prepareTraced index source traced rest p
          (lines.length + more, p,
            .effect (·.tell (World.add (.traced (.opened index)
              (PrintItem.heading function.id.render)))) ::
            call act ⟨function.id, lines⟩ Callback.empty false traced :: evals)

def prepareDebug (target : String) (source : PackSource) (flags : Flags) (p : Play) :
    Play × Eval :=
  if flags.isReturn then
    (refuse setup act source (.usage .returnRunTrace) flags.forked p, .done)
  else if p.tracer.isSome then
    (refuse setup act source (.usage .tracerAlreadyAttached) flags.forked p, .done)
  else
    match setup.pack.library.resolve target with
    | .error error => (refuse setup act source error flags.forked p, .done)
    | .ok functions =>
        if p.scene.setting.tracesWritable then
          let index := p.scene.setting.traces
          let file := p.scene.setting.traceFile
          let traced := source.mapPersona fun persona =>
            (persona.withOutput (.trace index)).withMaximumPermission
              Persona.functionPermission
          let (commands, p, evals) := prepareTraced call act index source traced functions
            { p.tell (World.add (.traceOpened index)) with tracer := some (.opened index) }
          let closing (p : Play) : Play :=
            ({ p with tracer := none }.tell (World.add (.traced (.opened index) .flush))).tell
              (source.persona.sendSuccess (tracedText functions commands file))
          (p, .each (evals ++ [.effect closing]))
        else (p.tell (source.persona.sendFailure "Tracing failed"), .done)

/-- One source of a line that ends in an action: what it does at once, and what is left to do. -/
def prepare (action : CallAction) (source : PackSource) (flags : Flags) (p : Play) : Play × Eval :=
  match action with
  | .function target arguments => prepareCalls setup call act target arguments source flags p
  | .returnValue value =>
      ((p.deliver setup.pack source.callback (Outcome.ok value)).deliver setup.pack act.sink
        (Outcome.ok value), .leave)
  | .returnFail =>
      ((p.deliver setup.pack source.callback Outcome.failure).deliver setup.pack act.sink
        Outcome.failure, .leave)
  | .debug target => prepareDebug setup call act target source flags p

def prepareAll (action : CallAction) (flags : Flags) :
    List PackSource → Play → Play × List Eval
  | [], p => (p, [])
  | source :: rest, p =>
      let (p, later) := prepare setup call act action source flags p
      let (p, others) := prepareAll action flags rest p
      (p, later :: others)

def evalTogether (action : CallAction) (flags : Flags) (sources : List PackSource) : Eval :=
  fun p =>
    let (p, evals) := prepareAll setup call act action flags sources p
    Eval.each evals p

def evalAction (action : CallAction) (flags : Flags) (sources : List PackSource) : Eval :=
  match action, setup.inTurn with
  | .function _ _, true =>
      .each (sources.map fun source => evalTogether setup call act action flags [source])
  | _, _ => evalTogether setup call act action flags sources

def evalFinish (input : String) (executable : Executable packWords) (flags : Flags)
    (sources : List PackSource) : Eval :=
  if sources.isEmpty then
    if flags.isReturn then evalReturn setup act Outcome.failure else .done
  else
    match executable with
    | .leaf leaf =>
        .each ((if flags.isReturn then sources.take 1 else sources).map
          (evalLeaf setup act ⟨leaf, input, flags⟩))
    | .action action => evalAction setup call act action flags sources

def evalCondition (polarity : Polarity) (bound : List (BoundFunction packWords)) (cell : CellId)
    (source : PackSource) : Eval := fun p =>
  let inner : Activation := ⟨act.depth + 1,
    [.collect cell polarity source.persona source.callback], p.scene.heap.newSlot.1⟩
  let calls := bound.map fun function =>
    call inner function inner.sink true
      (PackSource.mapPersona Persona.forFunction source.clearCallbacks)
  Eval.confine (.each (calls ++ [evalReturn setup inner Outcome.failure]))
    (p.withHeap p.scene.heap.newSlot.2)

def conditionFunctions (condition : Condition) :
    Except CommandError (List (BoundFunction packWords)) := do
  let functions ← setup.pack.library.resolve condition.target
  FunctionRef.instantiateAll none functions

def evalStages (issuer : PackSource) (input : String) (executable : Executable packWords) :
    List (Modifier packWords) → Flags → List PackSource → Eval
  | [], flags, sources => evalFinish setup call act input executable flags sources
  | modifier :: rest, flags, sources => fun p =>
      let flags := flags.union modifier.flags
      let through (produced : List PackSource) : Option (Exit × Play) :=
        if setup.forks < produced.length then
          some (.onward, p.report issuer (.forkLimitReached setup.forks) flags.forked)
        else evalStages issuer input executable rest flags produced p
      match modifier.action with
      | .keep => through sources
      | .redirect redirect =>
          through (sources.flatMap fun source => redirect.produce source p.scene.setting)
      | .gate condition =>
          match conditionFunctions setup condition with
          | .error error => some (.onward, p.report issuer error flags.forked)
          | .ok bound =>
              let cell := p.scene.heap.newCell.1
              let conditions := sources.map fun source =>
                evalCondition setup call act condition.polarity bound cell source
              Eval.andThen (.each conditions) (fun p =>
                evalStages issuer input executable rest flags (p.scene.heap.collected cell)
                  (p.withHeap (p.scene.heap.emptyCell cell))) (p.withHeap p.scene.heap.newCell.2)

def evalLine (source : PackSource) (chain : Chain packWords) : Eval := fun p =>
  evalStages setup call act source chain.input chain.executable chain.modifiers Flags.none
    [source] (p.trace (.command act.depth chain.input))

def evalBody (function : BoundFunction packWords) (callback : Callback packWords)
    (returnCall : Bool) (source : PackSource) : Eval := fun p =>
  let p := p.charge.trace (.call act.depth function.id function.lines.length)
  let callee : Activation := ⟨act.depth + 1, callback, p.scene.heap.newSlot.1⟩
  let body := Eval.andThen (.each (function.lines.map (evalLine setup call callee source)))
    (evalEnd setup callee)
  if returnCall then body (p.withHeap p.scene.heap.newSlot.2)
  else body.confine (p.withHeap p.scene.heap.newSlot.2)

end

/-- Calls whose nesting does not exceed the fuel. -/
def evalCall (setup : Setup) : Nat → Caller
  | 0 => fun _ _ _ _ _ _ => none
  | fuel + 1 => evalBody setup (evalCall setup fuel)

def evalSeeds (setup : Setup) (fuel : Nat) (source : PackSource) :
    SlotId → List (BoundFunction packWords) → Eval
  | _, [] => .done
  | slot, function :: rest =>
      Eval.andThen
        (evalCall setup fuel ⟨0, Callback.empty, slot⟩ function [.host (.finished function.id)]
          false source)
        (evalSeeds setup fuel source (slot + 1) rest)

def runTarget (pack : Pack) (inTurn : Bool) (fuel : Nat) (request : RunRequest) (w : World) :
    Option (Except RunError RunReport × World) :=
  match request.functions pack with
  | .error error => some (.error (.command error), w)
  | .ok functions =>
      let slots := Array.replicate functions.length none
      let p : Play := ⟨⟨{ slots := slots }, w⟩, if request.traced then some .given else none, 0⟩
      (evalSeeds ⟨pack, request.limits.forks, inTurn⟩ fuel request.source 0 functions p).map
        fun (_, p) => (.ok ⟨Journal.results (p.scene.setting.effectsSince w.journal.size),
          p.executed⟩, p.scene.setting)

end PackEngine.Direct
