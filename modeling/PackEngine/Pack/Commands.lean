import PackEngine.Engine.Step
import PackEngine.Pack.Codec
import PackEngine.Pack.Pack
import PackEngine.Pack.Placeholder
import PackEngine.Pack.Source

/-! What the lines of a pack do. A line becomes a chain with one stage for its return mark, one
for each modifier, and its action at the end. -/
namespace PackEngine

def LineModifier.stage : LineModifier → Modifier packWords
  | .redirect (.entities targets) => Modifier.fork (V := packWords) (.entities targets)
  | .redirect r => Modifier.redirect (V := packWords) r
  | .condition c => Modifier.gated (V := packWords) c

def LineAction.executable : LineAction → Executable packWords
  | .leaf l => .leaf l
  | .call c => .action c

namespace CommandLine

def stages (line : CommandLine) : List (Modifier packWords) :=
  (if line.isReturn then [Modifier.returnRun] else []) ++ line.modifiers.map LineModifier.stage

def compile (line : CommandLine) : Chain packWords :=
  ⟨line.render, line.stages, line.action.executable⟩

/-- Decodes and compiles raw lines; `index` numbers the first of them. -/
def compileAll (index : Nat) : List Json → Except InstantiationError (List (Chain packWords))
  | [] => .ok []
  | raw :: rest =>
      match Decode.commandLine raw with
      | .error error => .error (.invalidLine index error.message)
      | .ok line => (compileAll (index + 1) rest).map (line.compile :: ·)

end CommandLine

def FunctionDef.instantiate (d : FunctionDef) (arguments : Option Json) :
    Except InstantiationError (List (Chain packWords)) :=
  match d.boundLines arguments with
  | .error error => .error error
  | .ok lines => CommandLine.compileAll 1 lines

namespace Pack

def ref? (pack : Pack) (id : FunctionId) : Option (FunctionRef packWords) :=
  (pack.definition? id).map fun d => ⟨id, d.instantiate⟩

def library (pack : Pack) : Library packWords where
  function? := pack.ref?
  tag? id := (pack.tags.find? (·.1 == id)).map fun (_, ids) => ids.filterMap pack.ref?

end Pack

def withinBounds (low high : Option Int32) (value : Int32) : Bool :=
  low.all (· ≤ value) && high.all (value ≤ ·)

def Redirect.produce (source : PackSource) (w : World) : Redirect → List PackSource
  | .entities targets => targets.map fun t => source.mapPersona (·.withEntity t)
  | .position p => [source.mapPersona (·.withPosition p)]
  | .dimension d => [source.mapPersona (·.withDimension d)]
  | .scoreWithin holder objective low high =>
      match w.score (source.persona.holder holder) objective with
      | some n => if withinBounds low high n then [source] else []
      | none => []
  | .store stored holder objective =>
      [source.chainCallback [.host (.score stored (source.persona.holder holder) objective)]]

def LeafAction.perform (source : PackSource) (w : World) :
    LeafAction → Except CommandError Int32 × World
  | .say message => (.ok 1, w.print source.persona.displayName message)
  | .value n => (.ok n, w)
  | .fail message => (.error (.failed message), w)
  | .add holder objective amount =>
      let holder := source.persona.holder holder
      let (now, w) := w.addScore holder objective amount
      (.ok now, source.persona.sendSuccess ("Added " ++ toString amount.toInt ++ " to [" ++
        objective ++ "] for " ++ holder ++ " (now " ++ toString now.toInt ++ ")") w)
  | .get holder objective =>
      let holder := source.persona.holder holder
      match w.score holder objective with
      | some n =>
          (.ok n, source.persona.sendSuccess
            (holder ++ " has " ++ toString n.toInt ++ " [" ++ objective ++ "]") w)
      | none =>
          (.error (.failed ("Can't get value of " ++ objective ++ " for " ++ holder ++
            "; none is set")), w)

def isSilent (persona : Persona) : Bool := persona.silent

def tell (change : World → World) : Control packWords Unit := Control.update (V := packWords) change

def runningText (functions : List (FunctionRef packWords)) : String :=
  match functions with
  | [single] => "Running function " ++ single.id.render
  | many => "Running functions " ++ String.intercalate ", " (many.map (·.id.render))

def callFunctions (pack : Pack) (target : String) (arguments : Option Json) (source : PackSource)
    (flags : Flags) : Control packWords Unit := do
  let functions ← Control.ofExcept (pack.library.resolve target)
  tell (source.persona.sendSuccess (runningText functions))
  queueFunctions isSilent functions arguments source (source.mapPersona Persona.forFunction) flags

/-- The explicit return of a value: first the source's callback hears it, then the frame
returns. -/
def returnNow (source : PackSource) (outcome : Outcome) : Control packWords Unit := do
  Control.deliver source.callback outcome
  Control.returnWith outcome

def tracedText (functions : List (FunctionRef packWords)) (commands : Nat) (file : String) :
    String :=
  let whom :=
    match functions with
    | [single] => "function " ++ single.id.render
    | many => toString many.length ++ " functions"
  "Traced " ++ toString commands ++ " command(s) from " ++ whom ++ " to output file " ++ file

/-- Queues a heading and a call for each function that needs no arguments; the source is told
about the others. Answers the number of lines queued. -/
def queueTraced (index : Nat) (source traced : PackSource) :
    List (FunctionRef packWords) → Control packWords Nat
  | [] => return 0
  | function :: rest =>
      match function.bind none with
      | .error error => do
          tell (source.persona.sendFailure error.message)
          queueTraced index source traced rest
      | .ok lines => do
          let heading := PrintItem.heading function.id.render
          Control.queue (.deferred (tell (World.add (.traced (.opened index) heading))))
          Control.queue (.call ⟨function.id, lines⟩ Callback.empty false traced)
          let more ← queueTraced index source traced rest
          return lines.length + more

/-- Runs functions with a tracer attached that writes to a file, and takes it off after them. -/
def debugTrace (pack : Pack) (target : String) (source : PackSource) (flags : Flags) :
    Control packWords Unit := do
  if flags.isReturn then Control.fail (.usage .returnRunTrace)
  let view ← Control.look
  if view.traced then Control.fail (.usage .tracerAlreadyAttached)
  let functions ← Control.ofExcept (pack.library.resolve target)
  let world ← Control.consult (V := packWords)
  if world.tracesWritable then
    let index := world.traces
    tell (World.add (.traceOpened index))
    Control.attach (V := packWords) (.opened index)
    let traced := source.mapPersona fun p =>
      (p.withOutput (.trace index)).withMaximumPermission Persona.functionPermission
    let commands ← queueTraced index source traced functions
    let closing : Control packWords Unit := do
      let _ ← Control.detach
      tell (World.add (.traced (.opened index) .flush))
      tell (source.persona.sendSuccess (tracedText functions commands world.traceFile))
    Control.queue (.deferred closing)
  else
    tell (source.persona.sendFailure "Tracing failed")

def CallAction.perform (pack : Pack) (source : PackSource) (flags : Flags) :
    CallAction → Control packWords Unit
  | .function target arguments => callFunctions pack target arguments source flags
  | .returnValue value => returnNow source (Outcome.ok value)
  | .returnFail => returnNow source Outcome.failure
  | .debug target => debugTrace pack target source flags

def Condition.schedule (pack : Pack) (condition : Condition) (issuer : PackSource)
    (sources : List PackSource) (chain : Chain packWords) (flags : Flags) :
    Control packWords Unit := do
  let functions ← Control.ofExcept (pack.library.resolve condition.target)
  scheduleConditions (PackSource.mapPersona Persona.forFunction) condition.polarity functions
    issuer sources chain flags

def packRules (pack : Pack) : Rules packWords where
  isSilent := isSilent
  hear listener outcome w := listener.hear outcome w
  handleError persona error forked w := persona.handleError error forked w
  announce persona function outcome w := persona.announceResult function.render outcome w
  observe tracer event w := w.add (.traced tracer (.event event))
  redirect r source w := .ok (r.produce source w)
  leaf l source w := l.perform source w
  gate condition issuer sources chain flags :=
    condition.schedule pack issuer sources chain flags
  act action source _ flags := action.perform pack source flags

end PackEngine
