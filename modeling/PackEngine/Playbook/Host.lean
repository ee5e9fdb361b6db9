import PackEngine.Engine.Call
import PackEngine.Engine.Step
import PackEngine.Playbook.Deed

/-! The host of a playbook: its sources are names, and all that happens to them is one log. -/
namespace PackEngine.Playbook

structure Persona where
  name : String
  loud : Bool

structure Info where
  depth : Nat
  boundary : Boundary
  recorded : Option Outcome
  hasSink : Bool
  traced : Bool
  forkLimit : Nat

inductive Event where
  | callback (name : String) (outcome : Outcome)
  | error (source : String) (error : CommandError) (forked : Bool)
  | functionResult (source : String) (function : FunctionId) (outcome : Outcome)
  | trace (event : TraceEvent)
  | modify (issuer : String) (sources : List String) (flags : Flags) (remaining : Nat)
  | leaf (label source : String)
  | custom (source : String) (flags : Flags)
  | actionError (error : CommandError)
  | log (text : String)
  | queue (kind : String)
  | info (info : Info)
  | took (wasAttached : Bool)

structure Setting where
  log : Array Event := #[]
  cells : List (String × CellId) := []

def Setting.add (event : Event) (s : Setting) : Setting := { s with log := s.log.push event }

inductive GateSpec where
  | condition (polarity : Polarity) (target suffix : String)
  | resume (names : List String)
  | perform (deeds : List Deed)

inductive ActionSpec where
  | call (target : String) (arguments : Option Json)
  | perform (deeds : List Deed)

abbrev words : Vocabulary where
  Persona := Persona
  Listener := String
  Setting := Setting
  Tracer := Unit
  Redirect := RedirectSpec
  Gate := GateSpec
  Leaf := LeafSpec
  Action := ActionSpec

def namedCallback : Option String → Callback words
  | none => Callback.empty
  | some name => [.host name]

def SourceSpec.source (spec : SourceSpec) : Source words :=
  ⟨⟨spec.name, spec.loud⟩, namedCallback spec.callback⟩

/-- A stage of the same kind, and its executable. -/
def StageSpec.modifier : StageSpec → Modifier words
  | .redirect true r => Modifier.fork (V := words) r
  | .redirect false r => Modifier.redirect (V := words) r
  | .returnRun => Modifier.returnRun
  | .condition polarity target suffix =>
      Modifier.gated (V := words) (.condition polarity target suffix)
  | .resume names => Modifier.gated (V := words) (.resume names)
  | .perform deeds => Modifier.gated (V := words) (.perform deeds)

def ExecutableSpec.executable : ExecutableSpec → Executable words
  | .leaf spec => .leaf spec
  | .call target arguments => .action (.call target arguments)
  | .perform deeds => .action (.perform deeds)

def ChainSpec.chain : ChainSpec → Chain words
  | .make input stages executable =>
      ⟨input, stages.map StageSpec.modifier, executable.executable⟩

/-- Functions and tags; members without a function are left out of a tag. -/
structure Book where
  functions : List (FunctionId × List ChainSpec)
  tags : List (FunctionId × List String)

namespace Book

/-- Entries under the names they are written with. Of two that name the same, the later one
counts. -/
def named (entries : List (String × α)) : List (FunctionId × α) :=
  entries.reverse.filterMap fun (name, value) =>
    (FunctionId.parse name).toOption.map (·, value)

def ofNames (functions : List (String × List ChainSpec)) (tags : List (String × List String)) :
    Book :=
  ⟨named functions, named tags⟩

def function? (book : Book) (id : FunctionId) : Option (FunctionRef words) :=
  (book.functions.find? (·.1 == id)).map fun (_, lines) =>
    FunctionRef.plain id (lines.map ChainSpec.chain)

def member? (book : Book) (name : String) : Option (FunctionRef words) :=
  match FunctionId.parse name with
  | .ok id => book.function? id
  | .error _ => none

def library (book : Book) : Library words where
  function? := book.function?
  tag? id := (book.tags.find? (·.1 == id)).map fun (_, members) =>
    members.filterMap book.member?

end Book

def addEvent (event : Event) : Control words Unit := Control.update (V := words) (Setting.add event)

def withName (source : Source words) (name : String) : Source words :=
  { source with persona := { source.persona with name } }

/-- Every dollar sign of the pattern stands for the name so far. -/
def rename (source : Source words) (pattern : String) : Source words :=
  withName source (pattern.replace "$" source.persona.name)

/-- The name with a suffix, which is taken as it is. -/
def suffixed (suffix : String) (source : Source words) : Source words :=
  withName source (source.persona.name ++ suffix)

/-- The cell of a name, created when the name is new. -/
def cell (name : String) : Control words CellId := do
  let setting ← Control.consult (V := words)
  match setting.cells.find? (·.1 == name) with
  | some (_, id) => return id
  | none =>
      let id ← Control.newCell
      Control.update (V := words) fun s => { s with cells := (name, id) :: s.cells }
      return id

def firstBound (book : Book) (target : String) (arguments : Option Json) :
    Except CommandError (BoundFunction words) := do
  let functions ← book.library.resolve target
  match ← FunctionRef.instantiateAll arguments functions with
  | [] => throw (.noFunctions target)
  | bound :: _ => return bound

mutual

def deed (book : Book) : Deed → Control words Unit
  | .log text => addEvent (.log text)
  | .queue spec => do
      let made ← task book spec
      addEvent (.queue made.kind)
      Control.queue made
  | .returnWith outcome => Control.returnWith outcome
  | .record outcome => Control.record outcome
  | .consume outcome => do
      let view ← Control.look
      Control.deliver view.frame.sink outcome
  | .collect name source => do
      let id ← cell name
      Control.collect id source.source
  | .fail message => Control.fail (.failed message)
  | .report source message forked => Control.report source.source (.failed message) forked
  | .attach => Control.attach (V := words) ()
  | .detach => do
      let tracer ← Control.detach (V := words)
      addEvent (.took tracer.isSome)
  | .info => do
      let view ← Control.look
      addEvent (.info ⟨view.frame.depth, view.frame.boundary, view.recorded,
        !view.frame.sink.isEmpty, view.traced, view.limits.forks⟩)

/-- Deeds are done in order; the first error stops them. -/
def deeds (book : Book) : List Deed → Control words Unit
  | [] => return
  | first :: rest => do
      deed book first
      deeds book rest

/-- Makes a task. Errors of deferred deeds are logged when they are done. -/
def task (book : Book) : TaskSpec → Control words (Task words)
  | .deferred list =>
      return .deferred ((deeds book list).recover fun error => addEvent (.actionError error))
  | .isolated list output =>
      return .isolated ((deeds book list).recover fun error => addEvent (.actionError error))
        (namedCallback output)
  | .command chain source => return Task.command chain.chain source.source
  | .fork issuer sources chain forked isReturn =>
      return Task.fork issuer.source (sources.map SourceSpec.source) chain.chain
        ⟨forked, isReturn⟩
  | .continuation issuer name chain forked isReturn => do
      let id ← cell name
      return Task.continuation issuer.source id chain.chain ⟨forked, isReturn⟩
  | .call target arguments callback returnCall source => do
      let bound ← Control.ofExcept (firstBound book target arguments)
      return .call bound (namedCallback callback) returnCall source.source
  | .fallthrough => return .fallthrough

end

def gate (book : Book) (spec : GateSpec) (issuer : Source words) (sources : List (Source words))
    (chain : Chain words) (flags : Flags) : Control words Unit := do
  addEvent (.modify issuer.persona.name (sources.map (·.persona.name)) flags chain.remaining)
  match spec with
  | .condition polarity target suffix =>
      let functions ← Control.ofExcept (book.library.resolve target)
      scheduleConditions (suffixed suffix) polarity functions issuer sources chain flags
  | .resume names =>
      match chain.next? with
      | some next =>
          let copies := sources.flatMap fun s => names.map (rename s)
          Control.queue (Task.fork issuer copies next flags)
      | none => return
  | .perform list => deeds book list

def isSilent (persona : Persona) : Bool := !persona.loud

def act (book : Book) (spec : ActionSpec) (source : Source words) (flags : Flags) :
    Control words Unit := do
  addEvent (.custom source.persona.name flags)
  match spec with
  | .call target arguments =>
      let functions ← Control.ofExcept (book.library.resolve target)
      queueFunctions isSilent functions arguments source source flags
  | .perform list => deeds book list

def redirect : RedirectSpec → Source words → Except CommandError (List (Source words))
  | .copies cases, source =>
      let copies := cases.pick source.persona.name
      match copies.failure with
      | some message => .error (.failed message)
      | none => .ok (copies.names.map (rename source))
  | .loud, source => .ok [{ source with persona := { source.persona with loud := true } }]
  | .callback name, source => .ok [source.chainCallback (namedCallback name)]

def leaf (spec : LeafSpec) (source : Source words) (setting : Setting) :
    Except CommandError Int32 × Setting :=
  let reply := spec.reply.pick source.persona.name
  let result :=
    match reply.failure with
    | some message => .error (.failed message)
    | none => .ok reply.value
  (result, setting.add (.leaf spec.label source.persona.name))

def rules (book : Book) : Rules words where
  isSilent := isSilent
  hear name outcome setting := setting.add (.callback name outcome)
  handleError persona error forked setting := setting.add (.error persona.name error forked)
  announce persona function outcome setting :=
    setting.add (.functionResult persona.name function outcome)
  observe _ event setting := setting.add (.trace event)
  redirect spec source _ := redirect spec source
  leaf := leaf
  gate := gate book
  act spec source _ flags := act book spec source flags

/-! Driving a machine by hand. -/

inductive Step where
  | command (chain : ChainSpec) (source : SourceSpec) (sink : Option String)
  | call (target : String) (arguments : Option Json) (source : SourceSpec)
      (callback : Option String)
  | task (task : TaskSpec)
  | run
  | runTasks (tasks : List TaskSpec)
  | attach
  | detach

inductive Answer where
  | nothing
  | done
  | commandError (error : CommandError)
  | engineError (error : EngineError)
  | usageError (error : UsageError)
  | wasAttached (attached : Bool)

/-- Tasks are made outside any frame of the run. -/
def makeTask (book : Book) (spec : TaskSpec) (m : Machine words) :
    Except CommandError (Task words) × Machine words :=
  (task book spec).run (rules book) ⟨0, Callback.empty, Boundary.forSeed 0, 0⟩ m

def runMachine (book : Book) (turns : Nat) (m : Machine words) : Option (Answer × Machine words) :=
  (m.run (rules book) turns).map fun (verdict, m) =>
    match verdict with
    | .ok () => (.done, m)
    | .error error => (.engineError error, m)

def makeTasks (book : Book) :
    List TaskSpec → Machine words → Except CommandError (List (Task words)) × Machine words
  | [], m => (.ok [], m)
  | spec :: rest, m =>
      match makeTask book spec m with
      | (.error error, m) => (.error error, m)
      | (.ok made, m) =>
          match makeTasks book rest m with
          | (.error error, m) => (.error error, m)
          | (.ok others, m) => (.ok (made :: others), m)

/-- One step; `none` if the turns granted to a run are not enough. -/
def Step.apply (book : Book) (turns : Nat) (m : Machine words) :
    Step → Option (Answer × Machine words)
  | .command chain source sink =>
      some (.nothing, m.seedCommand chain.chain source.source (namedCallback sink))
  | .call target arguments source callback =>
      let bound := (book.library.resolve target).bind (FunctionRef.instantiateAll arguments)
      match bound with
      | .error error => some (.commandError error, m)
      | .ok functions =>
          some (.nothing, functions.foldl (fun m function =>
            m.seedCall function source.source (namedCallback callback)) m)
  | .task spec =>
      match makeTask book spec m with
      | (.ok made, m) => some (.nothing, m.seedTask made)
      | (.error error, m) => some (.commandError error, m)
  | .run => runMachine book turns m
  | .runTasks specs =>
      match makeTasks book specs m with
      | (.ok made, m) => runMachine book turns (made.foldl (fun m t => m.seedTask t) m)
      | (.error error, m) => some (.commandError error, m)
  | .attach =>
      match m.attach () with
      | .ok m => some (.done, m)
      | .error error => some (.usageError error, m)
  | .detach => some (.wasAttached m.tracer.isSome, { m with tracer := none })

def start (limits : Limits) : Machine words := Machine.start limits ⟨{}, {}⟩

/-- The events since the last time, and a machine with an empty log. -/
def takeLog (m : Machine words) : Array Event × Machine words :=
  (m.setting.log, { m with setting := { m.setting with log := #[] } })

end PackEngine.Playbook
