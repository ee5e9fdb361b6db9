import PackEngine.Engine.Call
import PackEngine.Pack.CommandLine
import PackEngine.Text.Quoted
import PackEngine.World

/-! The sources that commands of a pack run under, and the feedback they give. -/
namespace PackEngine

inductive Output where
  | console
  | sink (name : String)
  /-- Into the trace that a command opened. -/
  | trace (index : Nat)
deriving DecidableEq, Repr

structure Persona where
  name : String
  entity : Option String
  position : Position
  dimension : String
  permission : Nat
  silent : Bool
  output : Output
deriving DecidableEq, Repr

inductive Listener where
  | named (name : String)
  /-- A store modifier. -/
  | score (stored : Stored) (holder objective : String)
  /-- The result of a function that a run was started with. -/
  | finished (function : FunctionId)
deriving DecidableEq, Repr

abbrev packWords : Vocabulary where
  Persona := Persona
  Listener := Listener
  Setting := World
  Tracer := TracerId
  Redirect := Redirect
  Gate := Condition
  Leaf := LeafAction
  Action := CallAction

abbrev PackSource := Source packWords

namespace Persona

/-- The console: full permissions. -/
def server : Persona where
  name := "Server"
  entity := none
  position := ⟨Binary64.zero, Binary64.zero, Binary64.zero⟩
  dimension := "minecraft:overworld"
  permission := 4
  silent := false
  output := .console

def displayName (p : Persona) : String := p.entity.getD p.name

def withEntity (p : Persona) (entity : String) : Persona := { p with entity := some entity }

def withPosition (p : Persona) (position : Position) : Persona := { p with position }

def withDimension (p : Persona) (dimension : String) : Persona := { p with dimension }

def withPermission (p : Persona) (permission : Nat) : Persona := { p with permission }

def withMaximumPermission (p : Persona) (permission : Nat) : Persona :=
  p.withPermission (min p.permission permission)

def suppressed (p : Persona) : Persona := { p with silent := true }

def withOutput (p : Persona) (output : Output) : Persona := { p with output }

/-- The permission level functions run at. -/
def functionPermission : Nat := 2

/-- Functions called by a command run quietly, at function permission. -/
def forFunction (p : Persona) : Persona := p.suppressed.withMaximumPermission functionPermission

/-- The name `@s` stands for the executing persona, any other for itself. -/
def holder (p : Persona) (name : String) : String := if name == "@s" then p.displayName else name

def emit (p : Persona) (text : String) (w : World) : World :=
  match p.output with
  | .console => w.print p.displayName text
  | .sink name => w.add (.sent name text)
  | .trace index => w.add (.traced (.opened index) (.message text))

def sendSuccess (p : Persona) (text : String) (w : World) : World :=
  if p.silent then w else p.emit text w

def sendFailure (p : Persona) (text : String) (w : World) : World :=
  if p.silent then w else p.emit ("Error: " ++ text) w

/-- Every error is reported to the world; only those of unforked lines are shown. -/
def handleError (p : Persona) (error : CommandError) (forked : Bool) (w : World) : World :=
  let w := if forked then w else p.sendFailure error.message w
  w.add (.reported p.displayName error.message forked)

def announceResult (p : Persona) (function : String) (outcome : Outcome) (w : World) : World :=
  if outcome.success then
    p.sendSuccess ("Function " ++ function ++ " returned " ++ toString outcome.value.toInt) w
  else w

def describeEntity : Option String → String
  | some entity => "Some(" ++ Quoted.quote entity ++ ")"
  | none => "None"

def describe (p : Persona) : String :=
  let number := NumberLayout.described.render
  "SourceStack \x7b name: " ++ Quoted.quote p.name ++ ", entity: " ++ describeEntity p.entity ++
    ", position: [" ++ number p.position.x ++ ", " ++ number p.position.y ++ ", " ++
    number p.position.z ++ "], dimension: " ++ Quoted.quote p.dimension ++ ", permission: " ++
    toString p.permission ++ ", silent: " ++ toString p.silent ++ " \x7d"

end Persona

def Listener.hear (outcome : Outcome) (w : World) : Listener → World
  | .named name => w.add (.heard name outcome)
  | .score .result holder objective => w.setScore holder objective outcome.value
  | .score .success holder objective =>
      w.setScore holder objective (if outcome.success then 1 else 0)
  | .finished function => w.add (.finished function outcome)

namespace PackSource

def server : PackSource := ⟨Persona.server, Callback.empty⟩

def mapPersona (f : Persona → Persona) (s : PackSource) : PackSource :=
  { s with persona := f s.persona }

end PackSource

end PackEngine
