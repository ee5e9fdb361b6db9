import PackEngine.Engine.Callback
import PackEngine.Json.Value

/-! Command lines of a pack and their text. A line has any number of modifiers and one action,
and may be marked as the return value of its function. -/
namespace PackEngine

structure Position where
  x : Binary64
  y : Binary64
  z : Binary64
deriving DecidableEq, Repr, Inhabited

inductive Stored where
  | result
  | success
deriving DecidableEq, Repr

inductive Redirect where
  /-- One source for each target entity. -/
  | entities (targets : List String)
  | position (position : Position)
  | dimension (dimension : String)
  /-- Keeps the source when a score is set and within the bounds. -/
  | scoreWithin (holder objective : String) (min max : Option Int32)
  /-- Writes every later result of the source into a score. -/
  | store (stored : Stored) (holder objective : String)
deriving DecidableEq, Repr

/-- Keeps the sources for which a function's result passes. -/
structure Condition where
  polarity : Polarity
  target : String
deriving DecidableEq, Repr

inductive LineModifier where
  | redirect (redirect : Redirect)
  | condition (condition : Condition)
deriving DecidableEq, Repr

inductive LeafAction where
  | say (message : String)
  | value (value : Int32)
  | fail (message : String)
  | add (holder objective : String) (amount : Int32)
  | get (holder objective : String)
deriving DecidableEq, Repr

inductive CallAction where
  | function (target : String) (arguments : Option Json)
  | returnValue (value : Int32)
  | returnFail
  | debug (target : String)

inductive LineAction where
  | leaf (leaf : LeafAction)
  | call (call : CallAction)

structure CommandLine where
  modifiers : List LineModifier
  isReturn : Bool
  action : LineAction

def Position.render (p : Position) : String :=
  NumberLayout.plain.render p.x ++ " " ++ NumberLayout.plain.render p.y ++ " " ++
    NumberLayout.plain.render p.z

def renderBound : Option Int32 → String
  | some bound => toString bound.toInt
  | none => ""

def Redirect.render : Redirect → String
  | .entities targets => "as " ++ String.intercalate "," targets
  | .position p => "positioned " ++ p.render
  | .dimension d => "in " ++ d
  | .scoreWithin holder objective low high =>
      "if score " ++ holder ++ " " ++ objective ++ " matches " ++ renderBound low ++ ".." ++
        renderBound high
  | .store .result holder objective => "store result score " ++ holder ++ " " ++ objective
  | .store .success holder objective => "store success score " ++ holder ++ " " ++ objective

def Condition.render : Condition → String
  | ⟨.holds, target⟩ => "if function " ++ target
  | ⟨.fails, target⟩ => "unless function " ++ target

def LineModifier.render : LineModifier → String
  | .redirect r => r.render
  | .condition c => c.render

def LeafAction.render : LeafAction → String
  | .say message => "say " ++ message
  | .value n => "value " ++ toString n.toInt
  | .fail message => "fail " ++ message
  | .add holder objective amount =>
      "scoreboard players add " ++ holder ++ " " ++ objective ++ " " ++ toString amount.toInt
  | .get holder objective => "scoreboard players get " ++ holder ++ " " ++ objective

def CallAction.render : CallAction → String
  | .function target none => "function " ++ target
  | .function target (some arguments) => "function " ++ target ++ " " ++ arguments.compact
  | .returnValue n => "return " ++ toString n.toInt
  | .returnFail => "return fail"
  | .debug target => "debug function " ++ target

def LineAction.render : LineAction → String
  | .leaf l => l.render
  | .call c => c.render

def CommandLine.render (line : CommandLine) : String :=
  let returned := if line.isReturn then "return run " else ""
  let executed :=
    if line.modifiers.isEmpty then ""
    else "execute " ++ String.join (line.modifiers.map fun m => m.render ++ " ") ++ "run "
  returned ++ executed ++ line.action.render

end PackEngine
