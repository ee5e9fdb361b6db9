import PackEngine.Engine.Call
import PackEngine.Pack.Document

/-! Binding arguments to the raw lines of a function: every string has its placeholders `$(name)`
replaced, one parameter after the other. -/
namespace PackEngine

namespace Placeholder

/-- Every occurrence of a nonempty pattern, from left to right. -/
def replaceAll (pattern replacement : List Char) : List Char → List Char
  | [] => []
  | c :: cs =>
      if pattern.isPrefixOf (c :: cs) then
        replacement ++ replaceAll pattern replacement (cs.drop (pattern.length - 1))
      else c :: replaceAll pattern replacement cs
termination_by text => text.length
decreasing_by
  · rw [List.length_drop, List.length_cons]
    omega
  · exact Nat.lt_succ_self _

structure Binding where
  /-- The placeholder as it stands in text. -/
  key : String
  value : Json

def keyOf (param : String) : String := "$(" ++ param ++ ")"

/-- A string stands for itself inside text, any other value for its compact text. -/
def inText : Json → String
  | .str s => s
  | other => other.compact

def replaceIn (text : String) (binding : Binding) : String :=
  String.ofList (replaceAll binding.key.toList (inText binding.value).toList text.toList)

/-- A string that is exactly one placeholder becomes the argument itself. -/
def substituteText (bindings : List Binding) (text : String) : Json :=
  match bindings.find? (·.key == text) with
  | some binding => binding.value
  | none => .str (bindings.foldl replaceIn text)

mutual

def substitute (bindings : List Binding) : Json → Json
  | .str text => substituteText bindings text
  | .arr items => .arr (substituteItems bindings items)
  | .obj members => .obj (substituteMembers bindings members)
  | .null => .null
  | .bool b => .bool b
  | .num n => .num n

def substituteItems (bindings : List Binding) : List Json → List Json
  | [] => []
  | item :: rest => substitute bindings item :: substituteItems bindings rest

def substituteMembers (bindings : List Binding) : List (String × Json) → List (String × Json)
  | [] => []
  | (key, item) :: rest => (key, substitute bindings item) :: substituteMembers bindings rest

end

end Placeholder

namespace FunctionDef

def hasParams (d : FunctionDef) : Bool := !d.params.isEmpty

def missing (d : FunctionDef) (given : List (String × Json)) : List String :=
  d.params.filter fun p => (valueAt? p given).isNone

def bindings (d : FunctionDef) (given : List (String × Json)) : List Placeholder.Binding :=
  d.params.filterMap fun p => (valueAt? p given).map (⟨Placeholder.keyOf p, ·⟩)

def boundLines (d : FunctionDef) (arguments : Option Json) :
    Except InstantiationError (List Json) := do
  let given ← checkCompound arguments
  if d.hasParams then
    match given with
    | none => throw (.missingArguments d.params)
    | some members =>
        if (d.missing members).isEmpty then
          return d.lines.map (Placeholder.substitute (d.bindings members))
        else throw (.missingArguments (d.missing members))
  else return d.lines

end FunctionDef

end PackEngine
