import PackEngine.Pack.CommandLine
import PackEngine.Text.Quoted

/-! Command lines as document values. An object is read member by member in key order and the
first problem is reported; an array gives the fields in the order of their declaration. -/
namespace PackEngine

/-- Why a value is no command line. The expectations are texts of the messages. -/
inductive DecodeError where
  | invalidType (found : Json) (expected : String)
  | invalidInteger (found : Int) (expected : String)
  | invalidLength (length : Nat) (expected : String)
  | missingField (name : String)
  | unknownField (name : String) (known : List String)
  | unknownVariant (name : String) (known : List String)

namespace DecodeError

/-- How a value is named where another kind was expected. -/
def describe : Json → String
  | .null => "null"
  | .bool true => "boolean \x60true\x60"
  | .bool false => "boolean \x60false\x60"
  | .num (.int n) => "integer \x60" ++ toString n ++ "\x60"
  | .num (.float x) => "floating point \x60" ++ NumberLayout.compact.render x ++ "\x60"
  | .str s => "string " ++ Quoted.quote s
  | .arr _ => "sequence"
  | .obj _ => "map"

def ticked (name : String) : String := "\x60" ++ name ++ "\x60"

def message : DecodeError → String
  | .invalidType found expected => "invalid type: " ++ describe found ++ ", expected " ++ expected
  | .invalidInteger found expected =>
      "invalid value: integer " ++ ticked (toString found) ++ ", expected " ++ expected
  | .invalidLength length expected =>
      "invalid length " ++ toString length ++ ", expected " ++ expected
  | .missingField name => "missing field " ++ ticked name
  | .unknownField name known =>
      "unknown field " ++ ticked name ++ ", expected one of " ++
        String.intercalate ", " (known.map ticked)
  | .unknownVariant name known =>
      "unknown variant " ++ ticked name ++ ", expected one of " ++
        String.intercalate ", " (known.map ticked)

end DecodeError

abbrev Decoded (α : Type) := Except DecodeError α

namespace Decode

def text : Json → Decoded String
  | .str s => .ok s
  | other => .error (.invalidType other "a string")

def flag : Json → Decoded Bool
  | .bool b => .ok b
  | other => .error (.invalidType other "a boolean")

def int32 : Json → Decoded Int32
  | .num (.int n) =>
      if -(Int.pow 2 31) ≤ n ∧ n < Int.pow 2 31 then .ok (Int32.ofInt n)
      else .error (.invalidInteger n "i32")
  | other => .error (.invalidType other "i32")

def optional (decode : Json → Decoded α) : Json → Decoded (Option α)
  | .null => .ok none
  | other => (decode other).map some

/-- Integers are taken for numbers with a fraction too. -/
def float : Json → Decoded Binary64
  | .num (.int n) => .ok (Binary64.ofInt n)
  | .num (.float x) => .ok x
  | other => .error (.invalidType other "f64")

def all (decode : Json → Decoded α) : List Json → Decoded (List α)
  | [] => .ok []
  | item :: rest => do
      let first ← decode item
      let others ← all decode rest
      return first :: others

def sequence (decode : Json → Decoded α) : Json → Decoded (List α)
  | .arr items => all decode items
  | other => .error (.invalidType other "a sequence")

def counted (count : Nat) : String :=
  if count = 1 then "1 element" else toString count ++ " elements"

/-- An item of a fixed-length array. -/
def coordinate (index : Nat) (items : List Json) : Decoded Binary64 :=
  match items[index]? with
  | some item => float item
  | none => .error (.invalidLength index "an array of length 3")

def position : Json → Decoded Position
  | .arr items => do
      let x ← coordinate 0 items
      let y ← coordinate 1 items
      let z ← coordinate 2 items
      if 3 < items.length then
        throw (.invalidLength items.length ("3 elements in sequence"))
      return ⟨x, y, z⟩
  | other => .error (.invalidType other "an array of length 3")

/-- A field of a variant: its name, and whether it may be left out. -/
structure Field where
  name : String
  optional : Bool := false

/-- Fields of a variant as they were found. -/
abbrev Found := List (String × Json)

/-- What a variant decodes to, from the values of its fields. A value that was left out reads
as null. -/
structure Variant (α : Type) where
  tag : String
  fields : List Field
  /-- Checks one field by itself. -/
  check : String → Json → Decoded Unit
  build : (String → Json) → Decoded α

def Found.value (found : Found) (name : String) : Json := (valueAt? name found).getD .null

/-- The members of known names, checked in the order in which they stand. -/
def checkMembers (variant : Variant α) : List (String × Json) → Decoded Found
  | [] => .ok []
  | (key, item) :: rest =>
      if variant.fields.any (·.name == key) then do
        variant.check key item
        let others ← checkMembers variant rest
        return (key, item) :: others
      else checkMembers variant rest

def missing? (fields : List Field) (found : Found) : Option String :=
  (fields.find? fun f => !f.optional && (valueAt? f.name found).isNone).map (·.name)

def fromMembers (variant : Variant α) (members : List (String × Json)) : Decoded α := do
  let found ← checkMembers variant members
  match missing? variant.fields found with
  | some name => throw (.missingField name)
  | none => variant.build found.value

/-- Fields by position; those at the end that may be left out may be missing. -/
def checkItems (type : String) (variant : Variant α) :
    Nat → List Field → List Json → Decoded Found
  | _, [], _ => .ok []
  | index, f :: fields, [] =>
      if f.optional then checkItems type variant (index + 1) fields []
      else .error (.invalidLength index
        ("struct variant " ++ type ++ "::" ++ variant.tag ++ " with " ++
          counted variant.fields.length))
  | index, f :: fields, item :: rest => do
      variant.check f.name item
      let others ← checkItems type variant (index + 1) fields rest
      return (f.name, item) :: others

def fromItems (type : String) (variant : Variant α) (items : List Json) : Decoded α := do
  let found ← checkItems type variant 0 variant.fields items
  if variant.fields.length < items.length then
    throw (.invalidLength items.length (counted variant.fields.length ++ " in sequence"))
  variant.build found.value

/-- The variant that a tag names. -/
def pick (variants : List (Variant α)) : Json → Decoded (Variant α)
  | .str tag =>
      match variants.find? (·.tag == tag) with
      | some variant => .ok variant
      | none => .error (.unknownVariant tag (variants.map (·.tag)))
  | other => .error (.invalidType other "variant identifier")

/-- A value that carries its variant's tag, in the member `t` or as the first item. -/
def tagged (type : String) (variants : List (Variant α)) : Json → Decoded α
  | .obj members =>
      match valueAt? "t" members with
      | none => .error (.missingField "t")
      | some tag => do
          let variant ← pick variants tag
          fromMembers variant (members.filter (·.1 != "t"))
  | .arr [] => .error (.missingField "t")
  | .arr (tag :: items) => do
      let variant ← pick variants tag
      fromItems type variant items
  | other => .error (.invalidType other ("internally tagged enum " ++ type))

def textFields (names : List String) : List Field := names.map fun name => { name }

def checkText (_ : String) (item : Json) : Decoded Unit := (text item).map fun _ => ()

def modifierVariants : List (Variant LineModifier) :=
  [ { tag := "As", fields := textFields ["targets"]
      check := fun _ item => (sequence text item).map fun _ => ()
      build := fun v => do
        return .redirect (.entities (← sequence text (v "targets"))) },
    { tag := "Positioned", fields := textFields ["pos"]
      check := fun _ item => (position item).map fun _ => ()
      build := fun v => do
        return .redirect (.position (← position (v "pos"))) },
    { tag := "In", fields := textFields ["dimension"]
      check := checkText
      build := fun v => do
        return .redirect (.dimension (← text (v "dimension"))) },
    { tag := "IfScore"
      fields := textFields ["holder", "objective"] ++ [⟨"min", true⟩, ⟨"max", true⟩]
      check := fun name item =>
        if name == "min" || name == "max" then (optional int32 item).map fun _ => ()
        else checkText name item
      build := fun v => do
        return .redirect (.scoreWithin (← text (v "holder")) (← text (v "objective"))
          (← optional int32 (v "min")) (← optional int32 (v "max"))) },
    { tag := "IfFunction", fields := textFields ["function"]
      check := checkText
      build := fun v => do
        return .condition ⟨.holds, ← text (v "function")⟩ },
    { tag := "UnlessFunction", fields := textFields ["function"]
      check := checkText
      build := fun v => do
        return .condition ⟨.fails, ← text (v "function")⟩ },
    { tag := "StoreResult", fields := textFields ["holder", "objective"]
      check := checkText
      build := fun v => do
        return .redirect (.store .result (← text (v "holder")) (← text (v "objective"))) },
    { tag := "StoreSuccess", fields := textFields ["holder", "objective"]
      check := checkText
      build := fun v => do
        return .redirect (.store .success (← text (v "holder")) (← text (v "objective"))) } ]

def actionVariants : List (Variant LineAction) :=
  [ { tag := "Say", fields := textFields ["message"]
      check := checkText
      build := fun v => do
        return .leaf (.say (← text (v "message"))) },
    { tag := "Value", fields := textFields ["value"]
      check := fun _ item => (int32 item).map fun _ => ()
      build := fun v => do
        return .leaf (.value (← int32 (v "value"))) },
    { tag := "Fail", fields := textFields ["message"]
      check := checkText
      build := fun v => do
        return .leaf (.fail (← text (v "message"))) },
    { tag := "Add", fields := textFields ["holder", "objective", "amount"]
      check := fun name item =>
        if name == "amount" then (int32 item).map fun _ => () else checkText name item
      build := fun v => do
        return .leaf (.add (← text (v "holder")) (← text (v "objective"))
          (← int32 (v "amount"))) },
    { tag := "Get", fields := textFields ["holder", "objective"]
      check := checkText
      build := fun v => do
        return .leaf (.get (← text (v "holder")) (← text (v "objective"))) },
    { tag := "Function"
      fields := textFields ["function"] ++ [⟨"arguments", true⟩]
      check := fun name item => if name == "arguments" then .ok () else checkText name item
      build := fun v => do
        return .call (.function (← text (v "function")) (← optional .ok (v "arguments"))) },
    { tag := "Return", fields := textFields ["value"]
      check := fun _ item => (int32 item).map fun _ => ()
      build := fun v => do
        return .call (.returnValue (← int32 (v "value"))) },
    { tag := "ReturnFail", fields := []
      check := checkText
      build := fun _ => return .call .returnFail },
    { tag := "Debug", fields := textFields ["function"]
      check := checkText
      build := fun v => do
        return .call (.debug (← text (v "function"))) } ]

def modifier : Json → Decoded LineModifier := tagged "ModifierSpec" modifierVariants

def action : Json → Decoded LineAction := tagged "ActionSpec" actionVariants

def modifiers : Json → Decoded (List LineModifier) := sequence modifier

structure PartialLine where
  modifiers : List LineModifier := []
  isReturn : Bool := false
  action : Option LineAction := none

def lineFields : List String := ["modifiers", "return", "run"]

def lineMembers (line : PartialLine) : List (String × Json) → Decoded PartialLine
  | [] => .ok line
  | (key, item) :: rest =>
      if key == "modifiers" then do
        lineMembers { line with modifiers := ← modifiers item } rest
      else if key == "return" then do
        lineMembers { line with isReturn := ← flag item } rest
      else if key == "run" then do
        lineMembers { line with action := some (← action item) } rest
      else .error (.unknownField key lineFields)

def lineStruct : String := "struct CommandLine"

def commandLine : Json → Decoded CommandLine
  | .obj members => do
      let line ← lineMembers {} members
      match line.action with
      | none => throw (.missingField "run")
      | some run => return ⟨line.modifiers, line.isReturn, run⟩
  | .arr (first :: second :: third :: rest) => do
      let line : CommandLine := ⟨← modifiers first, ← flag second, ← action third⟩
      if rest.isEmpty then return line
      else throw (.invalidLength (rest.length + 3) "fewer elements in array")
  | .arr items => do
      match items with
      | first :: second :: _ =>
          let _ ← modifiers first
          let _ ← flag second
      | first :: _ =>
          let _ ← modifiers first
      | [] => pure ()
      throw (.invalidLength 2 (lineStruct ++ " with 3 elements"))
  | other => .error (.invalidType other lineStruct)

end Decode

namespace Encode

def int32 (n : Int32) : Json := .num (.int n.toInt)

/-- Only finite numbers stand in a document. -/
def float (x : Binary64) : Json := if x.isFinite then .num (.float x) else .null

def optional (f : α → Json) : Option α → Json
  | some a => f a
  | none => .null

def object (tag : String) (members : List (String × Json)) : Json :=
  Json.ofMembers (("t", .str tag) :: members)

def scored (tag holder objective : String) (more : List (String × Json)) : Json :=
  object tag (("holder", .str holder) :: ("objective", .str objective) :: more)

def modifier : LineModifier → Json
  | .redirect (.entities targets) => object "As" [("targets", .arr (targets.map .str))]
  | .redirect (.position p) =>
      object "Positioned" [("pos", .arr [float p.x, float p.y, float p.z])]
  | .redirect (.dimension d) => object "In" [("dimension", .str d)]
  | .redirect (.scoreWithin holder objective low high) =>
      scored "IfScore" holder objective
        [("min", optional int32 low), ("max", optional int32 high)]
  | .redirect (.store .result holder objective) => scored "StoreResult" holder objective []
  | .redirect (.store .success holder objective) => scored "StoreSuccess" holder objective []
  | .condition ⟨.holds, target⟩ => object "IfFunction" [("function", .str target)]
  | .condition ⟨.fails, target⟩ => object "UnlessFunction" [("function", .str target)]

def action : LineAction → Json
  | .leaf (.say message) => object "Say" [("message", .str message)]
  | .leaf (.value n) => object "Value" [("value", int32 n)]
  | .leaf (.fail message) => object "Fail" [("message", .str message)]
  | .leaf (.add holder objective amount) =>
      scored "Add" holder objective [("amount", int32 amount)]
  | .leaf (.get holder objective) => scored "Get" holder objective []
  | .call (.function target none) => object "Function" [("function", .str target)]
  | .call (.function target (some arguments)) =>
      object "Function" [("function", .str target), ("arguments", arguments)]
  | .call (.returnValue n) => object "Return" [("value", int32 n)]
  | .call .returnFail => object "ReturnFail" []
  | .call (.debug target) => object "Debug" [("function", .str target)]

/-- A line without modifiers is written without them. -/
def commandLine (line : CommandLine) : Json :=
  let modifiers :=
    if line.modifiers.isEmpty then []
    else [("modifiers", Json.arr (line.modifiers.map modifier))]
  Json.ofMembers (modifiers ++ [("return", .bool line.isReturn), ("run", action line.action)])

end Encode

end PackEngine
