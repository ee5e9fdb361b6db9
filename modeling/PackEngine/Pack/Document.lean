import PackEngine.Json.Reader
import PackEngine.Toml.Reader

/-! A pack as it is written down: functions with their parameters and raw lines, and tags with
their members. Both maps list their entries by ascending key. -/
namespace PackEngine

structure FunctionDef where
  params : List String := []
  lines : List Json := []
deriving Inhabited

structure PackDocument where
  functions : List (String × FunctionDef) := []
  tags : List (String × List String) := []

namespace PackDocument

open JsonReader

/-- Enters a list or an object, one level deeper. -/
def deeper (depth : Nat) (inner : Nat → JsonReader α) : JsonReader α := fun cs =>
  match depth with
  | 0 => .error .malformed
  | depth + 1 => inner depth cs

def readText (limit : Nat) : JsonReader String := fun cs =>
  match skipBlanks cs with
  | '"' :: cs => stringBody false (limit + 1) [] cs
  | cs => .error (mismatch limit cs)

def readList (limit : Nat) (element : Nat → JsonReader α) (depth : Nat) : JsonReader (List α) :=
  fun cs =>
    match skipBlanks cs with
    | '[' :: cs => deeper depth (fun depth => items (element depth) (limit + 1) true []) cs
    | cs => .error (mismatch limit cs)

def readMap (limit : Nat) (element : Nat → JsonReader α) (depth : Nat) :
    JsonReader (List (String × α)) := fun cs =>
  let member (depth : Nat) (sorted : List (String × α)) (key : String) :
      JsonReader (List (String × α)) := fun cs => do
    let ((), cs) ← colon cs
    let (item, cs) ← element depth cs
    return (insertSorted key item sorted, cs)
  match skipBlanks cs with
  | '\x7b' :: cs =>
      deeper depth (fun depth => members false (limit + 1) (member depth) (limit + 1) true []) cs
  | cs => .error (mismatch limit cs)

/-- A record of two fields with defaults. As an object it may have other members, which are
passed over, and each field once; as an array it gives the fields in order. -/
def readPair (limit : Nat) (firstName secondName : String) (first : Nat → JsonReader α)
    (second : Nat → JsonReader β) (depth : Nat) : JsonReader (Option α × Option β) := fun cs =>
  let member (depth : Nat) (state : Option α × Option β) (key : String) :
      JsonReader (Option α × Option β) := fun cs => do
    if key == firstName then
      if state.1.isSome then throw .shape
      let ((), cs) ← colon cs
      let (value, cs) ← first depth cs
      return ((some value, state.2), cs)
    else if key == secondName then
      if state.2.isSome then throw .shape
      let ((), cs) ← colon cs
      let (value, cs) ← second depth cs
      return ((state.1, some value), cs)
    else
      let ((), cs) ← colon cs
      let ((), cs) ← skipValue limit (limit + 1) cs
      return (state, cs)
  let inOrder (depth : Nat) : JsonReader (Option α × Option β) := fun cs => do
    let (more, cs) ← hasItem true cs
    if more then
      let (a, cs) ← first depth cs
      let (more, cs) ← hasItem false cs
      if more then
        let (b, cs) ← second depth cs
        let ((), cs) ← closeList cs
        return ((some a, some b), cs)
      else
        let ((), cs) ← closeList cs
        return ((some a, none), cs)
    else
      let ((), cs) ← closeList cs
      return ((none, none), cs)
  match skipBlanks cs with
  | '\x7b' :: cs =>
      deeper depth
        (fun depth => members false (limit + 1) (member depth) (limit + 1) true (none, none)) cs
  | '[' :: cs => deeper depth inOrder cs
  | cs => .error (mismatch limit cs)

def readDef (limit depth : Nat) : JsonReader FunctionDef := fun cs => do
  let ((params, lines), cs) ←
    readPair limit "params" "lines" (readList limit fun _ => readText limit)
      (readList limit fun depth => value limit depth) depth cs
  return (⟨params.getD [], lines.getD []⟩, cs)

def read (limit depth : Nat) : JsonReader PackDocument := fun cs => do
  let ((functions, tags), cs) ←
    readPair limit "functions" "tags" (readMap limit (readDef limit))
      (readMap limit (readList limit fun _ => readText limit)) depth cs
  return (⟨functions.getD [], tags.getD []⟩, cs)

def ofJsonText (text : String) : Except DocumentFault PackDocument :=
  finish (read text.length Json.depthLimit text.toList)

/-! The same document as a value. Members that a record does not have are passed over. -/

def text? : Json → Option String
  | .str s => some s
  | _ => none

def list? : Json → Option (List Json)
  | .arr items => some items
  | _ => none

def map? : Json → Option (List (String × Json))
  | .obj members => some members
  | _ => none

def texts? (value : Json) : Option (List String) := do (← list? value).mapM text?

def field? (decode : Json → Option α) (standard : α) (value : Option Json) : Option α :=
  value.elim (some standard) decode

def def? : Json → Option FunctionDef
  | .obj members => do
      let params ← field? texts? [] (valueAt? "params" members)
      let lines ← field? list? [] (valueAt? "lines" members)
      return ⟨params, lines⟩
  | .arr items => do
      let params ← field? texts? [] items[0]?
      let lines ← field? list? [] items[1]?
      return ⟨params, lines⟩
  | _ => none

def entries? (decode : Json → Option α) (value : Json) : Option (List (String × α)) := do
  (← map? value).mapM fun (key, v) => (decode v).map (key, ·)

def ofValue? : Json → Option PackDocument
  | .obj members => do
      let functions ← field? (entries? def?) [] (valueAt? "functions" members)
      let tags ← field? (entries? texts?) [] (valueAt? "tags" members)
      return ⟨functions, tags⟩
  | _ => none

def ofTomlText? (text : String) : Option PackDocument :=
  (Toml.parse? text).bind fun document => ofValue? document.toJson

end PackDocument

end PackEngine
