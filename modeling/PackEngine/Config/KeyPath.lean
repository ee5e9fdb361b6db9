import PackEngine.Config.Setting

/-! Keys of settings that name a place further inside: parts after dots, and places in lists. -/
namespace PackEngine

inductive KeyStep where
  | child (key : String)
  /-- Counted from the end if negative. -/
  | place (index : Int)
deriving DecidableEq, Repr

structure KeyPath where
  first : String
  steps : List KeyStep
deriving DecidableEq, Repr

namespace KeyPath

def isKeyChar (c : Char) : Bool := c.isAlphanum || c == ' ' || c == '_' || c == '-'

def isBlank (c : Char) : Bool := c == ' ' || c == '\t'

def name? (cs : List Char) : Option (String × List Char) :=
  let word := cs.takeWhile isKeyChar
  if word.isEmpty then none else some (String.ofList word, cs.dropWhile isKeyChar)

/-- An index with its closing bracket. -/
def index? (cs : List Char) : Option (Int × List Char) :=
  let (negative, cs) :=
    match cs.dropWhile isBlank with
    | '-' :: cs => (true, cs)
    | cs => (false, cs)
  let digits := cs.takeWhile Char.isDigit
  let n := digits.foldl (fun n c => n * 10 + (c.toNat - '0'.toNat)) 0
  match (cs.dropWhile Char.isDigit).dropWhile isBlank with
  | ']' :: cs =>
      if digits.isEmpty || Nat.pow 2 63 ≤ n then none
      else some (if negative then -(n : Int) else n, cs)
  | _ => none

def steps? : Nat → List Char → Option (List KeyStep)
  | _, [] => some []
  | 0, _ => none
  | fuel + 1, '.' :: cs => do
      let (key, cs) ← name? cs
      return .child key :: (← steps? fuel cs)
  | fuel + 1, '[' :: cs => do
      let (index, cs) ← index? cs
      return .place index :: (← steps? fuel cs)
  | _, _ => none

def parse? (key : String) : Option KeyPath := do
  let (first, cs) ← name? key.toList
  return ⟨first, ← steps? cs.length cs⟩

/-- A key that is no path stands for itself. -/
def ofKey (key : String) : KeyPath := (parse? key).getD ⟨key, []⟩

/-- The place an index means in a list of that length. -/
def placeOf (index : Int) (length : Nat) : Option Nat :=
  if 0 ≤ index then some index.toNat
  else if index.natAbs ≤ length then some (length - index.natAbs)
  else none

def alterKey (root : Setting) (key : String) (change : Setting → Setting) : Setting :=
  .table (insertSorted key (change ((valueAt? key root.entries).getD .unset)) root.entries)

/-- Changes the value at a place; a list that is too short is filled up. -/
def alterPlace (root : Setting) (index : Int) (change : Setting → Setting) : Setting :=
  match placeOf index root.items.length with
  | none => root
  | some place =>
      let items := root.items ++ List.replicate (place + 1 - root.items.length) .unset
      .list (items.modify place change)

/-- Sets the value at the end of a path. What stands in the way is replaced. -/
def assign (value : Setting) : String → List KeyStep → Setting → Setting
  | key, [], root => root.put key value
  | key, .child next :: rest, root => alterKey root key (assign value next rest)
  | key, .place index :: rest, root =>
      alterKey root key (assignPlace value index rest)
where
  assignPlace (value : Setting) (index : Int) : List KeyStep → Setting → Setting
    | [], root => alterPlace root index fun _ => value
    | .child next :: rest, root => alterPlace root index (assign value next rest)
    | .place inner :: rest, root => alterPlace root index (assignPlace value inner rest)

end KeyPath

def Setting.set (root : Setting) (key : String) (value : Setting) : Setting :=
  let path := KeyPath.ofKey (lowerName key)
  KeyPath.assign value path.first path.steps root

end PackEngine
