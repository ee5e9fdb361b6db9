import PackEngine.Decimal.Layout
import PackEngine.Toml.Scalar

/-! Settings as they are gathered from several layers, before anything is asked of their types.
A later layer overrides an earlier one; tables are merged. -/
namespace PackEngine

inductive Setting where
  /-- A place in a list that was never set. -/
  | unset
  | int (n : Int)
  | float (x : Binary64)
  | bool (b : Bool)
  | text (s : String)
  | list (items : List Setting)
  | table (entries : List (String × Setting))
deriving Inhabited

namespace Setting

/-- A table that begins with the key of moments stands for the moment that its text denotes. -/
def ofMember? (key : String) (value : Toml) : Option (Option Setting) :=
  if key != Toml.momentKey then some none
  else
    match value with
    | .str s => (TomlReader.momentOf? s).map fun m => some (.text m.render)
    | _ => none

mutual

/-- A value of a document; there is none if a table begins like a moment but is none. -/
def ofToml? : Toml → Option Setting
  | .str s => some (.text s)
  | .int n => some (.int n)
  | .float x => some (.float x)
  | .bool b => some (.bool b)
  | .moment m => some (.text m.render)
  | .arr items => (ofItems? items).map .list
  | .table [] => some (.table [])
  | .table ((key, value) :: rest) => do
      match ← ofMember? key value with
      | some moment => return moment
      | none =>
          let setting ← ofToml? value
          return .table ((key, setting) :: (← ofEntries? rest))

def ofItems? : List Toml → Option (List Setting)
  | [] => some []
  | item :: rest => do
      let setting ← ofToml? item
      return setting :: (← ofItems? rest)

def ofEntries? : List (String × Toml) → Option (List (String × Setting))
  | [] => some []
  | (key, value) :: rest => do
      let setting ← ofToml? value
      return (key, setting) :: (← ofEntries? rest)

end

def entries : Setting → List (String × Setting)
  | .table entries => entries
  | _ => []

def items : Setting → List Setting
  | .list items => items
  | _ => []

/-- Names are held in lower case. Beside the capital letters the Kelvin sign becomes one of the
letters that names are made of. -/
def lowerName (name : String) : String :=
  name.map fun c => if c == '\u212A' then 'k' else c.toLower

mutual

def put (root : Setting) (key : String) : Setting → Setting
  | .table incoming =>
      let key := lowerName key
      let old := (valueAt? key root.entries).getD (.table [])
      .table (insertSorted key (putAll old incoming) root.entries)
  | value => .table (insertSorted (lowerName key) value root.entries)

def putAll (root : Setting) : List (String × Setting) → Setting
  | [] => root
  | (key, value) :: rest => putAll (put root key value) rest

end

/-! Conversions. Texts may stand for numbers, and the other way round. -/

def word64 : Nat := Nat.pow 2 64

/-- Decimal digits, with a plus sign at most. -/
def natural? (s : String) : Option Nat :=
  let digits :=
    match s.toList with
    | '+' :: cs => cs
    | cs => cs
  if digits.isEmpty || !digits.all Char.isDigit then none
  else
    let n := digits.foldl (fun n c => n * 10 + (c.toNat - '0'.toNat)) 0
    if n < word64 then some n else none

/-- Rounded, and held within the range. -/
def saturate (x : Binary64) : Nat :=
  if x.isNaN || x.isNegative then 0
  else if x.isFinite then min (word64 - 1) x.round.toNat
  else word64 - 1

/-- As a number of 64 bits without sign. -/
def toCount? : Setting → Option Nat
  | .int n => if 0 ≤ n then some n.toNat else none
  | .float x => some (saturate x)
  | .bool b => some b.toNat
  | .text s =>
      let word := s.toLower
      if word == "true" || word == "on" || word == "yes" then some 1
      else if word == "false" || word == "off" || word == "no" then some 0
      else natural? s
  | _ => none

def toText? : Setting → Option String
  | .int n => some (toString n)
  | .float x => some (NumberLayout.plain.render x)
  | .bool b => some (toString b)
  | .text s => some s
  | _ => none

def field? (name : String) (place : Nat) : Setting → Option Setting
  | .table entries => valueAt? name entries
  | .list items => items[place]?
  | _ => none

def isRecord : Setting → Bool
  | .table _ => true
  | .list _ => true
  | _ => false

/-- A field that keeps its standard value if it is not set. -/
def fieldOr (record : Setting) (name : String) (place : Nat) (decode : Setting → Option α)
    (standard : α) : Option α :=
  match record.field? name place with
  | some value => decode value
  | none => some standard

end Setting

end PackEngine
