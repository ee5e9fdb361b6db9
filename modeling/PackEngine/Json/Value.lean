import PackEngine.Decimal.Layout
import PackEngine.Entries

/-! Document values and their compact text. Objects list their members by ascending key, each key
once, so a value has one compact text. -/
namespace PackEngine

inductive JsonNumber where
  | int (n : Int)
  | float (x : Binary64)
deriving DecidableEq, Repr

inductive Json where
  | null
  | bool (b : Bool)
  | num (n : JsonNumber)
  | str (s : String)
  | arr (items : List Json)
  | obj (members : List (String × Json))
deriving Inhabited

namespace Json

def ofMembers (members : List (String × Json)) : Json :=
  .obj (members.foldl (fun sorted (k, v) => insertSorted k v sorted) [])

def kind : Json → String
  | .null => "null"
  | .bool _ => "boolean"
  | .num _ => "number"
  | .str _ => "string"
  | .arr _ => "list"
  | .obj _ => "compound"

def hexDigit (n : Nat) : Char := (Nat.toDigits 16 n).headD '0'

/-- Quote, backslash and control characters are escaped; everything else stands for itself. -/
def escapeChar (c : Char) : String :=
  match c with
  | '"' => "\\\""
  | '\\' => "\\\\"
  | '\x08' => "\\b"
  | '\x0c' => "\\f"
  | '\n' => "\\n"
  | '\r' => "\\r"
  | '\t' => "\\t"
  | c =>
      if c.toNat < 32 then
        "\\u00" ++ String.ofList [hexDigit (c.toNat / 16), hexDigit (c.toNat % 16)]
      else String.singleton c

def quote (s : String) : String :=
  s.toList.foldl (fun text c => text ++ escapeChar c) "\"" ++ "\""

def JsonNumber.render : JsonNumber → String
  | .int n => toString n
  | .float x => NumberLayout.compact.render x

mutual

def write (text : String) : Json → String
  | .null => text ++ "null"
  | .bool true => text ++ "true"
  | .bool false => text ++ "false"
  | .num n => text ++ JsonNumber.render n
  | .str s => text ++ quote s
  | .arr [] => text ++ "[]"
  | .arr (item :: rest) => writeItems (write (text ++ "[") item) rest ++ "]"
  | .obj [] => text ++ "\x7b\x7d"
  | .obj ((key, value) :: rest) =>
      writeMembers (write (text ++ "\x7b" ++ quote key ++ ":") value) rest ++ "\x7d"

def writeItems (text : String) : List Json → String
  | [] => text
  | item :: rest => writeItems (write (text ++ ",") item) rest

def writeMembers (text : String) : List (String × Json) → String
  | [] => text
  | (key, value) :: rest => writeMembers (write (text ++ "," ++ quote key ++ ":") value) rest

end

/-- No blanks, members by ascending key. -/
def compact (value : Json) : String := write "" value

end Json

end PackEngine
