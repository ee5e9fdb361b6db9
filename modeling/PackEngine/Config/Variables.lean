import PackEngine.Config.KeyPath

/-! Environment variables, and the settings they stand for. -/
namespace PackEngine

/-- The variables of a process, each name once. -/
abbrev Variables := List (String × String)

namespace Variables

/-- The value of a variable. A name is sought with its equals sign in the texts `NAME=value`, so a
name with an equals sign reaches into a value. -/
def get? (env : Variables) (name : String) : Option String :=
  let sought := (name ++ "=").toList
  env.findSome? fun (own, value) =>
    let text := (own ++ "=" ++ value).toList
    if sought.isPrefixOf text then some (String.ofList (text.drop sought.length)) else none

def addNew (env : Variables) (name value : String) : Variables :=
  if (env.get? name).isSome then env else env ++ [(name, value)]

def put (env : Variables) (name value : String) : Variables :=
  env.filter (·.1 != name) ++ [(name, value)]

/-- The variables of a block of `name=value` entries, each ended by a NUL. -/
def ofBlock (block : String) : Variables :=
  (block.splitOn "\x00").filterMap fun entry =>
    match entry.splitOn "=" with
    | name :: value@(_ :: _) => if name.isEmpty then none else some (name, "=".intercalate value)
    | _ => none

/-! Values are read as truth values, whole numbers of 64 bits, or numbers, in that order; anything
else is a text. -/

def digitsValue (cs : List Char) : Nat :=
  cs.foldl (fun n c => n * 10 + (c.toNat - '0'.toNat)) 0

/-- A sign, and the rest. -/
def splitSign : List Char → Bool × List Char
  | '+' :: cs => (false, cs)
  | '-' :: cs => (true, cs)
  | cs => (false, cs)

def integer? (s : String) : Option Int :=
  let (negative, cs) := splitSign s.toList
  if cs.isEmpty || !cs.all Char.isDigit then none
  else
    let n : Int := if negative then -(digitsValue cs : Int) else digitsValue cs
    if -(Int.pow 2 63) ≤ n && n < Int.pow 2 63 then some n else none

def exponent? : List Char → Option Int
  | [] => some 0
  | c :: cs =>
      if c != 'e' && c != 'E' then none
      else
        let (negative, cs) := splitSign cs
        if cs.isEmpty || !cs.all Char.isDigit then none
        else some (if negative then -(digitsValue cs : Int) else digitsValue cs)

/-- Digits with a point anywhere among them, or without one. -/
def decimal? (negative : Bool) (cs : List Char) : Option Binary64 := do
  let whole := cs.takeWhile Char.isDigit
  let rest := cs.dropWhile Char.isDigit
  let (fraction, rest) :=
    match rest with
    | '.' :: rest => (rest.takeWhile Char.isDigit, rest.dropWhile Char.isDigit)
    | rest => ([], rest)
  if whole.isEmpty && fraction.isEmpty then none
  let e ← exponent? rest
  return Binary64.ofDecimal negative (digitsValue (whole ++ fraction)) (e - fraction.length)

def number? (s : String) : Option Binary64 :=
  let (negative, cs) := splitSign s.toList
  let word := (String.ofList cs).toLower
  if word == "inf" || word == "infinity" then some (Binary64.infinity negative)
  else if word == "nan" then some Binary64.nan
  else decimal? negative cs

def settingOf (value : String) : Setting :=
  if value.toLower == "true" then .bool true
  else if value.toLower == "false" then .bool false
  else
    match integer? value, number? value with
    | some n, _ => .int n
    | none, some x => .float x
    | none, none => .text value

/-- Names of settings begin so, in upper or lower case; two underscores enter a table. -/
def settingPrefix : String := "cmdchain_"

/-- The settings that variables name, each key once; of several values the last one stays. -/
def settings (env : Variables) : List (String × Setting) :=
  env.foldl (fun found (name, value) =>
    let name := Setting.lowerName name
    if name.startsWith settingPrefix then
      let key := String.ofList (name.toList.drop settingPrefix.length)
      insertSorted (".".intercalate (key.splitOn "__")) (settingOf value) found
    else found) []

end Variables

end PackEngine
