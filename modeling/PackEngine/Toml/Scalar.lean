import PackEngine.Toml.Value

/-! Reading keys, strings, numbers and moments. A reader takes the characters that are left and
consumes some of them, or fails. Where a reader repeats itself, `limit` is the length of the
text. -/
namespace PackEngine

abbrev TomlReader (α : Type) := List Char → Option (α × List Char)

namespace TomlReader

def isBlank (c : Char) : Bool := c == ' ' || c == '\t'

def skipBlanks (cs : List Char) : List Char := cs.dropWhile isBlank

/-- What comments and strings may hold: no control characters but the tab. -/
def isTextChar (c : Char) : Bool := c == '\t' || (0x20 ≤ c.toNat && c.toNat != 0x7F)

def newline? : List Char → Option (List Char)
  | '\n' :: cs => some cs
  | '\r' :: '\n' :: cs => some cs
  | _ => none

def skipBlankLines : List Char → List Char
  | ' ' :: cs => skipBlankLines cs
  | '\t' :: cs => skipBlankLines cs
  | '\n' :: cs => skipBlankLines cs
  | '\r' :: '\n' :: cs => skipBlankLines cs
  | cs => cs

/-- Blanks, line ends and comments, as far as they go. -/
def skipFiller (inComment : Bool) : List Char → List Char
  | [] => []
  | '\n' :: cs => skipFiller false cs
  | '\r' :: '\n' :: cs => skipFiller false cs
  | c :: cs =>
      if inComment then if isTextChar c then skipFiller true cs else c :: cs
      else if c == '#' then skipFiller true cs
      else if isBlank c then skipFiller false cs
      else c :: cs

/-- Nothing but blanks and a comment may end a line. -/
def lineEnd? (cs : List Char) : Option (List Char) :=
  let cs :=
    match skipBlanks cs with
    | '#' :: cs => cs.dropWhile isTextChar
    | cs => cs
  if cs.isEmpty then some [] else newline? cs

/-! Digits. -/

def digit? (c : Char) : Option Nat :=
  if '0' ≤ c && c ≤ '9' then some (c.toNat - '0'.toNat) else none

def hexDigit? (c : Char) : Option Nat :=
  if 'a' ≤ c && c ≤ 'f' then some (c.toNat - 'a'.toNat + 10)
  else if 'A' ≤ c && c ≤ 'F' then some (c.toNat - 'A'.toNat + 10)
  else digit? c

def digitBelow? (base : Nat) (c : Char) : Option Nat := (digit? c).filter (· < base)

structure Digits where
  value : Nat := 0
  count : Nat := 0

def Digits.push (base : Nat) (ds : Digits) (d : Nat) : Digits := ⟨ds.value * base + d, ds.count + 1⟩

def moreDigits (base : Nat) (digit : Char → Option Nat) (ds : Digits) : TomlReader Digits
  | [] => some (ds, [])
  | '_' :: [] => none
  | '_' :: c :: cs =>
      match digit c with
      | some d => moreDigits base digit (ds.push base d) cs
      | none => none
  | c :: cs =>
      match digit c with
      | some d => moreDigits base digit (ds.push base d) cs
      | none => some (ds, c :: cs)

def digits (base : Nat) (digit : Char → Option Nat) : TomlReader Digits
  | [] => none
  | c :: cs =>
      match digit c with
      | some d => moreDigits base digit ⟨d, 1⟩ cs
      | none => none

/-- Exactly `count` digits, within bounds. -/
def fixedDigits (count low high : Nat) : TomlReader Nat := fun cs =>
  match (cs.take count).mapM digit? with
  | none => none
  | some ds =>
      let n := ds.foldl (fun n d => n * 10 + d) 0
      if ds.length = count && low ≤ n && n ≤ high then some (n, cs.drop count) else none

def exactly (c : Char) : TomlReader Unit
  | [] => none
  | d :: cs => if c == d then some ((), cs) else none

/-! Strings. -/

/-- A code point in exactly `count` hexadecimal digits. -/
def codePoint (count : Nat) : TomlReader Char := fun cs =>
  match (cs.take count).mapM hexDigit? with
  | none => none
  | some ds =>
      let n := ds.foldl (fun n d => n * 16 + d) 0
      if ds.length = count && (n < 0xD800 || (0xDFFF < n && n < 0x110000)) then
        some (Char.ofNat n, cs.drop count)
      else none

/-- What a backslash stands before. -/
def escaped : TomlReader Char
  | 'b' :: cs => some ('\x08', cs)
  | 'f' :: cs => some ('\x0c', cs)
  | 'n' :: cs => some ('\n', cs)
  | 'r' :: cs => some ('\r', cs)
  | 't' :: cs => some ('\t', cs)
  | '"' :: cs => some ('"', cs)
  | '\\' :: cs => some ('\\', cs)
  | 'u' :: cs => codePoint 4 cs
  | 'U' :: cs => codePoint 8 cs
  | _ => none

/-- A string up to its closing quote; only between double quotes there are escapes. `fuel` bounds
the number of characters. -/
def shortBody (quote : Char) : Nat → List Char → TomlReader String
  | 0, _, _ => none
  | _ + 1, _, [] => none
  | fuel + 1, done, c :: cs =>
      if c == quote then some (String.ofList done.reverse, cs)
      else if c == '\\' && quote == '"' then
        match escaped cs with
        | some (c, cs) => shortBody quote fuel (c :: done) cs
        | none => none
      else if isTextChar c then shortBody quote fuel (c :: done) cs
      else none

/-- A string of several lines. One or two quotes belong to it, and so do the first two of a run
that ends it. -/
def longBody (quote : Char) : Nat → List Char → TomlReader String
  | 0, _, _ => none
  | _ + 1, _, [] => none
  | fuel + 1, done, '\n' :: cs => longBody quote fuel ('\n' :: done) cs
  | fuel + 1, done, '\r' :: '\n' :: cs => longBody quote fuel ('\n' :: done) cs
  | fuel + 1, done, c :: cs =>
      if c == quote then
        let run := ((c :: cs).takeWhile (· == quote)).length
        let rest := (c :: cs).drop run
        if run < 3 then longBody quote fuel (List.replicate run quote ++ done) rest
        else if run < 6 then
          some (String.ofList (List.replicate (run - 3) quote ++ done).reverse, rest)
        else none
      else if c == '\\' && quote == '"' then
        match newline? (skipBlanks cs) with
        | some cs => longBody quote fuel done (skipBlankLines cs)
        | none =>
            match escaped cs with
            | some (c, cs) => longBody quote fuel (c :: done) cs
            | none => none
      else if isTextChar c then longBody quote fuel (c :: done) cs
      else none

/-- A string after its first quote. A line end right after three quotes is not part of it. -/
def string (limit : Nat) (quote : Char) : TomlReader String
  | a :: b :: rest =>
      if a == quote && b == quote then
        longBody quote (limit + 1) [] ((newline? rest).getD rest)
      else shortBody quote (limit + 1) [] (a :: b :: rest)
  | cs => shortBody quote (limit + 1) [] cs

/-! Keys. -/

def isBareChar (c : Char) : Bool := c.isAlphanum || c == '_' || c == '-'

def simpleKey (limit : Nat) : TomlReader String
  | '"' :: cs => shortBody '"' (limit + 1) [] cs
  | '\'' :: cs => shortBody '\'' (limit + 1) [] cs
  | cs =>
      let word := cs.takeWhile isBareChar
      if word.isEmpty then none else some (String.ofList word, cs.dropWhile isBareChar)

/-- Keys have fewer parts than this, and values are nested less deep. -/
def depthLimit : Nat := 80

/-- Keys joined by dots, with blanks around each; `fuel` bounds their number. -/
def keyParts (limit : Nat) : Nat → TomlReader (List String)
  | 0, _ => none
  | fuel + 1, cs =>
      match simpleKey limit (skipBlanks cs) with
      | none => none
      | some (key, cs) =>
          match skipBlanks cs with
          | '.' :: cs => (keyParts limit fuel cs).map fun (path, cs) => (key :: path, cs)
          | cs => some ([key], cs)

def keyPath (limit : Nat) : TomlReader (List String) := keyParts limit (depthLimit - 1)

/-! Moments. -/

def daysIn (year month : Nat) : Nat :=
  if month = 2 then
    if year % 4 = 0 && (year % 100 ≠ 0 || year % 400 = 0) then 29 else 28
  else if month = 4 || month = 6 || month = 9 || month = 11 then 30
  else 31

def calendarDate : TomlReader CalendarDate := fun cs => do
  let (year, cs) ← fixedDigits 4 0 9999 cs
  let ((), cs) ← exactly '-' cs
  let (month, cs) ← fixedDigits 2 1 12 cs
  let ((), cs) ← exactly '-' cs
  let (day, cs) ← fixedDigits 2 1 (daysIn year month) cs
  return (⟨year, month, day⟩, cs)

/-- Nanoseconds; further digits are cut off. -/
def secondFraction : TomlReader Nat
  | '.' :: cs =>
      let ds := (cs.takeWhile Char.isDigit).filterMap digit?
      if ds.isEmpty then none
      else
        let kept := (ds ++ List.replicate 9 0).take 9
        some (kept.foldl (fun n d => n * 10 + d) 0, cs.dropWhile Char.isDigit)
  | cs => some (0, cs)

def clockTime : TomlReader ClockTime := fun cs => do
  let (hour, cs) ← fixedDigits 2 0 23 cs
  let ((), cs) ← exactly ':' cs
  let (minute, cs) ← fixedDigits 2 0 59 cs
  let ((), cs) ← exactly ':' cs
  let (second, cs) ← fixedDigits 2 0 60 cs
  let (nanosecond, cs) ← secondFraction cs
  return (⟨hour, minute, second, nanosecond⟩, cs)

def zoneDistance (ahead : Bool) : TomlReader (Option ZoneOffset) := fun cs => do
  let (hours, cs) ← fixedDigits 2 0 23 cs
  let ((), cs) ← exactly ':' cs
  let (minutes, cs) ← fixedDigits 2 0 59 cs
  let distance : Int := (hours * 60 + minutes : Nat)
  return (some (.minutes (if ahead then distance else -distance)), cs)

def zoneOffset : TomlReader (Option ZoneOffset)
  | 'Z' :: cs => some (some .utc, cs)
  | 'z' :: cs => some (some .utc, cs)
  | '+' :: cs => zoneDistance true cs
  | '-' :: cs => zoneDistance false cs
  | cs => some (none, cs)

def startsTime : List Char → Bool
  | a :: b :: ':' :: _ => a.isDigit && b.isDigit
  | _ => false

def startsDate : List Char → Bool
  | a :: b :: c :: d :: '-' :: _ => a.isDigit && b.isDigit && c.isDigit && d.isDigit
  | _ => false

/-- Between date and time stands a `T` or one blank; a blank may also end the value. -/
def moment : TomlReader Moment := fun cs => do
  if startsTime cs then
    let (time, cs) ← clockTime cs
    return (⟨none, some time, none⟩, cs)
  let (date, cs) ← calendarDate cs
  match cs with
  | c :: rest =>
      if (c == 'T' || c == 't' || c == ' ') && startsTime rest then
        let (time, cs) ← clockTime rest
        let (offset, cs) ← zoneOffset cs
        return (⟨some date, some time, offset⟩, cs)
      else return (⟨some date, none, none⟩, cs)
  | [] => return (⟨some date, none, none⟩, [])

def momentOf? (text : String) : Option Moment :=
  match moment text.toList with
  | some (m, []) => some m
  | _ => none

/-! Numbers. -/

/-- Integers have 64 bits. -/
def inRange (n : Int) : Option Toml :=
  if -(Int.pow 2 63) ≤ n && n < Int.pow 2 63 then some (.int n) else none

def signed (negative : Bool) (n : Nat) : Int := if negative then -(n : Int) else n

/-- Too large a number is an infinity if it is negative, and refused otherwise. -/
def decimal (negative : Bool) (digits : Nat) (scale : Int) : Option Toml :=
  let x := Binary64.ofDecimal negative digits scale
  if x.isInfinite && !negative then none else some (.float x)

def exponent : TomlReader Int
  | '+' :: cs => (digits 10 digit? cs).map fun (ds, cs) => ((ds.value : Int), cs)
  | '-' :: cs => (digits 10 digit? cs).map fun (ds, cs) => (-(ds.value : Int), cs)
  | cs => (digits 10 digit? cs).map fun (ds, cs) => ((ds.value : Int), cs)

def afterWhole (negative : Bool) (whole : Nat) : TomlReader Toml := fun cs => do
  let scaled (digits : Nat) (places : Int) (cs : List Char) : Option (Toml × List Char) := do
    let (e, cs) ← exponent cs
    let x ← decimal negative digits (e - places)
    return (x, cs)
  match cs with
  | '.' :: cs =>
      let (fraction, cs) ← digits 10 digit? cs
      let all := whole * Nat.pow 10 fraction.count + fraction.value
      match cs with
      | 'e' :: cs => scaled all fraction.count cs
      | 'E' :: cs => scaled all fraction.count cs
      | cs =>
          let x ← decimal negative all (-fraction.count)
          return (x, cs)
  | 'e' :: cs => scaled whole 0 cs
  | 'E' :: cs => scaled whole 0 cs
  | cs =>
      let n ← inRange (signed negative whole)
      return (n, cs)

/-- A number after its sign: no leading zeros. -/
def unsignedNumber (negative : Bool) : TomlReader Toml
  | 'i' :: 'n' :: 'f' :: cs => some (.float (Binary64.infinity negative), cs)
  | 'n' :: 'a' :: 'n' :: cs => some (.float Binary64.nan, cs)
  | '0' :: cs => afterWhole negative 0 cs
  | cs => do
      let (whole, cs) ← digits 10 digit? cs
      afterWhole negative whole.value cs

def based (base : Nat) (digit : Char → Option Nat) : TomlReader Toml := fun cs => do
  let (ds, cs) ← digits base digit cs
  let n ← inRange ds.value
  return (n, cs)

def number : TomlReader Toml
  | '+' :: cs => unsignedNumber false cs
  | '-' :: cs => unsignedNumber true cs
  | '0' :: 'x' :: cs => based 16 hexDigit? cs
  | '0' :: 'o' :: cs => based 8 (digitBelow? 8) cs
  | '0' :: 'b' :: cs => based 2 (digitBelow? 2) cs
  | cs => unsignedNumber false cs

end TomlReader

end PackEngine
