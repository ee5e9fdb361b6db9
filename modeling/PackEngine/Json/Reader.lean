import PackEngine.Json.Value

/-! Reading document text from left to right. A reader takes the characters that are left and
either consumes some of them or names the kind of the first fault it meets. -/
namespace PackEngine

/-- What is wrong with a document where reading stopped. -/
inductive DocumentFault where
  /-- The text is no document. -/
  | malformed
  /-- The text ends inside a value. -/
  | ended
  /-- A well-formed value of a kind that is not accepted there. -/
  | shape
deriving DecidableEq, Repr

def DocumentFault.message : DocumentFault → String
  | .malformed => "the text is no document"
  | .ended => "the text ends early"
  | .shape => "a value has the wrong kind"

abbrev JsonReader (α : Type) := List Char → Except DocumentFault (α × List Char)

namespace JsonReader

def isBlank (c : Char) : Bool := c == ' ' || c == '\n' || c == '\t' || c == '\r'

def skipBlanks (cs : List Char) : List Char := cs.dropWhile isBlank

def word (rest : List Char) : JsonReader Unit := fun cs =>
  match rest, cs with
  | [], cs => .ok ((), cs)
  | _ :: _, [] => .error .ended
  | e :: rest, c :: cs => if c == e then word rest cs else .error .malformed

def hexValue? (c : Char) : Option Nat :=
  if '0' ≤ c && c ≤ '9' then some (c.toNat - '0'.toNat)
  else if 'a' ≤ c && c ≤ 'f' then some (c.toNat - 'a'.toNat + 10)
  else if 'A' ≤ c && c ≤ 'F' then some (c.toNat - 'A'.toNat + 10)
  else none

/-- Four hexadecimal digits. Text with fewer than four bytes left has ended, whatever they are. -/
def hexUnit : JsonReader Nat := fun cs =>
  let four := cs.take 4
  if four.foldl (fun bytes c => bytes + c.utf8Size) 0 < 4 then .error .ended
  else
    match four.mapM hexValue? with
    | some [a, b, c, d] => .ok (((a * 16 + b) * 16 + c) * 16 + d, cs.drop 4)
    | _ => .error .malformed

def isLeadingSurrogate (unit : Nat) : Bool := 0xD800 ≤ unit && unit < 0xDC00

def isTrailingSurrogate (unit : Nat) : Bool := 0xDC00 ≤ unit && unit < 0xE000

/-- The code point of a `u` escape. A leading surrogate must be followed by the escape of a
trailing one; in text whose value is skipped surrogates may stand alone. -/
def unicodeEscape (skipped : Bool) : JsonReader Char := fun cs => do
  let (unit, cs) ← hexUnit cs
  if skipped then return (Char.ofNat unit, cs)
  else if isTrailingSurrogate unit then throw .malformed
  else if isLeadingSurrogate unit then
    match cs with
    | [] => throw .ended
    | '\\' :: [] => throw .ended
    | '\\' :: 'u' :: cs =>
        let (second, cs) ← hexUnit cs
        if isTrailingSurrogate second then
          return (Char.ofNat ((unit - 0xD800) * 0x400 + (second - 0xDC00) + 0x10000), cs)
        else throw .malformed
    | _ => throw .malformed
  else return (Char.ofNat unit, cs)

def escape (skipped : Bool) : JsonReader Char
  | [] => .error .ended
  | '"' :: cs => .ok ('"', cs)
  | '\\' :: cs => .ok ('\\', cs)
  | '/' :: cs => .ok ('/', cs)
  | 'b' :: cs => .ok ('\x08', cs)
  | 'f' :: cs => .ok ('\x0c', cs)
  | 'n' :: cs => .ok ('\n', cs)
  | 'r' :: cs => .ok ('\r', cs)
  | 't' :: cs => .ok ('\t', cs)
  | 'u' :: cs => unicodeEscape skipped cs
  | _ => .error .malformed

/-- The characters of a string up to its closing quote; `fuel` bounds their number. -/
def stringBody (skipped : Bool) : Nat → List Char → JsonReader String
  | 0, _, _ => .error .ended
  | _ + 1, _, [] => .error .ended
  | _ + 1, done, '"' :: cs => .ok (String.ofList done.reverse, cs)
  | fuel + 1, done, '\\' :: cs =>
      match escape skipped cs with
      | .error fault => .error fault
      | .ok (c, cs) => stringBody skipped fuel (c :: done) cs
  | fuel + 1, done, c :: cs =>
      if c.toNat < 32 then .error .malformed else stringBody skipped fuel (c :: done) cs

/-! Numbers. Digits are kept as long as they fit 64 bits; a number with a point or an exponent is
those digits, rounded, then scaled by a power of ten with one more rounding. -/

def word64 : Nat := Nat.pow 2 64

def powerOfTen (k : Nat) : Binary64 := Binary64.ofDecimal false 1 k

/-- Divides by 10^308 until the rest of the exponent is in reach of one scaling. -/
def scaleByTen : Nat → Binary64 → Int → Except DocumentFault Binary64
  | 0, x, _ => .ok x
  | fuel + 1, x, exponent =>
      if exponent.natAbs ≤ 308 then
        if 0 ≤ exponent then
          let scaled := x.scaleUp (powerOfTen exponent.natAbs)
          if scaled.isInfinite then .error .malformed else .ok scaled
        else .ok (x.scaleDown (powerOfTen exponent.natAbs))
      else if x.isZero then .ok x
      else if 0 ≤ exponent then .error .malformed
      else scaleByTen fuel (x.scaleDown (powerOfTen 308)) (exponent + 308)

def floatOf (negative : Bool) (digits : Nat) (exponent : Int) : Except DocumentFault JsonNumber :=
  match scaleByTen 8 (Binary64.ofNat digits) exponent with
  | .error fault => .error fault
  | .ok x => .ok (.float (if negative then x.neg else x))

def digit? (c : Char) : Option Nat :=
  if '0' ≤ c && c ≤ '9' then some (c.toNat - '0'.toNat) else none

def startsWithDigit : List Char → Bool
  | c :: _ => (digit? c).isSome
  | [] => false

/-- Digits appended to `value` while they fit 64 bits; also how many were taken. -/
def fittingDigits (value taken : Nat) : List Char → Nat × Nat × List Char
  | [] => (value, taken, [])
  | c :: cs =>
      match digit? c with
      | none => (value, taken, c :: cs)
      | some d =>
          if value * 10 + d < word64 then fittingDigits (value * 10 + d) (taken + 1) cs
          else (value, taken, c :: cs)

def countDigits (cs : List Char) : Nat := (cs.takeWhile fun c => (digit? c).isSome).length

def dropDigits (cs : List Char) : List Char := cs.dropWhile fun c => (digit? c).isSome

/-- Exponents are added within 32 bits and stop at the ends. -/
def clampExponent (e : Int) : Int := max (-(Int.pow 2 31)) (min (Int.pow 2 31 - 1) e)

/-- An exponent that does not fit 32 bits is an overflow, unless the number is zero anyway. -/
def exponentPart (negative : Bool) (digits : Nat) (start : Int) : JsonReader JsonNumber := fun cs =>
  let (down, cs) :=
    match cs with
    | '+' :: cs => (false, cs)
    | '-' :: cs => (true, cs)
    | cs => (false, cs)
  match cs with
  | [] => .error .ended
  | c :: _ =>
      if (digit? c).isNone then .error .malformed
      else
        let written := (cs.takeWhile fun c => (digit? c).isSome).foldl
          (fun n c => n * 10 + (digit? c).getD 0) 0
        let rest := dropDigits cs
        if Nat.pow 2 31 ≤ written then
          if digits ≠ 0 && !down then .error .malformed
          else .ok (.float (if negative then Binary64.zero.neg else Binary64.zero), rest)
        else
          let exponent := clampExponent (if down then start - written else start + written)
          (floatOf negative digits exponent).map (·, rest)

def afterDigits (negative : Bool) (digits : Nat) (start : Int) : JsonReader JsonNumber
  | 'e' :: cs => exponentPart negative digits start cs
  | 'E' :: cs => exponentPart negative digits start cs
  | cs => (floatOf negative digits start).map (·, cs)

def fractionPart (negative : Bool) (digits : Nat) (start : Int) : JsonReader JsonNumber := fun cs =>
  if startsWithDigit cs then
    let (digits, taken, cs) := fittingDigits digits 0 cs
    afterDigits negative digits (start - taken) (dropDigits cs)
  else if cs.isEmpty then .error .ended
  else .error .malformed

/-- An integer without point or exponent; those outside 64 bits and the negative zero are
floating point. -/
def wholeNumber (negative : Bool) (digits : Nat) : JsonNumber :=
  if negative then
    if digits = 0 || Nat.pow 2 63 < digits then .float (Binary64.ofNat digits).neg
    else .int (-(digits : Int))
  else .int digits

def number (negative : Bool) : JsonReader JsonNumber
  | [] => .error .ended
  | c :: cs =>
      match digit? c with
      | none => .error .malformed
      | some first =>
          if first = 0 && startsWithDigit cs then .error .malformed
          else
            let (digits, _, rest) := if first = 0 then (0, 0, cs) else fittingDigits first 0 cs
            let dropped := countDigits rest
            match dropDigits rest with
            | '.' :: rest => fractionPart negative digits dropped rest
            | 'e' :: rest => exponentPart negative digits dropped rest
            | 'E' :: rest => exponentPart negative digits dropped rest
            | rest =>
                if dropped = 0 then .ok (wholeNumber negative digits, rest)
                else (floatOf negative digits dropped).map (·, rest)

/-! Lists and objects, after their opening bracket. -/

/-- Whether another item follows; stands before the item then, before the bracket otherwise. -/
def hasItem (first : Bool) : JsonReader Bool := fun cs =>
  match skipBlanks cs with
  | [] => .error .ended
  | ']' :: cs => .ok (false, ']' :: cs)
  | c :: cs =>
      if first then .ok (true, c :: cs)
      else if c == ',' then
        match skipBlanks cs with
        | [] => .error .ended
        | ']' :: _ => .error .malformed
        | cs => .ok (true, cs)
      else .error .malformed

def closeList : JsonReader Unit := fun cs =>
  match skipBlanks cs with
  | [] => .error .ended
  | ']' :: cs => .ok ((), cs)
  | _ => .error .malformed

/-- Whether another member follows; stands after its key's opening quote then, after the closing
bracket otherwise. -/
def hasMember (first : Bool) : JsonReader Bool := fun cs =>
  match skipBlanks cs with
  | [] => .error .ended
  | '\x7d' :: cs => .ok (false, cs)
  | c :: cs =>
      if first then
        if c == '"' then .ok (true, cs) else .error .malformed
      else if c == ',' then
        match skipBlanks cs with
        | [] => .error .ended
        | '"' :: cs => .ok (true, cs)
        | _ => .error .malformed
      else .error .malformed

def colon : JsonReader Unit := fun cs =>
  match skipBlanks cs with
  | [] => .error .ended
  | ':' :: cs => .ok ((), cs)
  | _ => .error .malformed

/-- All items of a list through its closing bracket; `fuel` bounds their number. -/
def items (element : JsonReader α) : Nat → Bool → List α → JsonReader (List α)
  | 0, _, _, _ => .error .ended
  | fuel + 1, first, done, cs =>
      match hasItem first cs with
      | .error fault => .error fault
      | .ok (false, cs) => .ok (done.reverse, cs.drop 1)
      | .ok (true, cs) =>
          match element cs with
          | .error fault => .error fault
          | .ok (item, cs) => items element fuel false (item :: done) cs

/-- All members of an object through its closing bracket, each folded into a state by a reader
that is chosen by the key and stands before the colon. -/
def members (skipped : Bool) (limit : Nat) (member : σ → String → JsonReader σ) :
    Nat → Bool → σ → JsonReader σ
  | 0, _, _, _ => .error .ended
  | fuel + 1, first, state, cs =>
      match hasMember first cs with
      | .error fault => .error fault
      | .ok (false, cs) => .ok (state, cs)
      | .ok (true, cs) =>
          match stringBody skipped limit [] cs with
          | .error fault => .error fault
          | .ok (key, cs) =>
              match member state key cs with
              | .error fault => .error fault
              | .ok (state, cs) => members skipped limit member fuel false state cs

def addMember (value : JsonReader Json) (sorted : List (String × Json)) (key : String) :
    JsonReader (List (String × Json)) := fun cs => do
  let ((), cs) ← colon cs
  let (item, cs) ← value cs
  return (insertSorted key item sorted, cs)

/-- A value with at most `depth` nested lists and objects; `limit` is the length of the text. -/
def value (limit : Nat) : Nat → JsonReader Json := fun depth cs =>
  match skipBlanks cs with
  | [] => .error .ended
  | 'n' :: cs => (word "ull".toList cs).map fun (_, cs) => (.null, cs)
  | 't' :: cs => (word "rue".toList cs).map fun (_, cs) => (.bool true, cs)
  | 'f' :: cs => (word "alse".toList cs).map fun (_, cs) => (.bool false, cs)
  | '"' :: cs => (stringBody false (limit + 1) [] cs).map fun (s, cs) => (.str s, cs)
  | '-' :: cs => (number true cs).map fun (n, cs) => (.num n, cs)
  | '[' :: cs =>
      match depth with
      | 0 => .error .malformed
      | depth + 1 =>
          (items (value limit depth) (limit + 1) true [] cs).map fun (list, cs) => (.arr list, cs)
  | '\x7b' :: cs =>
      match depth with
      | 0 => .error .malformed
      | depth + 1 =>
          (members false (limit + 1) (addMember (value limit depth)) (limit + 1) true [] cs).map
            fun (sorted, cs) => (.obj sorted, cs)
  | c :: cs =>
      if (digit? c).isSome then (number false (c :: cs)).map fun (n, cs) => (.num n, cs)
      else .error .malformed

/-! Values that are passed over. They may nest without bound, their numbers have no range, and a
number that the text's end cuts short is no number. -/

def skipDigits : JsonReader Unit := fun cs =>
  if startsWithDigit cs then .ok ((), dropDigits cs) else .error .malformed

def skipExponent : JsonReader Unit
  | '+' :: cs => skipDigits cs
  | '-' :: cs => skipDigits cs
  | cs => skipDigits cs

def skipScale : JsonReader Unit
  | 'e' :: cs => skipExponent cs
  | 'E' :: cs => skipExponent cs
  | cs => .ok ((), cs)

def skipPlaces : JsonReader Unit
  | '.' :: cs => do
      let ((), cs) ← skipDigits cs
      skipScale cs
  | cs => skipScale cs

def skipNumber : JsonReader Unit
  | '0' :: cs => if startsWithDigit cs then .error .malformed else skipPlaces cs
  | cs => do
      let ((), cs) ← skipDigits cs
      skipPlaces cs

def skipValue (limit : Nat) : Nat → JsonReader Unit
  | 0, _ => .error .ended
  | fuel + 1, cs =>
      match skipBlanks cs with
      | [] => .error .ended
      | 'n' :: cs => word "ull".toList cs
      | 't' :: cs => word "rue".toList cs
      | 'f' :: cs => word "alse".toList cs
      | '"' :: cs => (stringBody true (limit + 1) [] cs).map fun (_, cs) => ((), cs)
      | '-' :: cs => skipNumber cs
      | '[' :: cs =>
          (items (skipValue limit fuel) (limit + 1) true [] cs).map fun (_, cs) => ((), cs)
      | '\x7b' :: cs =>
          let member (_ : Unit) (_ : String) : JsonReader Unit := fun cs => do
            let ((), cs) ← colon cs
            skipValue limit fuel cs
          members true (limit + 1) member (limit + 1) true () cs
      | c :: cs => if (digit? c).isSome then skipNumber (c :: cs) else .error .malformed

/-- The fault of finding a value that is not accepted here: a scalar is read first, so its own
faults win. -/
def mismatch (limit : Nat) (cs : List Char) : DocumentFault :=
  let after {β : Type} (result : Except DocumentFault β) : DocumentFault :=
    match result with
    | .error fault => fault
    | .ok _ => .shape
  match cs with
  | [] => .ended
  | '[' :: _ => .shape
  | '\x7b' :: _ => .shape
  | 'n' :: cs => after (word "ull".toList cs)
  | 't' :: cs => after (word "rue".toList cs)
  | 'f' :: cs => after (word "alse".toList cs)
  | '"' :: cs => after (stringBody false (limit + 1) [] cs)
  | '-' :: cs => after (number true cs)
  | c :: cs => if (digit? c).isSome then after (number false (c :: cs)) else .malformed

/-- Nothing but blanks may follow a document. -/
def finish (result : Except DocumentFault (α × List Char)) : Except DocumentFault α :=
  match result with
  | .error fault => .error fault
  | .ok (document, rest) =>
      match skipBlanks rest with
      | [] => .ok document
      | _ => .error .malformed

end JsonReader

/-- Lists and objects nest at most this deep. -/
def Json.depthLimit : Nat := 127

def Json.parseWithin (depth : Nat) (text : String) : Except DocumentFault Json :=
  JsonReader.finish (JsonReader.value text.length depth text.toList)

def Json.parse (text : String) : Except DocumentFault Json :=
  Json.parseWithin Json.depthLimit text

end PackEngine
