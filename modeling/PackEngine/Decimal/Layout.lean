import PackEngine.Decimal.Shortest

/-! How the digits of a number are laid out. A layout is a record of the decisions a text format
makes; the formats used in this library are its three values. -/
namespace PackEngine

structure NumberLayout where
  /-- Exponents of the leading digit that are written positionally; `none` is no bound. -/
  plainFrom : Option Int
  plainBelow : Option Int
  /-- Whole values keep a `.0`. -/
  pointZero : Bool
  /-- Positive exponents carry their sign. -/
  exponentPlus : Bool
  tie : Tie

namespace NumberLayout

/-- Numbers in command text: always positional, whole values without a point. -/
def plain : NumberLayout := ⟨none, none, false, false, .up⟩

def described : NumberLayout := ⟨some (-4), some 16, true, false, .up⟩

def compact : NumberLayout := ⟨some (-5), some 16, true, true, .toEven⟩

def isPlain (layout : NumberLayout) (leading : Int) : Bool :=
  layout.plainFrom.all (· ≤ leading) && layout.plainBelow.all (leading < ·)

def zeros (count : Nat) : String := String.ofList (List.replicate count '0')

def layPlain (layout : NumberLayout) (digits : String) (scale : Int) : String :=
  let count : Int := digits.length
  if 0 ≤ scale then
    digits ++ zeros scale.toNat ++ if layout.pointZero then ".0" else ""
  else if 0 < count + scale then
    let whole := (count + scale).toNat
    String.ofList (digits.toList.take whole) ++ "." ++ String.ofList (digits.toList.drop whole)
  else
    "0." ++ zeros (-(count + scale)).toNat ++ digits

def layScientific (layout : NumberLayout) (digits : String) (leading : Int) : String :=
  let mantissa :=
    match digits.toList with
    | [] => ""
    | [d] => String.singleton d
    | d :: rest => String.singleton d ++ "." ++ String.ofList rest
  let sign := if leading < 0 then "-" else if layout.exponentPlus then "+" else ""
  mantissa ++ "e" ++ sign ++ toString leading.natAbs

def render (layout : NumberLayout) (x : Binary64) : String :=
  if x.isNaN then "NaN"
  else
    let sign := if x.isNegative then "-" else ""
    if x.isInfinite then sign ++ "inf"
    else
      let d := Decimal.shortest layout.tie x
      let digits := toString d.digits
      let leading := (digits.length : Int) - 1 + d.scale
      sign ++
        if d.digits = 0 || layout.isPlain leading then layout.layPlain digits d.scale
        else layout.layScientific digits leading

end NumberLayout

end PackEngine
