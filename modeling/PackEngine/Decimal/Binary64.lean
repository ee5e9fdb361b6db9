/-! Double-precision numbers as their 64 bits, with exact integer arithmetic. Every operation
computes the exact quotient of two naturals and rounds it once, to nearest, ties to even. -/
namespace PackEngine

structure Binary64 where
  bits : UInt64
deriving DecidableEq, Repr, Inhabited

namespace Binary64

def signBit : Nat := Nat.pow 2 63

/-- Bits of the positive infinity; the finite magnitudes are exactly the smaller patterns. -/
def infinityBits : Nat := 2047 * Nat.pow 2 52

def ofMagnitude (negative : Bool) (magnitude : Nat) : Binary64 :=
  ⟨UInt64.ofNat (if negative then signBit + magnitude else magnitude)⟩

def isNegative (x : Binary64) : Bool := signBit ≤ x.bits.toNat

def magnitudeBits (x : Binary64) : Nat := x.bits.toNat % signBit

def isNaN (x : Binary64) : Bool := infinityBits < x.magnitudeBits

def isInfinite (x : Binary64) : Bool := x.magnitudeBits == infinityBits

def isFinite (x : Binary64) : Bool := x.magnitudeBits < infinityBits

def isZero (x : Binary64) : Bool := x.magnitudeBits == 0

def zero : Binary64 := ⟨0⟩

def infinity (negative : Bool) : Binary64 := ofMagnitude negative infinityBits

def nan : Binary64 := ofMagnitude false (infinityBits + Nat.pow 2 51)

def neg (x : Binary64) : Binary64 := ofMagnitude (!x.isNegative) x.magnitudeBits

/-- A finite magnitude is `significand * 2 ^ exponent`. -/
def significand (x : Binary64) : Nat :=
  let field := x.magnitudeBits / Nat.pow 2 52
  let fraction := x.magnitudeBits % Nat.pow 2 52
  if field = 0 then fraction else Nat.pow 2 52 + fraction

def exponent (x : Binary64) : Int :=
  let field : Nat := x.magnitudeBits / Nat.pow 2 52
  if field = 0 then -1074 else (field : Int) - 1075

/-- The gap to the value below is half the gap to the value above. -/
def narrowBelow (x : Binary64) : Bool :=
  x.magnitudeBits % Nat.pow 2 52 == 0 && 1 < x.magnitudeBits / Nat.pow 2 52

/-- Quotient to the nearest natural, a half going to the even neighbour. -/
def roundQuotient (num den : Nat) : Nat :=
  let quotient := num / den
  let twice := 2 * (num % den)
  if twice < den then quotient
  else if den < twice then quotient + 1
  else quotient + quotient % 2

/-- The exponent of the last place of `num / den`, never below that of the smallest value. -/
def lastPlace (num den : Nat) : Int :=
  let guess : Int := (num.log2 : Int) - (den.log2 : Int) - 52
  let below := num * Nat.pow 2 (-guess).toNat < den * Nat.pow 2 52 * Nat.pow 2 guess.toNat
  max (if below then guess - 1 else guess) (-1074)

/-- The double nearest to `num / den`. A significand that rounds up to the next power of two
carries into the exponent field, which is the right value there. -/
def ofRatio (negative : Bool) (num den : Nat) : Binary64 :=
  if num = 0 then ofMagnitude negative 0
  else
    let place := lastPlace num den
    let rounded := roundQuotient (num * Nat.pow 2 (-place).toNat) (den * Nat.pow 2 place.toNat)
    ofMagnitude negative (min infinityBits ((place + 1074).toNat * Nat.pow 2 52 + rounded))

/-- The double nearest to `digits * 10 ^ scale`. -/
def ofDecimal (negative : Bool) (digits : Nat) (scale : Int) : Binary64 :=
  if digits = 0 then ofMagnitude negative 0
  else
    -- Far outside the range the power itself need not be formed.
    let leading : Int := (digits.log2 : Int) * 30103 / 100000 + scale
    if 400 < leading then infinity negative
    else if leading < -400 then ofMagnitude negative 0
    else ofRatio negative (digits * Nat.pow 10 scale.toNat) (Nat.pow 10 (-scale).toNat)

def ofNat (n : Nat) : Binary64 := ofRatio false n 1

def ofInt (n : Int) : Binary64 := ofRatio (n < 0) n.natAbs 1

/-- The product of two finite magnitudes, under the first one's sign. -/
def scaleUp (x factor : Binary64) : Binary64 :=
  let e := x.exponent + factor.exponent
  ofRatio x.isNegative (x.significand * factor.significand * Nat.pow 2 e.toNat)
    (Nat.pow 2 (-e).toNat)

/-- The quotient of two finite magnitudes, the second not zero, under the first one's sign. -/
def scaleDown (x divisor : Binary64) : Binary64 :=
  let e := x.exponent - divisor.exponent
  ofRatio x.isNegative (x.significand * Nat.pow 2 e.toNat)
    (divisor.significand * Nat.pow 2 (-e).toNat)

/-- The nearest integer of a finite value, a half going away from zero. -/
def round (x : Binary64) : Int :=
  let twice := 2 * x.significand * Nat.pow 2 x.exponent.toNat
  let unit := Nat.pow 2 (-x.exponent).toNat
  let nearest : Int := ((twice + unit) / (2 * unit) : Nat)
  if x.isNegative then -nearest else nearest

end Binary64

end PackEngine
