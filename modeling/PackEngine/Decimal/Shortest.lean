import PackEngine.Decimal.Binary64

/-! The shortest decimal that reads back as a given double: the first power-of-ten grid with a
point in the rounding interval, and on it the point nearer to the value. -/
namespace PackEngine

/-- The number `digits * 10 ^ scale`. -/
structure Decimal where
  digits : Nat
  scale : Int
deriving DecidableEq, Repr, Inhabited

/-- Where an exact tie between two shortest decimals goes. -/
inductive Tie where
  | toEven
  | up
deriving DecidableEq, Repr

namespace Decimal

/-- Compares `a * 10 ^ i` with `n * 2 ^ j`. -/
def compareScaled (a : Nat) (i : Int) (n : Nat) (j : Int) : Ordering :=
  compare (a * Nat.pow 10 i.toNat * Nat.pow 2 (-j).toNat)
    (n * Nat.pow 2 j.toNat * Nat.pow 10 (-i).toNat)

/-- The decimal lies among the reals that round to the magnitude of `x`; the ends belong to the
interval when the significand is even. -/
def readsBack (x : Binary64) (d : Decimal) : Bool :=
  let m := x.significand
  let low := if x.narrowBelow then 4 * m - 1 else 4 * m - 2
  let ends := m % 2 == 0
  let fromLow := compareScaled d.digits d.scale low (x.exponent - 2)
  let fromHigh := compareScaled d.digits d.scale (4 * m + 2) (x.exponent - 2)
  (fromLow == .gt || (ends && fromLow == .eq)) && (fromHigh == .lt || (ends && fromHigh == .eq))

/-- The number of grid steps below or at the magnitude of `x`. -/
def stepsBelow (x : Binary64) (scale : Int) : Nat :=
  (x.significand * Nat.pow 2 x.exponent.toNat * Nat.pow 10 (-scale).toNat) /
    (Nat.pow 2 (-x.exponent).toNat * Nat.pow 10 scale.toNat)

/-- Of two neighbours on a grid the nearer; twice the value is compared with their sum. -/
def nearer (tie : Tie) (x : Binary64) (scale : Int) (below : Nat) : Nat :=
  match compareScaled (2 * below + 1) scale x.significand (x.exponent + 1) with
  | .lt => below + 1
  | .gt => below
  | .eq =>
      match tie with
      | .up => below + 1
      | .toEven => below + below % 2

/-- The point of one grid that reads back, if there is one. -/
def onGrid? (tie : Tie) (x : Binary64) (scale : Int) : Option Decimal :=
  let below := stepsBelow x scale
  match readsBack x ⟨below, scale⟩, readsBack x ⟨below + 1, scale⟩ with
  | true, true => some ⟨nearer tie x scale below, scale⟩
  | true, false => some ⟨below, scale⟩
  | false, true => some ⟨below + 1, scale⟩
  | false, false => none

/-- Moves trailing zeros of the digits into the scale, at most `fuel` of them. -/
def stripZeros : Nat → Decimal → Decimal
  | 0, d => d
  | fuel + 1, d =>
      if d.digits ≠ 0 && d.digits % 10 == 0 then stripZeros fuel ⟨d.digits / 10, d.scale + 1⟩
      else d

/-- The decimal exponent of the leading digit of a nonzero magnitude. -/
def leadingExponent (x : Binary64) : Int :=
  let binary : Int := (x.significand.log2 : Int) + x.exponent
  let guess := binary * 30103 / 100000 - 1
  let reaches := fun k : Int => compareScaled 1 k x.significand x.exponent != .gt
  if reaches (guess + 2) then guess + 2
  else if reaches (guess + 1) then guess + 1
  else guess

def exact (x : Binary64) : Decimal :=
  ⟨x.significand * Nat.pow 2 x.exponent.toNat * Nat.pow 5 (-x.exponent).toNat, min x.exponent 0⟩

def shortest (tie : Tie) (x : Binary64) : Decimal :=
  if x.significand = 0 then ⟨0, 0⟩
  else
    let top := leadingExponent x
    let found := (List.range 17).findSome? fun (count : Nat) => onGrid? tie x (top - count)
    stripZeros 800 (found.getD (exact x))

end Decimal

end PackEngine
