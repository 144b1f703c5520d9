import SlotGrid.Decimal.Binary

/-! # Shortest decimals

The decimal of a number is the one with the fewest digits that rounds to the number, and among those of
that length the nearest to it. When two are equally near, the larger is taken.
-/

namespace SlotGrid.Decimal

/-- The decimal `coefficient * 10 ^ exponent`. -/
structure Digits where
  coefficient : Nat
  exponent : Int
  deriving DecidableEq, Repr

/-- The number of decimal digits of a positive number. -/
def digitCount (n : Nat) : Nat := (Nat.toDigits 10 n).length

/-- The `e` with `10 ^ (e - 1) ≤ num / den < 10 ^ e`. -/
def decimalExponent (num den : Nat) : Int :=
  let e : Int := digitCount num - digitCount den
  if den * Nat.pow 10 e.toNat ≤ num * Nat.pow 10 (-e).toNat then e + 1 else e

namespace Rounding

/-- Whether `k * 10 ^ p` rounds to the number. -/
def holdsDecimal (r : Rounding) (k : Nat) (p : Int) : Bool :=
  r.holds (k * Nat.pow 10 p.toNat) (Nat.pow 10 (-p).toNat)

/-- The multiple of `10 ^ p` at or below the number. -/
def floorAt (r : Rounding) (p : Int) : Nat :=
  r.value * Nat.pow 10 (-p).toNat / (r.scale * Nat.pow 10 p.toNat)

/-- The multiple of `10 ^ p` that is nearest to the number among the two around it that round to it. -/
def nearestAt? (r : Rounding) (p : Int) : Option Digits :=
  let k := r.floorAt p
  match r.holdsDecimal k p, r.holdsDecimal (k + 1) p with
  | false, false => none
  | true, false => some ⟨k, p⟩
  | false, true => some ⟨k + 1, p⟩
  | true, true =>
    if 2 * r.value * Nat.pow 10 (-p).toNat < (2 * k + 1) * r.scale * Nat.pow 10 p.toNat then some ⟨k, p⟩
    else some ⟨k + 1, p⟩

/-- The first decimal on the grids from `10 ^ p` downwards. -/
def shortestFrom (r : Rounding) : Nat → Int → Digits
  | 0, p => ⟨r.floorAt p, p⟩
  | n + 1, p =>
    match r.nearestAt? p with
    | some d => d
    | none => r.shortestFrom n (p - 1)

end Rounding

/-- The shortest decimal of a number with at most `limit` digits; zero has the coefficient 0. -/
def shortest (limit mantissa : Nat) (exponent : Int) (nearBelow : Bool) : Digits :=
  if mantissa = 0 then ⟨0, 0⟩
  else
    let r := Rounding.around mantissa exponent nearBelow
    r.shortestFrom limit (decimalExponent r.value r.scale - 1)

end SlotGrid.Decimal
