/-! # Binary fractions

A floating-point number is read off its bits as a sign and a product `mantissa * 2 ^ exponent` of integers.
The reals that round to it form an interval around it, whose ends lie half way to its neighbours; the
interval is what shortest decimals are chosen from.
-/

namespace SlotGrid.Decimal

/-- The widths of the two fields below the sign bit of a floating-point format. -/
structure Encoding where
  fractionBits : Nat
  exponentBits : Nat
  deriving DecidableEq, Repr

namespace Encoding

def double : Encoding := ⟨52, 11⟩

def single : Encoding := ⟨23, 8⟩

/-- The exponent of the unit in the last place of the smallest numbers. -/
def leastExponent (f : Encoding) : Int := 2 - Nat.pow 2 (f.exponentBits - 1) - f.fractionBits

/-- As many decimal digits as may be needed to tell a number from all others. -/
def digitLimit (f : Encoding) : Nat := (f.fractionBits + 1) * 30103 / 100000 + 2

end Encoding

inductive Magnitude
  | nan
  | infinite
  /-- The number `mantissa * 2 ^ exponent`; below a power of two the next number is only half as far. -/
  | finite (mantissa : Nat) (exponent : Int) (nearBelow : Bool)
  deriving DecidableEq, Repr

structure Binary where
  negative : Bool
  magnitude : Magnitude
  deriving DecidableEq, Repr

/-- Reads sign, exponent and fraction off the bits of a number. -/
def Binary.ofBits (f : Encoding) (bits : Nat) : Binary :=
  let fraction := bits % Nat.pow 2 f.fractionBits
  let biased := bits / Nat.pow 2 f.fractionBits % Nat.pow 2 f.exponentBits
  let magnitude :=
    if biased = Nat.pow 2 f.exponentBits - 1 then
      if fraction = 0 then .infinite else .nan
    else if biased = 0 then
      .finite fraction f.leastExponent false
    else
      .finite (Nat.pow 2 f.fractionBits + fraction) (f.leastExponent + (biased - 1)) (fraction = 0 ∧ 1 < biased)
  ⟨bits / Nat.pow 2 (f.fractionBits + f.exponentBits) % 2 = 1, magnitude⟩

def Binary.ofDouble (x : Float) : Binary := .ofBits .double x.toBits.toNat

def Binary.ofSingle (x : Float32) : Binary := .ofBits .single x.toBits.toNat

/-- The reals that round to one number, over the common denominator `scale`. -/
structure Rounding where
  low : Nat
  value : Nat
  high : Nat
  scale : Nat
  /-- Whether the two ends themselves round to the number. -/
  closed : Bool
  deriving DecidableEq, Repr

/-- A tie between two numbers goes to the even mantissa, so exactly the even ones own their ends. -/
def Rounding.around (mantissa : Nat) (exponent : Int) (nearBelow : Bool) : Rounding :=
  let unit := Nat.pow 2 (exponent - 2).toNat
  { low := (4 * mantissa - if nearBelow then 1 else 2) * unit
    value := 4 * mantissa * unit
    high := (4 * mantissa + 2) * unit
    scale := Nat.pow 2 (2 - exponent).toNat
    closed := mantissa % 2 = 0 }

/-- Whether the fraction `num / den` rounds to the number. -/
def Rounding.holds (r : Rounding) (num den : Nat) : Bool :=
  if r.closed then
    decide (r.low * den ≤ num * r.scale ∧ num * r.scale ≤ r.high * den)
  else
    decide (r.low * den < num * r.scale ∧ num * r.scale < r.high * den)

end SlotGrid.Decimal
