import SlotGrid.Decimal.Shortest

/-! # Writing numbers

Which digits a number has is decided by `shortest`; a `Layout` decides how they are written. Lengths,
widths and regions are written `plain`; numbers inside the description of a token are `tagged`, where a
point or an exponent always shows that the number is a floating-point one.
-/

namespace SlotGrid.Decimal

/-- How the digits of a number are written. -/
structure Layout where
  /-- Whole numbers end in a point and a zero. -/
  pointed : Bool
  /-- Numbers from this power of ten on have an exponent. -/
  largeFrom : Option Int
  /-- Numbers below this power of ten have an exponent. -/
  smallBelow : Option Int
  deriving DecidableEq, Repr

/-- Every digit is written out, with neither a trailing point nor an exponent. -/
def Layout.plain : Layout := ⟨false, none, none⟩

/-- Whole numbers end in `.0`; from `10 ^ 16` on and below `10 ^ -4` there is an exponent. -/
def Layout.tagged : Layout := ⟨true, some 16, some (-4)⟩

/-- Whether a number with leading digit at `10 ^ top` has an exponent. -/
def Layout.isScientific (l : Layout) (top : Int) : Bool :=
  l.largeFrom.any (· ≤ top) || l.smallBelow.any (top < ·)

def dropTrailingZeros (ds : List Char) : List Char :=
  (ds.reverse.dropWhile (· = '0')).reverse

/-- The digits `ds` with the decimal point after the first `point` of them. -/
def positional (pointed : Bool) (ds : List Char) (point : Int) : List Char :=
  if point ≤ 0 then
    '0' :: '.' :: (List.replicate (-point).toNat '0' ++ ds)
  else if (ds.length : Int) ≤ point then
    ds ++ List.replicate (point - ds.length).toNat '0' ++ if pointed then ['.', '0'] else []
  else
    ds.take point.toNat ++ '.' :: ds.drop point.toNat

/-- One digit, the others after a point, and the power of ten. -/
def scientific (ds : List Char) (top : Int) : List Char :=
  ds.take 1 ++ (if ds.length ≤ 1 then [] else '.' :: ds.drop 1) ++ 'e' :: (toString top).toList

def Layout.digits (l : Layout) (d : Digits) : List Char :=
  if d.coefficient = 0 then
    if l.pointed then ['0', '.', '0'] else ['0']
  else
    let ds := Nat.toDigits 10 d.coefficient
    let point : Int := ds.length + d.exponent
    if l.isScientific (point - 1) then scientific (dropTrailingZeros ds) (point - 1)
    else positional l.pointed (dropTrailingZeros ds) point

def Layout.binary (l : Layout) (limit : Nat) (b : Binary) : String :=
  let sign := if b.negative then ['-'] else []
  match b.magnitude with
  | .nan => "NaN"
  | .infinite => .ofList (sign ++ ['i', 'n', 'f'])
  | .finite m e near => .ofList (sign ++ l.digits (shortest limit m e near))

/-- The text of a double-precision number. -/
def Layout.double (l : Layout) (x : Float) : String :=
  l.binary Encoding.double.digitLimit (.ofDouble x)

/-- The text of a single-precision number. -/
def Layout.single (l : Layout) (x : Float32) : String :=
  l.binary Encoding.single.digitLimit (.ofSingle x)

end SlotGrid.Decimal
