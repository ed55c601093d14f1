/-!
# Double-precision numbers

A double is its 64 bits: sign, eleven exponent bits, fifty-two fraction bits. Arithmetic is exact on
ratios of natural numbers and rounded once at the end, to the nearest double and in a tie to the even
one (`roundRatio`). Only what reading numbers needs is here: rounding a ratio, a product with and a
quotient by another double.
-/
namespace Listing

/-- A double-precision number, given by its bits. -/
structure Double where
  bits : UInt64
deriving DecidableEq, Repr, Inhabited

namespace Double

/-- Bits of infinity; larger magnitudes are no numbers. -/
def infinityBits : Nat := 0x7FF0000000000000

/-- Bits that are no number. -/
def quietBits : Nat := 0x7FF8000000000000

/-- The bit of a negative double. -/
def signBit : Nat := 0x8000000000000000

/-- The leading bit of a significand of fifty-three bits; the bits of the fraction are below it. -/
def leadingBit : Nat := 0x10000000000000

/-- The bits without the sign. -/
def magnitudeBits (x : Double) : Nat := x.bits.toNat % signBit

def isNegative (x : Double) : Bool := signBit ≤ x.bits.toNat

def isFinite (x : Double) : Bool := x.magnitudeBits < infinityBits

def isInfinite (x : Double) : Bool := x.magnitudeBits == infinityBits

def isZero (x : Double) : Bool := x.magnitudeBits == 0

/-- The whole number and the power of two whose product is the magnitude. -/
def parts (x : Double) : Nat × Int :=
  let field : Nat := x.magnitudeBits / leadingBit
  let fraction : Nat := x.magnitudeBits % leadingBit
  if field = 0 then (fraction, -1074) else (leadingBit + fraction, (field : Int) - 1075)

/-- The magnitude as a ratio of whole numbers. -/
def ratio (x : Double) : Nat × Nat :=
  let (m, e) := x.parts
  (m * .pow 2 e.toNat, .pow 2 (-e).toNat)

/-- The quotient to the nearest whole number, a half to the even one. -/
def roundHalfEven (num den : Nat) : Nat :=
  let q := num / den
  let r := num % den
  if 2 * r < den then q else if 2 * r > den then q + 1 else if q % 2 = 0 then q else q + 1

/-- The exponent `e` with `2 ^ e ≤ num / den < 2 ^ (e + 1)`, for positive numbers. -/
def binaryExponent (num den : Nat) : Int :=
  let e : Int := (num.log2 : Int) - den.log2
  if num * .pow 2 (-e).toNat < den * .pow 2 e.toNat then e - 1 else e

/-- Bits of the double nearest to `num / den`, infinity when that is too large.
The last place is `2 ^ e` with `e ≥ -1074`, so that the bits are the count of last places plus `leadingBit`
for every step of `e` above the least. -/
def roundRatio (num den : Nat) : Nat :=
  if num = 0 then 0
  else
    let e : Int := max (binaryExponent num den - 52) (-1074)
    let places := roundHalfEven (num * .pow 2 (-e).toNat) (den * .pow 2 e.toNat)
    min (places + (e + 1074).toNat * leadingBit) infinityBits

/-- Puts a sign to the bits of a magnitude. -/
def ofMagnitude (negative : Bool) (bits : Nat) : Double :=
  ⟨.ofNat (bits + if negative then signBit else 0)⟩

def ofNat (n : Nat) : Double := ofMagnitude false (roundRatio n 1)

def ofInt (n : Int) : Double := ofMagnitude (n < 0) (roundRatio n.natAbs 1)

/-- The product of two magnitudes. -/
def mulMagnitude (x y : Double) : Double :=
  ofMagnitude false (roundRatio (x.ratio.1 * y.ratio.1) (x.ratio.2 * y.ratio.2))

/-- The quotient of two magnitudes, the second not zero. -/
def divMagnitude (x y : Double) : Double :=
  ofMagnitude false (roundRatio (x.ratio.1 * y.ratio.2) (x.ratio.2 * y.ratio.1))

def neg (x : Double) : Double := ofMagnitude (!x.isNegative) x.magnitudeBits

/-- The double nearest to `10 ^ n`. -/
def powerOfTen (n : Nat) : Double := ofNat (.pow 10 n)

/-- The double nearest to `digits * 10 ^ exponent`, rounded once. -/
def ofDecimal (negative : Bool) (digits : Nat) (exponent : Int) : Double :=
  ofMagnitude negative (roundRatio (digits * .pow 10 exponent.toNat) (.pow 10 (-exponent).toNat))

/-- Sixteen hexadecimal digits of the bits. -/
def hex (x : Double) : String :=
  let ds := Nat.toDigits 16 x.bits.toNat
  .ofList (List.replicate (16 - ds.length) '0' ++ ds)

end Double
end Listing
