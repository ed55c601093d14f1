import Listing.Number.Shortest
/-!
# Numbers as text

Two ways to write a double share the shortest digits. In JSON a number from `1e-5` up to below `1e16`
is written with a point and at least one digit after it, any other with a signed exponent. As plain
text it never has an exponent, and an integral value has no point.
-/
namespace Listing.Number

/-- The decisions of a way to write doubles. -/
structure Style where
  tie : Tie
  /-- Whether a value of this leading exponent is written without an exponent. -/
  positional : Int → Bool
  /-- What follows an integral value written without an exponent. -/
  integral : String
  infinite : String
  noNumber : String

def jsonStyle : Style :=
  { tie := .toEven, positional := fun e => -5 ≤ e && e < 16, integral := ".0", infinite := "null",
    noNumber := "null" }

def plainStyle : Style :=
  { tie := .up, positional := fun _ => true, integral := "", infinite := "inf", noNumber := "NaN" }

/-- Digits, exponent by position, as `d…d`, `d…d.d…d` or `0.0…0d…d`; `point` is the count of digits
before the point, which may be negative. -/
def writePositional (integral : String) (ds : List Char) (point : Int) : String :=
  if (ds.length : Int) ≤ point then
    .ofList (ds ++ List.replicate (point.toNat - ds.length) '0') ++ integral
  else if 0 < point then
    .ofList (ds.take point.toNat ++ '.' :: ds.drop point.toNat)
  else .ofList ('0' :: '.' :: List.replicate (-point).toNat '0' ++ ds)

/-- One digit before the point and an exponent with its sign. -/
def writeScientific (ds : List Char) (exponent : Int) : String :=
  let sign := if exponent < 0 then "e-" else "e+"
  let mantissa := match ds with
    | d :: (e :: es) => .ofList (d :: '.' :: e :: es)
    | short => String.ofList short
  mantissa ++ sign ++ toString exponent.natAbs

/-- Significant digits, without zeros at the end. -/
def significant (n : Nat) : List Char :=
  match ((Nat.toDigits 10 n).reverse.dropWhile (· == '0')).reverse with
  | [] => ['0']
  | ds => ds

/-- The text of the double in the given style. -/
def write (style : Style) (x : Double) : String :=
  let sign := if x.isNegative then "-" else ""
  if x.isFinite then
    let d := shortest style.tie x
    let ds := significant d.digits
    let point : Int := (Nat.toDigits 10 d.digits).length + d.exponent
    let body :=
      if style.positional (point - 1) then writePositional style.integral ds point
      else writeScientific ds (point - 1)
    sign ++ body
  else if x.isInfinite then
    if style.infinite = style.noNumber then style.infinite else sign ++ style.infinite
  else style.noNumber

end Listing.Number
