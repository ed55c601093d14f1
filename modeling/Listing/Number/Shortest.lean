import Listing.Number.Double
/-!
# Shortest decimals

The text of a double has as few digits as still tell it from every other double. A decimal with few
digits lies on a coarse grid of powers of ten, so the search tries the grids from coarse to fine and
stops at the first with a point among the numbers that round to the double; of two such points it
takes the nearer, and `tie` says which when they are equally near.
-/
namespace Listing.Number

/-- What to do when two shortest decimals are equally near. -/
inductive Tie where
  | toEven
  | up
deriving DecidableEq, Repr

/-- A decimal: `digits * 10 ^ exponent`. -/
structure Decimal where
  digits : Nat
  exponent : Int
deriving DecidableEq, Repr

/-- The numbers that round to a double, in quarters of its last place: the double itself, both ends,
whether the ends round to it, and the size of a quarter as a power of two. -/
structure Neighbourhood where
  low : Nat
  middle : Nat
  high : Nat
  closed : Bool
  scale : Int
deriving Repr

/-- Below a power of two the doubles are twice as dense, so that end is half as far. -/
def Neighbourhood.ofDouble (x : Double) : Neighbourhood :=
  let (m, e) := x.parts
  { low := if m = Double.leadingBit ∧ e > -1074 then 4 * m - 1 else 4 * m - 2
    middle := 4 * m
    high := 4 * m + 2
    closed := m % 2 = 0
    scale := e - 2 }

/-- The point of the grid of `10 ^ g` that writes the double, if one lies in its neighbourhood. -/
def Neighbourhood.pointOn? (tie : Tie) (n : Neighbourhood) (g : Int) : Option Decimal :=
  let up := Nat.pow 2 n.scale.toNat * Nat.pow 10 (-g).toNat
  let unit := Nat.pow 2 (-n.scale).toNat * Nat.pow 10 g.toNat
  let inside (p : Nat) : Bool :=
    if n.closed then n.low * up ≤ p * unit && p * unit ≤ n.high * up
    else n.low * up < p * unit && p * unit < n.high * up
  let below := n.middle * up / unit
  let rest := n.middle * up % unit
  match inside below, inside (below + 1) with
  | false, false => none
  | true, false => some ⟨below, g⟩
  | false, true => some ⟨below + 1, g⟩
  | true, true =>
    if 2 * rest < unit then some ⟨below, g⟩
    else if 2 * rest > unit then some ⟨below + 1, g⟩
    else match tie with
      | .up => some ⟨below + 1, g⟩
      | .toEven => some ⟨if below % 2 = 0 then below else below + 1, g⟩

/-- Exponents of the grids, coarse to fine; the finest separates all doubles. -/
def gridExponents : List Int := (List.range 660).map fun (i : Nat) => 309 - (i : Int)

/-- The shortest decimal that reads back as the finite double, its sign apart. -/
def shortest (tie : Tie) (x : Double) : Decimal :=
  if x.isZero then ⟨0, 0⟩
  else (gridExponents.findSome? ((Neighbourhood.ofDouble x).pointOn? tie)).getD ⟨0, 0⟩

end Listing.Number
