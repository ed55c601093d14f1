import Listing.Json.Basic
import Listing.Text.Ascii
/-!
# Tokens of a JSON document

The text is cut into punctuation, strings and the other scalars. A number keeps at most 64 bits of its
digits and is scaled by powers of ten with one rounding a step; one beyond the range of doubles is a
token without a value, and so is a string with half a surrogate pair. Raw control characters in a string
are refused.
-/
namespace Listing.Json

/-- Punctuation, a string, or another scalar; the last two may have no value. -/
inductive Token where
  | mark (c : Char)
  | text (s : Option String)
  | scalar (value : Option Json)
deriving Repr

/-! ## Numbers -/

/-- Reads digits onto a significand as long as 64 bits hold it; also gives the count left over. -/
def gather (significand : Nat) : List Char → Nat × Nat
  | [] => (significand, 0)
  | d :: ds =>
    let next := 10 * significand + (d.toNat - '0'.toNat)
    if next < UInt64.size then gather next ds else (significand, ds.length + 1)

/-- The magnitude times a power of ten, unless that is too large; steps of more than `10 ^ 308` are
taken one after the other. -/
def scale? (x : Double) (e : Int) : Option Double :=
  if e.natAbs ≤ 308 then
    if 0 ≤ e then
      let y := x.mulMagnitude (.powerOfTen e.natAbs)
      if y.isFinite then some y else none
    else some (x.divMagnitude (.powerOfTen e.natAbs))
  else if x.isZero then some x
  else if 0 ≤ e then none
  else scale? (x.divMagnitude (.powerOfTen 308)) (e + 308)
termination_by e.natAbs

/-- The number of a sign, digits before and after the point, and an exponent. Without point and
exponent it is an integer if 64 bits hold it, signed or unsigned; `-0` is the negative double. -/
def numberOf? (negative : Bool) (whole : List Char) (fraction : Option (List Char))
    (exponent : Option Int) : Option Json :=
  let (significand, left) := gather 0 whole
  let signed (x : Double) : Json := .float (if negative then x.neg else x)
  match fraction, exponent, left with
  | none, none, 0 =>
    if !negative then some (.int significand)
    else if significand = 0 ∨ -(significand : Int) < Int64.minValue.toInt then some (signed (.ofNat significand))
    else some (.int (-(significand : Int)))
  | _, _, _ =>
    let ds := fraction.getD []
    let (significand, unread) := gather significand ds
    let e : Int := (left : Int) - ((ds.length : Int) - unread) + exponent.getD 0
    (scale? (.ofNat significand) e).map signed

/-- Digits at the front, at least one, and the rest. -/
def digits? (cs : List Char) : Option (List Char × List Char) :=
  match cs.takeWhile Char.isDigit with
  | [] => none
  | ds => some (ds, cs.dropWhile Char.isDigit)

/-- The part after the point, if a point follows. -/
def fraction? : List Char → Option (Option (List Char) × List Char)
  | '.' :: cs => (digits? cs).map fun (ds, rest) => (some ds, rest)
  | cs => some (none, cs)

/-- The exponent, if one follows. -/
def exponent? : List Char → Option (Option Int × List Char)
  | [] => some (none, [])
  | c :: cs =>
    if c = 'e' ∨ c = 'E' then
      let (negative, cs) := match cs with
        | '-' :: cs => (true, cs)
        | '+' :: cs => (false, cs)
        | cs => (false, cs)
      (digits? cs).map fun (ds, rest) =>
        let n : Int := Text.digitsToNat ds
        (some (if negative then -n else n), rest)
    else some (none, c :: cs)

/-- A number, if it is in range, and the rest. -/
def number? (cs : List Char) : Option (Option Json × List Char) := do
  let (negative, cs) := match cs with
    | '-' :: cs => (true, cs)
    | cs => (false, cs)
  let (whole, cs) ← digits? cs
  if whole.head? = some '0' ∧ 1 < whole.length then none
  let (fraction, cs) ← fraction? cs
  let (exponent, cs) ← exponent? cs
  return (numberOf? negative whole fraction exponent, cs)

/-! ## Strings -/

def hexValue? (c : Char) : Option Nat :=
  if c.isDigit then some (c.toNat - '0'.toNat)
  else if 'a' ≤ c ∧ c ≤ 'f' then some (c.toNat - 'a'.toNat + 10)
  else if 'A' ≤ c ∧ c ≤ 'F' then some (c.toNat - 'A'.toNat + 10)
  else none

/-- The number that hexadecimal digits write. -/
def hexNumber? (cs : List Char) : Option Nat :=
  cs.foldlM (fun n c => (hexValue? c).map (16 * n + ·)) 0

/-- What a character after a backslash stands for, `u` apart. -/
def unescape? (c : Char) : Option Char :=
  if c = '\x22' ∨ c = '\\' ∨ c = '/' then some c
  else if c = 'b' then some '\x08'
  else if c = 'f' then some '\x0c'
  else if c = 'n' then some '\n'
  else if c = 'r' then some '\r'
  else if c = 't' then some '\t'
  else none

/-- The code units of a string up to its closing quote, and the rest; a unit is a character's code
point or half a surrogate pair. -/
def units? : List Char → Option (List Nat × List Char)
  | [] => none
  | c :: cs =>
    if c = '\x22' then some ([], cs)
    else if c = '\\' then
      match cs with
      | [] => none
      | e :: rest =>
        if e = 'u' then
          match rest with
          | h₁ :: h₂ :: h₃ :: h₄ :: rest => do
            let n ← hexNumber? [h₁, h₂, h₃, h₄]
            let (ns, rest) ← units? rest
            return (n :: ns, rest)
          | _ => none
        else do
          let u ← unescape? e
          let (ns, rest) ← units? rest
          return (u.toNat :: ns, rest)
    else if c.toNat < 0x20 then none
    else do
      let (ns, rest) ← units? cs
      return (c.toNat :: ns, rest)

/-- Joins surrogate pairs; with half a pair on its own there is no text. -/
def joinUnits? : List Nat → Option (List Char)
  | [] => some []
  | n :: ns =>
    if 0xD800 ≤ n ∧ n < 0xDC00 then
      match ns with
      | [] => none
      | m :: rest =>
        if 0xDC00 ≤ m ∧ m < 0xE000 then
          (joinUnits? rest).map (Char.ofNat (0x10000 + (n - 0xD800) * 0x400 + (m - 0xDC00)) :: ·)
        else none
    else if 0xDC00 ≤ n ∧ n < 0xE000 then none
    else (joinUnits? ns).map (Char.ofNat n :: ·)

/-! ## The whole text -/

/-- The first token and the rest; `c` is the first character, not blank. -/
def token? (c : Char) (cs : List Char) : Option (Token × List Char) :=
  if c ∈ ['[', ']', '\x7b', '\x7d', ',', ':'] then some (.mark c, cs)
  else if c = '\x22' then do
    let (units, rest) ← units? cs
    return (.text ((joinUnits? units).map .ofList), rest)
  else if c = 't' then
    match cs with
    | 'r' :: 'u' :: 'e' :: rest => some (.scalar (some (.bool true)), rest)
    | _ => none
  else if c = 'f' then
    match cs with
    | 'a' :: 'l' :: 's' :: 'e' :: rest => some (.scalar (some (.bool false)), rest)
    | _ => none
  else if c = 'n' then
    match cs with
    | 'u' :: 'l' :: 'l' :: rest => some (.scalar (some .null), rest)
    | _ => none
  else (number? (c :: cs)).map fun (value, rest) => (.scalar value, rest)

/-- The tokens of a text; the test on lengths holds at every token. -/
def tokens? (cs : List Char) : Option (List Token) :=
  match cs with
  | [] => some []
  | c :: rest =>
    if c ∈ [' ', '\n', '\t', '\r'] then tokens? rest
    else do
      let (t, after) ← token? c rest
      if after.length ≤ rest.length then
        return t :: (← tokens? after)
      else none
termination_by cs.length

end Listing.Json
