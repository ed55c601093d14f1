import Listing.Text.Case.Table
/-!
# Lower-casing

Every character is lowered by the case tables. Two characters need more: `İ` becomes `i` and a dot
above, and `Σ` becomes `ς` at the end of a word and `σ` elsewhere. A sigma ends a word when, looking
past ignorable characters, a cased one stands before it and none after it.
-/
namespace Listing.Text

/-- Whether a code point is in one of the runs. -/
def inRuns (runs : List (Nat × Nat)) (n : Nat) : Bool := runs.any fun (a, b) => a ≤ n && n ≤ b

def isCaseIgnorable (c : Char) : Bool := inRuns caseIgnorableRuns c.toNat

/-- Whether, after ignorable characters, the text goes on with a cased one. -/
def meetsCased (cs : List Char) : Bool :=
  match cs.dropWhile isCaseIgnorable with
  | [] => false
  | c :: _ => inRuns casedRuns c.toNat

/-- The lower-case form of a character that stands for itself. -/
def lowerChar (c : Char) : List Char :=
  if c = 'İ' then ['i', '\u0307']
  else match caseRuns.findSome? (·.lower? c.toNat) with
    | some n => [Char.ofNat n]
    | none => [c]

/-- Lowers a text; `before` is what stands before it, nearest first. -/
def lowerAfter (before : List Char) : List Char → List Char
  | [] => []
  | c :: after =>
    (if c = 'Σ' then [if meetsCased before && !meetsCased after then 'ς' else 'σ'] else lowerChar c) ++
      lowerAfter (c :: before) after

/-- The text in lower case. -/
def lowercase (s : String) : String := .ofList (lowerAfter [] s.toList)

end Listing.Text
