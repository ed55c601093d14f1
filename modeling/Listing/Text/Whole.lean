import Listing.Text.Ascii
/-!
# Whole numbers in text

A whole number is written with ASCII digits and perhaps a plus sign in front, with nothing around it.
-/
namespace Listing.Text

/-- Why a text is no whole number. -/
inductive WholeFault where
  | empty
  | invalidDigit
  | tooLarge
deriving DecidableEq, Repr

def WholeFault.message : WholeFault → String
  | empty => "cannot parse integer from empty string"
  | invalidDigit => "invalid digit found in string"
  | tooLarge => "number too large to fit in target type"

/-- The digits behind a plus sign, which counts only in front of another character. -/
def behindPlus : List Char → List Char
  | '+' :: c :: cs => c :: cs
  | cs => cs

/-- Reads digits onto a number; the first digit that is none or leads to the bound is at fault. -/
def wholeFrom (bound n : Nat) : List Char → Except WholeFault Nat
  | [] => .ok n
  | c :: cs =>
    if !c.isDigit then .error .invalidDigit
    else
      let n := 10 * n + (c.toNat - '0'.toNat)
      if bound ≤ n then .error .tooLarge else wholeFrom bound n cs

/-- The whole number below `bound` that the text writes. -/
def whole (bound : Nat) (text : String) : Except WholeFault Nat :=
  match behindPlus text.toList with
  | [] => .error .empty
  | ds => wholeFrom bound 0 ds

end Listing.Text
