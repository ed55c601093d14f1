/-!
# Letters of the ASCII range

Keywords (`and`, `asc`, `as`) and platform names are compared without regard to the case of the
letters A to Z; every other character is compared as it stands.
-/
namespace Listing.Text

/-- The text with A to Z lowered and all else kept. -/
def asciiLower (s : String) : String := .ofList (s.toList.map Char.toLower)

/-- Equal up to the case of A to Z. -/
def sameAscii (s t : String) : Bool := s.toList.map Char.toLower == t.toList.map Char.toLower

/-- An ASCII letter or digit. -/
def isAsciiAlnum (c : Char) : Bool := c.isAlphanum

/-- The number that decimal digits write, most significant first. -/
def digitsToNat (ds : List Char) : Nat :=
  ds.foldl (fun n d => 10 * n + (d.toNat - '0'.toNat)) 0

theorem sameAscii_refl (s : String) : sameAscii s s = true := by simp [sameAscii]

end Listing.Text
