import Listing.Json.Basic
/-!
# Reading records from JSON

A record is read from an object. It knows some keys, each of which may stand once; keys it does not
know are passed over. A key may be `required`, have a default (`optional`), or be `nullable`, where
null means the same as no value. Readers answer `none` for a value that does not fit.
-/
namespace Listing.Json

abbrev Members := List (String × Json)

/-- The value of a known key, if there is one; a repeated key is refused. -/
def single? (key : String) (members : Members) : Option (Option Json) :=
  match members.filter (fun m => m.1 == key) with
  | [] => some none
  | [(_, j)] => some (some j)
  | _ => none

/-- The value of a key that must be there. -/
def required (members : Members) (key : String) (read : Json → Option α) : Option α := do
  match ← single? key members with
  | some j => read j
  | none => none

/-- The value of a key, or a default without it. -/
def optional (members : Members) (key : String) (read : Json → Option α) (default : α) : Option α := do
  match ← single? key members with
  | some j => read j
  | none => some default

/-- The value of a key, `none` without it and for null. -/
def nullable (members : Members) (key : String) (read : Json → Option α) : Option (Option α) := do
  match ← single? key members with
  | none => some none
  | some .null => some none
  | some j => (read j).map some

/-- A list all of whose items fit. -/
def listOf (read : Json → Option α) (j : Json) : Option (List α) := do
  (← j.items?).mapM read

/-- A whole number of 64 bits without sign. -/
def word? : Json → Option UInt64
  | .int n => if 0 ≤ n ∧ n < UInt64.size then some (.ofNat n.toNat) else none
  | _ => none

/-- A value or null for none. -/
def ofOption (write : α → Json) : Option α → Json
  | none => .null
  | some a => write a

def strings (ss : List String) : Json := .arr (ss.map .str)

def ofNat (n : Nat) : Json := .int n

end Listing.Json
