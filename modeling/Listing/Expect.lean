import Listing.Json.Printer
import Listing.Text.Search
/-!
# Expectations

What tests expect of a query's text and of JSON answers. An expectation that is not met says what was
looked for and where.
-/
namespace Listing.Expect

/-- An object has a member of the key. -/
def hasKey (value : Json) (key : String) : Except String Unit :=
  match value with
  | .obj ms => if (Json.member? key ms).isSome then .ok () else .error (missing value key)
  | _ => .error (missing value key)
where
  missing (value : Json) (key : String) : String :=
    "Expected JSON to have key \x27" ++ key ++ "\x27, got: " ++ value.compact

def contains (text needle : String) : Except String Unit :=
  if Text.occurs needle text then .ok ()
  else .error ("Expected string to contain \x27" ++ needle ++ "\x27\nActual: " ++ text)

def notContains (text needle : String) : Except String Unit :=
  if Text.occurs needle text then
    .error ("Expected string to NOT contain \x27" ++ needle ++ "\x27\nActual: " ++ text)
  else .ok ()

/-- The first needle that does not occur behind the ones before it, each taken at its leftmost place,
with the count of bytes before the place where it was looked for. -/
def firstMissing? (passed : Nat) (rest : List Char) : List String → Option (String × Nat)
  | [] => none
  | needle :: needles =>
    match Text.cutAt? needle.toList rest with
    | none => some (needle, passed)
    | some (before, after) =>
      firstMissing? (passed + (String.ofList before).utf8ByteSize + needle.utf8ByteSize) after needles

/-- The needles occur one behind the other. -/
def inOrder (text : String) (needles : List String) : Except String Unit :=
  match firstMissing? 0 text.toList needles with
  | none => .ok ()
  | some (needle, passed) =>
    .error ("Expected \x27" ++ needle ++ "\x27 after byte " ++ toString passed ++ "\nActual: " ++ text)

end Listing.Expect
