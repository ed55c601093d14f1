import Listing.Param.Value
/-!
# Named parameters

A bag maps names to values and keeps the order in which the names came. Inserting under a name that
is there replaces the value and leaves the place.
-/
namespace Listing

/-- The entries with a value put under a name: in place if the name is there, else at the end. -/
def Bag.put (name : String) (value : Value) : List (String × Value) → List (String × Value)
  | [] => [(name, value)]
  | (n, v) :: rest => if n = name then (n, value) :: rest else (n, v) :: Bag.put name value rest

/-- Parameters in the order of their first insertion. -/
structure Bag where
  entries : List (String × Value)
deriving Repr, Inhabited

namespace Bag

def empty : Bag := ⟨[]⟩

/-- Puts a value under a name, in place of an earlier one. -/
def insert (bag : Bag) (name : String) (value : Value) : Bag := ⟨put name value bag.entries⟩

def get? (bag : Bag) (name : String) : Option Value := bag.entries.lookup name

def names (bag : Bag) : List String := bag.entries.map Prod.fst

def size (bag : Bag) : Nat := bag.entries.length

def isEmpty (bag : Bag) : Bool := bag.entries.isEmpty

/-- Inserts entries one after the other. -/
def insertAll (bag : Bag) (entries : List (String × Value)) : Bag :=
  entries.foldl (fun b (n, v) => b.insert n v) bag

/-- Inserts every parameter of another bag, in its order. -/
def extend (bag other : Bag) : Bag := bag.insertAll other.entries

/-- An object with the parameters in order. -/
def toJson (bag : Bag) : Json := .obj (bag.entries.map fun (n, v) => (n, v.toJson))

@[simp] theorem insertAll_nil (bag : Bag) : bag.insertAll [] = bag := rfl

@[simp] theorem extend_empty (bag : Bag) : bag.extend empty = bag := rfl

end Bag
end Listing
