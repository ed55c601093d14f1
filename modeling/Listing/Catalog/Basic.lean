import Std.Data.HashMap
import Listing.Catalog.Field
import Listing.Skeleton
/-!
# Catalogs

The catalog of a list holds its fields in the order of their declaration, with an index from names to
positions. It answers what clients may do (`resolve`, `checkFilter`, `describe`) and is changed only
field by field (`modify`); no change touches a field's name.
-/
namespace Listing

structure Catalog where
  fields : List Field
  /-- Where the field of a name stands. -/
  index : Std.HashMap String Nat

namespace Catalog

def empty : Catalog := ⟨[], ∅⟩

instance : Inhabited Catalog := ⟨empty⟩

/-- Declares a field; one of the same name is replaced where it stands. -/
def declare (c : Catalog) (f : Field) : Catalog :=
  match c.index[f.name]? with
  | some i => { c with fields := c.fields.set i f }
  | none => ⟨c.fields ++ [f], c.index.insert f.name c.fields.length⟩

/-- The catalog of columns; names are bare in wrapping queries too. -/
def ofColumns (columns : List Column) : Catalog :=
  columns.foldl (fun c col => c.declare (.ofColumn col.name col.expression)) empty

/-- The catalog of a skeleton's output; in wrapping queries names are quoted as in the statement. -/
def ofSkeleton (s : Skeleton) (p : Platform) : Except Error Catalog := do
  let c := ofColumns (← s.columns)
  return { c with fields := c.fields.map fun f => { f with outputName := p.quote f.name } }

def get? (c : Catalog) (name : String) : Option Field :=
  c.index[name]?.bind fun i => c.fields[i]?

def contains (c : Catalog) (name : String) : Bool := c.index.contains name

def size (c : Catalog) : Nat := c.fields.length

/-- The catalog with the field of a name changed. -/
def modify (c : Catalog) (name : String) (change : Field → Field) : Except Error Catalog :=
  match c.index[name]? with
  | some i => .ok { c with fields := c.fields.modify i change }
  | none => .error (.undeclaredField name)

/-! ## What clients may do -/

/-- The field that a filter names. -/
def resolve (c : Catalog) (name : String) : Except Error Field :=
  match c.get? name with
  | some f => if f.filterable then .ok f else .error (.filterNotAllowed name)
  | none => .error (.filterNotAllowed name)

/-- The field that a filter names, if it allows the operator. -/
def checkFilter (c : Catalog) (name : String) (op : Operator) : Except Error Field := do
  let f ← c.resolve name
  if f.allows op then return f else .error (.operatorNotAllowed op name)

/-- The field that a sort names. -/
def sortField (c : Catalog) (name : String) : Except Error Field :=
  match c.get? name with
  | some f => if f.sortable then .ok f else .error (.sortNotAllowed name)
  | none => .error (.sortNotAllowed name)

def allowsFilter (c : Catalog) (name : String) : Bool := (c.get? name).any (·.filterable)

def allowsSort (c : Catalog) (name : String) : Bool := (c.get? name).any (·.sortable)

/-! ## What clients are told -/

/-- The surface of a list: filterable fields by name with their operators, sortable fields in order. -/
structure Help where
  filters : List (String × List Operator)
  sorts : List String
deriving Repr

def describe (c : Catalog) : Help :=
  { filters := Keyed.ofList ((c.fields.filter (·.filterable)).map fun f => (f.name, f.operators))
    sorts := (c.fields.filter (·.sortable)).map (·.name) }

def Help.toJson (h : Help) : Json :=
  .obj [
    ("allowed_filters", .obj (h.filters.map fun (name, ops) =>
      (name, .obj [("operators", Json.strings (ops.map Operator.token))]))),
    ("allowed_sort", Json.strings h.sorts)]

end Catalog
end Listing
