import Listing.Catalog.Basic
/-!
# Changes of a catalog

A change either succeeds or is refused with an error; `apply` gives the catalog afterwards in both
cases. Restrictions look for every name before they change a field; options for several fields are
applied one field after the other, so that those before an unknown name stay.
-/
namespace Listing

namespace Catalog

/-- Applies options to one field. -/
def customize (c : Catalog) (name : String) (options : FieldOptions) : Except Error Catalog :=
  c.modify name options.apply

/-- The first name that is no field's. -/
def firstUndeclared? (c : Catalog) (names : List String) : Option String :=
  names.find? fun n => !c.contains n

/-- Allows filters only by the named fields. -/
def restrictFilters (c : Catalog) (names : List String) : Except Error Catalog :=
  match c.firstUndeclared? names with
  | some n => .error (.undeclaredField n)
  | none => .ok { c with fields := c.fields.map fun f => { f with filterable := names.contains f.name } }

/-- Allows sorting only by the named fields. -/
def restrictSorts (c : Catalog) (names : List String) : Except Error Catalog :=
  match c.firstUndeclared? names with
  | some n => .error (.undeclaredField n)
  | none => .ok { c with fields := c.fields.map fun f => { f with sortable := names.contains f.name } }

/-- A change that may be asked of a catalog. -/
inductive Change where
  | customize (name : String) (options : FieldOptions)
  | customizeAll (options : List (String × FieldOptions))
  | restrictFilters (names : List String)
  | restrictSorts (names : List String)
  | setRenderer (name : String) (renderer : Renderer)
  | setTransform (name : String) (transform : Transform)

/-- The catalog after a step that leaves it alone when refused, and the refusal. -/
def settle (c : Catalog) : Except Error Catalog → Catalog × Except Error Unit
  | .ok c' => (c', .ok ())
  | .error e => (c, .error e)

/-- Applies options field by field, up to the first unknown name. -/
def customizeAll (c : Catalog) : List (String × FieldOptions) → Catalog × Except Error Unit
  | [] => (c, .ok ())
  | (name, options) :: rest =>
    match c.customize name options with
    | .ok c' => customizeAll c' rest
    | .error e => (c, .error e)

/-- The catalog after a change, and whether it was refused. -/
def apply (c : Catalog) : Change → Catalog × Except Error Unit
  | .customize name options => c.settle (c.customize name options)
  | .customizeAll options => c.customizeAll options
  | .restrictFilters names => c.settle (c.restrictFilters names)
  | .restrictSorts names => c.settle (c.restrictSorts names)
  | .setRenderer name r => c.settle (c.modify name fun f => { f with renderer := some r })
  | .setTransform name t => c.settle (c.modify name fun f => { f with transform := some t })

/-- The catalog after a change that must succeed. -/
def require (c : Catalog) (change : Change) : Except Error Catalog :=
  let (c', result) := c.apply change
  result.map fun _ => c'

end Catalog
end Listing
