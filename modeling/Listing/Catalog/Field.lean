import Listing.Filter.Hook
/-!
# Fields

A field is a column of the list under the name by which clients filter and sort. It says which
operators are allowed, whether values are compared in lower case, and whether it is an aggregate, which
can be filtered only from a query around the list's own.
-/
namespace Listing

structure Field where
  name : String
  /-- The expression in the list's own query. -/
  expression : String
  /-- The name of the output column as a wrapping query writes it. -/
  outputName : String
  operators : List Operator
  filterable : Bool
  sortable : Bool
  lowerCased : Bool
  aggregated : Bool
  renderer : Option Renderer
  transform : Option Transform
deriving Inhabited

namespace Field

/-- A field with everything allowed and no hooks, of the same name in a wrapping query. -/
def ofColumn (name expression : String) : Field :=
  { name, expression, outputName := name, operators := Operator.all, filterable := true,
    sortable := true, lowerCased := false, aggregated := false, renderer := none, transform := none }

def allows (f : Field) (op : Operator) : Bool := f.operators.contains op

/-- The renderer of the field's conditions: its own, else the lower-casing one of a lower-cased field. -/
def renderer? (f : Field) : Option Renderer :=
  f.renderer.or (if f.lowerCased then some Renderer.lower else none)

/-- The transform of the field's values: its own, else the lower-casing one of a lower-cased field. -/
def transform? (f : Field) : Option Transform :=
  f.transform.or (if f.lowerCased then some Transform.lowercase else none)

/-- What the list is sorted by; a wrapping query can only name the output column. -/
def sortExpression (f : Field) (wrapped : Bool) : String :=
  let expression := if wrapped then f.outputName else f.expression
  if f.lowerCased then "lower(" ++ expression ++ ")" else expression

end Field

/-- Changes to a field that a definition may ask for. -/
structure FieldOptions where
  operators : Option (List Operator) := none
  filterable : Option Bool := none
  sortable : Option Bool := none
  expression : Option String := none
  lowerCased : Bool := false
  aggregated : Bool := false
deriving Repr, Inhabited

/-- The field with what the options give; lower-casing and aggregation can only be switched on. -/
def FieldOptions.apply (o : FieldOptions) (f : Field) : Field :=
  { f with
    operators := o.operators.getD f.operators
    filterable := o.filterable.getD f.filterable
    sortable := o.sortable.getD f.sortable
    expression := o.expression.getD f.expression
    lowerCased := f.lowerCased || o.lowerCased
    aggregated := f.aggregated || o.aggregated }

/-- Options leave a field its name. -/
@[simp] theorem FieldOptions.apply_name (o : FieldOptions) (f : Field) : (o.apply f).name = f.name :=
  rfl

end Listing
