import Listing.Catalog.Change
import Listing.Definition
import Listing.Filter.Spec
import Listing.Page
import Listing.Request
import Listing.Statement.Bound
/-!
# List queries

A list query is a skeleton with a catalog of its fields. Preparing it for a filter and a sort list
validates both and gives the statement: the base query with the filter as one more condition and, if
the filter looks at an aggregated field, a query around it with the filter once more on the output
columns. The statement is then bound page by page, or counted.
-/
namespace Listing

structure ListQuery where
  skeleton : Skeleton
  catalog : Catalog
  platform : Platform
  limits : PageLimits := {}
deriving Inhabited

/-- A validated query, ready for its pages. -/
structure Prepared where
  /-- The filtered statement, without order and limits. -/
  statement : Statement
  parameters : Bag
  order : List SortKey
  platform : Platform
  limits : PageLimits
  /-- Whether the filter looks at an aggregated field. -/
  aggregated : Bool
deriving Repr, Inhabited

namespace ListQuery

/-- The query of a skeleton, with everything allowed. -/
def ofSkeleton (s : Skeleton) (p : Platform) : Except Error ListQuery := do
  return { skeleton := s, catalog := ← Catalog.ofSkeleton s p, platform := p }

/-- Restricts a catalog by a list that may be missing. -/
def restrict (c : Catalog) (toChange : List String → Catalog.Change) : Option (List String) → Except Error Catalog
  | none => .ok c
  | some names => c.require (toChange names)

/-- The query of a definition, on its own platform or else the given one. -/
def ofDefinition (d : Definition) (default : Platform) : Except Error ListQuery := do
  let platform ← match d.platform with
    | some name => Platform.ofName name
    | none => .ok default
  let q ← ofSkeleton d.skeleton platform
  let c ← q.catalog.require (.customizeAll d.fields)
  let c ← restrict c .restrictFilters d.filterable
  let c ← restrict c .restrictSorts d.sortable
  return { q with catalog := c }

/-! ## Sorting -/

/-- Puts a key at the end, or in place of the direction of one with the same expression. -/
def addKey (key : SortKey) : List SortKey → List SortKey
  | [] => [key]
  | k :: rest => if k.expression = key.expression then key :: rest else k :: addKey key rest

/-- Only a new expression is added. -/
theorem map_expression_addKey (key : SortKey) (keys : List SortKey) :
    (addKey key keys).map SortKey.expression =
      if key.expression ∈ keys.map SortKey.expression then keys.map SortKey.expression
      else keys.map SortKey.expression ++ [key.expression] := by
  induction keys with
  | nil => simp [addKey]
  | cons k rest ih =>
    by_cases h : k.expression = key.expression
    · simp [addKey, h]
    · have : key.expression ≠ k.expression := fun e => h e.symm
      simp only [addKey, h, if_false, List.map_cons, ih, List.mem_cons, this, false_or]
      split <;> simp

/-- The key of one sort. -/
def keyOf (c : Catalog) (wrapped : Bool) (s : SortBy) : Except Error SortKey := do
  let f ← c.sortField s.field
  return ⟨f.sortExpression wrapped, ← Direction.parse s.field s.direction⟩

/-- The keys of a sort list after those already there. -/
def keysFrom (c : Catalog) (wrapped : Bool) (keys : List SortKey) : List SortBy → Except Error (List SortKey)
  | [] => .ok keys
  | s :: rest => do
    let key ← keyOf c wrapped s
    keysFrom c wrapped (addKey key keys) rest

/-- The keys of a sort list; a repeated one keeps its first place and takes its last direction. -/
def sortKeys (c : Catalog) (wrapped : Bool) (sort : List SortBy) : Except Error (List SortKey) :=
  keysFrom c wrapped [] sort

/-! ## Preparing -/

/-- The base query under a filter, in a query around it if the filter needs one. -/
def filtered (base : Statement) (filter : Node) : Statement :=
  let inner := base.restrict (filter.condition .inner)
  if filter.aggregated then (Statement.around inner []).restrict (filter.condition .outer) else inner

/-- The query for a filter and a sort list. -/
def prepare (q : ListQuery) (filters : Json) (sort : List SortBy) : Except Error Prepared := do
  let _ ← Spec.validate q.catalog filters
  let filter ← Spec.build q.catalog filters
  let base ← q.skeleton.statement
  let order ← sortKeys q.catalog filter.aggregated sort
  return {
    statement := filtered base filter
    parameters := filter.parameters
    order
    platform := q.platform
    limits := q.limits
    aggregated := filter.aggregated }

end ListQuery

namespace Prepared

/-- The statement as text, parameters by name. -/
def sql (p : Prepared) : String := p.statement.sql p.platform

/-- The statement of a page whose size is already settled. -/
def pageOfSize (p : Prepared) (page size : UInt64) : Except Error Bound := do
  let offset ← pageOffset page size
  return p.platform.bind (p.statement.pageSql p.platform p.order (pageLimit size) offset) p.parameters

/-- The statement of a page; it fetches one row more than the page holds. -/
def page (p : Prepared) (page size : UInt64) : Except Error Bound := do
  p.pageOfSize page (← p.limits.sizeFor page size)

/-- The statement that counts all rows. -/
def count (p : Prepared) : Bound := p.platform.bind (p.statement.count.sql p.platform) p.parameters

end Prepared
end Listing
