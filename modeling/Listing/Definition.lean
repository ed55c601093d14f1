import Listing.Catalog.Field
import Listing.Skeleton
/-!
# Definitions

The definition of a list: its skeleton, options for its fields, and which fields may be filtered and
sorted by. `ofJson?` reads the plain spelling of a definition, `ofDocument?` every spelling that its
`shape` admits.
-/
namespace Listing

namespace FieldOptions

def operator? (j : Json) : Option Operator := j.string?.bind Operator.ofName?

def ofJson? (j : Json) : Option FieldOptions := do
  let ms ← j.members?
  return {
    operators := ← Json.nullable ms "operators" (Json.listOf operator?)
    filterable := ← Json.nullable ms "filterable" Json.bool?
    sortable := ← Json.nullable ms "sortable" Json.bool?
    expression := ← Json.nullable ms "expression" Json.string?
    lowerCased := ← Json.optional ms "lower_cased" Json.bool? false
    aggregated := ← Json.optional ms "aggregated" Json.bool? false }

/-- Only the last two flags have a default, so a list gives every value. -/
def shape : Shape :=
  .record 6 [("operators", .list .name), ("filterable", .any), ("sortable", .any),
    ("lower_cased", .any), ("aggregated", .any), ("expression", .any)]

def ofDocument? (format : Format) (d : Document) : Option FieldOptions :=
  (d.fit? format shape).bind ofJson?

/-- Options by field, in the order of the fields' names. -/
def table? (j : Json) : Option (List (String × FieldOptions)) := do
  let entries ← (← j.members?).mapM fun (name, o) => (ofJson? o).map (name, ·)
  return Keyed.ofList entries

def tableOfDocument? (format : Format) (d : Document) : Option (List (String × FieldOptions)) :=
  (d.fit? format (.table shape)).bind table?

def toJson (o : FieldOptions) : Json :=
  .obj [
    ("operators", Json.ofOption (fun ops => Json.strings (ops.map Operator.token)) o.operators),
    ("filterable", Json.ofOption .bool o.filterable), ("sortable", Json.ofOption .bool o.sortable),
    ("lower_cased", .bool o.lowerCased), ("aggregated", .bool o.aggregated),
    ("expression", Json.ofOption .str o.expression)]

end FieldOptions

structure Definition where
  /-- Instead of the configured platform. -/
  platform : Option String := none
  skeleton : Skeleton
  /-- In the order of the names. -/
  fields : List (String × FieldOptions) := []
  filterable : Option (List String) := none
  sortable : Option (List String) := none
deriving Repr, Inhabited

namespace Definition

def ofJson? (j : Json) : Option Definition := do
  let ms ← j.members?
  return {
    platform := ← Json.nullable ms "platform" Json.string?
    skeleton := ← Json.required ms "skeleton" Skeleton.ofJson?
    fields := ← Json.optional ms "fields" FieldOptions.table? []
    filterable := ← Json.nullable ms "filterable" (Json.listOf Json.string?)
    sortable := ← Json.nullable ms "sortable" (Json.listOf Json.string?) }

def shape : Shape :=
  .record 2 [("platform", .any), ("skeleton", Skeleton.shape),
    ("fields", .table FieldOptions.shape), ("filterable", .any), ("sortable", .any)]

def ofDocument? (format : Format) (d : Document) : Option Definition :=
  (d.fit? format shape).bind ofJson?

def toJson (d : Definition) : Json :=
  .obj [
    ("platform", Json.ofOption .str d.platform), ("skeleton", d.skeleton.toJson),
    ("fields", .obj (d.fields.map fun (name, o) => (name, o.toJson))),
    ("filterable", Json.ofOption Json.strings d.filterable),
    ("sortable", Json.ofOption Json.strings d.sortable)]

end Definition
end Listing
