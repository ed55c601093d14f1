import Listing.Document.Shape
import Listing.Json.Decode
import Listing.Statement.Basic
/-!
# Skeletons

A skeleton is the base query of a list as its definition gives it: select list, tables, conditions
that always hold, and grouping. Its texts are the definition's own; a client's input never becomes part
of them.
-/
namespace Listing

structure Skeleton where
  select : List String
  table : String
  tableAlias : Option String := none
  joins : List Join := []
  conditions : List String := []
  groupBy : List String := []
deriving DecidableEq, Repr, Inhabited

namespace Skeleton

/-- The columns of entries, up to the first that is malformed. -/
def columnsOf : List String → Except Error (List Column)
  | [] => .ok []
  | entry :: rest => do
    let c ← Column.ofDeclaration entry
    return c :: (← columnsOf rest)

/-- The output columns in the order of the select list. -/
def columns (s : Skeleton) : Except Error (List Column) := columnsOf s.select

/-- The base query. -/
def statement (s : Skeleton) : Except Error Statement := do
  if Text.isBlankText s.table then .error .noTable
  else if s.select.isEmpty then .error .noColumns
  else return .base (← s.columns) s.table s.tableAlias s.joins s.conditions s.groupBy

/-! ## Documents -/

def joinKind? : Json → Option JoinKind
  | .str "inner" => some .inner
  | .str "left" => some .left
  | .str "right" => some .right
  | _ => none

def joinKindName : JoinKind → String
  | .inner => "inner"
  | .left => "left"
  | .right => "right"

def join? (j : Json) : Option Join := do
  let ms ← j.members?
  return {
    kind := ← Json.optional ms "join_type" joinKind? .inner
    table := ← Json.required ms "table" Json.string?
    tableAlias := ← Json.nullable ms "alias" Json.string?
    on := ← Json.required ms "on" Json.string? }

def ofJson? (j : Json) : Option Skeleton := do
  let ms ← j.members?
  return {
    select := ← Json.required ms "select" (Json.listOf Json.string?)
    table := ← Json.required ms "from" Json.string?
    tableAlias := ← Json.nullable ms "from_alias" Json.string?
    joins := ← Json.optional ms "joins" (Json.listOf join?) []
    conditions := ← Json.optional ms "conditions" (Json.listOf Json.string?) []
    groupBy := ← Json.optional ms "group_by" (Json.listOf Json.string?) [] }

def joinShape : Shape :=
  .record 4 [("join_type", .name), ("table", .any), ("alias", .any), ("on", .any)]

def shape : Shape :=
  .record 2 [("select", .any), ("from", .any), ("from_alias", .any), ("joins", .list joinShape),
    ("conditions", .any), ("group_by", .any)]

def ofDocument? (format : Format) (d : Document) : Option Skeleton :=
  (d.fit? format shape).bind ofJson?

def joinToJson (j : Join) : Json :=
  .obj [("join_type", .str (joinKindName j.kind)), ("table", .str j.table),
    ("alias", Json.ofOption .str j.tableAlias), ("on", .str j.on)]

def toJson (s : Skeleton) : Json :=
  .obj [("select", Json.strings s.select), ("from", .str s.table),
    ("from_alias", Json.ofOption .str s.tableAlias), ("joins", .arr (s.joins.map joinToJson)),
    ("conditions", Json.strings s.conditions), ("group_by", Json.strings s.groupBy)]

end Skeleton
end Listing
