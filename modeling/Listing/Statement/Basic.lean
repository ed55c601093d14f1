import Listing.Catalog.Column
import Listing.Platform
/-!
# Statements

The statements of a list: its base query, a query around another one that filters on output columns,
and the count of another one's rows. Expressions and conditions are raw text; tables and aliases are
identifiers. A page of a statement adds an order, a limit and an offset at the end, so the statement's
own text is a beginning of it.
-/
namespace Listing

inductive JoinKind where
  | inner
  | left
  | right
deriving DecidableEq, Repr, Inhabited

/-- A joined table with a raw condition. -/
structure Join where
  kind : JoinKind := .inner
  table : String
  tableAlias : Option String := none
  on : String
deriving DecidableEq, Repr, Inhabited

/-- The name under which a query around another one refers to it. -/
def wrapAlias : String := "__sps_alias__"

inductive Statement where
  | base (columns : List Column) (table : String) (tableAlias : Option String) (joins : List Join)
      (conditions groups : List String)
  /-- All columns of the inner statement's rows that meet the conditions. -/
  | around (inner : Statement) (conditions : List String)
  /-- The number of the inner statement's rows. -/
  | count (inner : Statement)
deriving Repr, Inhabited

/-- One sort key of a page. -/
structure SortKey where
  expression : String
  direction : Direction
deriving DecidableEq, Repr, Inhabited

namespace Statement

/-- The statement with one more condition, if there is one. -/
def restrict (s : Statement) (condition : Option String) : Statement :=
  match s, condition with
  | base columns table tableAlias joins conditions groups, some c =>
    base columns table tableAlias joins (conditions ++ [c]) groups
  | around inner conditions, some c => around inner (conditions ++ [c])
  | s, _ => s

/-- A table name, in front of its first dot the schema's. -/
def tableSql (p : Platform) (name : String) : String :=
  let cs := (Text.trim name).toList
  match cs.dropWhile (· != '.') with
  | [] => p.quote (.ofList cs)
  | _ :: table => p.quote (.ofList (cs.takeWhile (· != '.'))) ++ "." ++ p.quote (.ofList table)

def aliasSql (p : Platform) : Option String → String
  | none => ""
  | some name => " AS " ++ p.quote name

def columnSql (p : Platform) (c : Column) : String := c.expression ++ " AS " ++ p.quote c.name

def joinSql (p : Platform) (j : Join) : String :=
  (match j.kind with
    | .inner => " INNER JOIN "
    | .left => " LEFT JOIN "
    | .right => " RIGHT JOIN ") ++
    tableSql p j.table ++ aliasSql p j.tableAlias ++ " ON " ++ j.on

/-- One condition stands bare, several are each put in parentheses. -/
def whereSql : List String → String
  | [] => ""
  | [c] => " WHERE " ++ c
  | cs => " WHERE " ++ String.intercalate " AND " (cs.map fun c => "(" ++ c ++ ")")

def groupSql : List String → String
  | [] => ""
  | gs => " GROUP BY " ++ String.intercalate ", " gs

/-- The statement as text, parameters by name. -/
def sql (p : Platform) : Statement → String
  | base columns table tableAlias joins conditions groups =>
    "SELECT " ++ String.intercalate ", " (columns.map (columnSql p)) ++ " FROM " ++
      tableSql p table ++ aliasSql p tableAlias ++ String.join (joins.map (joinSql p)) ++
      whereSql conditions ++ groupSql groups
  | around inner conditions =>
    "SELECT " ++ p.quote wrapAlias ++ ".* FROM (" ++ inner.sql p ++ ") AS " ++ p.quote wrapAlias ++
      whereSql conditions
  | count inner => "SELECT COUNT(*) FROM (" ++ inner.sql p ++ ") AS " ++ p.quote wrapAlias

def keySql (p : Platform) (k : SortKey) : String :=
  k.expression ++
    (match k.direction with
      | .asc => " ASC"
      | .desc => " DESC") ++
    match p.nullOrder? k.direction with
    | some .first => " NULLS FIRST"
    | some .last => " NULLS LAST"
    | none => ""

def orderSql (p : Platform) : List SortKey → String
  | [] => ""
  | ks => " ORDER BY " ++ String.intercalate ", " (ks.map (keySql p))

/-- The sorted rows from an offset on, up to a limit. -/
def pageSql (p : Platform) (s : Statement) (order : List SortKey) (limit offset : Nat) : String :=
  s.sql p ++ orderSql p order ++ " LIMIT " ++ toString limit ++ " OFFSET " ++ toString offset

end Statement
end Listing
