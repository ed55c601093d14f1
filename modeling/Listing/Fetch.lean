import Listing.Query
import Listing.Text.Search
import Listing.Text.Whole
/-!
# Fetching a page

Fetching is an exchange with a database: a statement for the rows and sometimes one for their count.
`Prepared.fetch` describes the exchange as a tree of calls, each with what follows for every answer;
`Exchange.run` takes it through with an executor and notes the calls. One row past the page is fetched
to know whether another page follows. The count is spared when the first page shows all rows.
-/
namespace Listing

/-- A row: its values by output column. -/
abbrev Row := List (String × Json)

/-- Where a page stands in the list. -/
structure Navigation where
  size : UInt64
  page : UInt64
  /-- Whether another page follows. -/
  more : Bool
  rowsOnPage : Nat
  totalRows : Option Nat := none
  totalPages : Option Nat := none
deriving DecidableEq, Repr, Inhabited

structure PageResult where
  rows : List Row
  navigation : Option Navigation := none
deriving Repr, Inhabited

/-- What runs statements; `none` is the failure of a call. -/
structure Executor where
  rows : Bound → Option (List Row)
  count : Bound → Option Int64

inductive Call where
  | rows (b : Bound)
  | count (b : Bound)
deriving Repr, Inhabited

/-- Calls and what is done with their answers. -/
inductive Exchange where
  | done (answer : Except Error PageResult)
  | rows (statement : Bound) (next : Option (List Row) → Exchange)
  | count (statement : Bound) (next : Option Int64 → Exchange)

namespace Exchange

def refuse (e : Error) : Exchange := .done (.error e)

/-- The answer with an executor, and the calls in order. -/
def run (e : Executor) : Exchange → Except Error PageResult × List Call
  | done answer => (answer, [])
  | rows statement next =>
    let (answer, calls) := run e (next (e.rows statement))
    (answer, .rows statement :: calls)
  | count statement next =>
    let (answer, calls) := run e (next (e.count statement))
    (answer, .count statement :: calls)

@[simp] theorem run_done (e : Executor) (answer : Except Error PageResult) :
    run e (done answer) = (answer, []) := rfl

@[simp] theorem run_rows (e : Executor) (b : Bound) (next : Option (List Row) → Exchange) :
    run e (rows b next) =
      ((run e (next (e.rows b))).1, .rows b :: (run e (next (e.rows b))).2) := rfl

@[simp] theorem run_count (e : Executor) (b : Bound) (next : Option Int64 → Exchange) :
    run e (count b next) =
      ((run e (next (e.count b))).1, .count b :: (run e (next (e.count b))).2) := rfl

end Exchange

/-- The number of pages of a size, the last perhaps short. -/
def pagesOf (size rows : Nat) : Nat := (rows + size - 1) / size

namespace Prepared

/-- The result with the number of all rows. -/
def counted (rows : List Row) (n : Navigation) (total : Nat) : Exchange :=
  if n.size = 0 then .refuse .divisionByZero
  else .done (.ok ⟨rows, some
    { n with totalRows := some total, totalPages := some (pagesOf n.size.toNat total) }⟩)

/-- What follows when the rows are there. -/
def received (p : Prepared) (r : PageRequest) (size : UInt64) (found : List Row) : Exchange :=
  let rows := found.take size.toNat
  let more : Bool := size.toNat < found.length
  let n : Navigation := { size, page := r.page, more, rowsOnPage := rows.length }
  if !r.navigation then .done (.ok ⟨rows, none⟩)
  else if !r.totalCount then .done (.ok ⟨rows, some n⟩)
  else if r.page ≠ 1 || more then
    .count p.count fun
      | some total => counted rows n total.toInt.toNat
      | none => .refuse .database
  else counted rows n rows.length

/-- Fetches one page. -/
def fetch (p : Prepared) (r : PageRequest) : Exchange :=
  match p.limits.sizeFor r.page (r.size.getD p.limits.default) with
  | .error e => .refuse e
  | .ok size =>
    match p.pageOfSize r.page size with
    | .error e => .refuse e
    | .ok statement =>
      .rows statement fun
        | some found => p.received r size found
        | none => .refuse .database

end Prepared

/-- Prepares a request and fetches its page. -/
def ListQuery.fetch (q : ListQuery) (r : Request) : Exchange :=
  match q.prepare r.filters r.sort with
  | .error e => .refuse e
  | .ok p => p.fetch r.page

namespace Navigation

def toJson (n : Navigation) : Json :=
  .obj ([("items_per_page", Json.ofNat n.size.toNat), ("page", Json.ofNat n.page.toNat),
    ("more", .bool n.more), ("items_on_page", Json.ofNat n.rowsOnPage)] ++
    (n.totalRows.map fun t => ("total_items", Json.ofNat t)).toList ++
    (n.totalPages.map fun t => ("total_pages", Json.ofNat t)).toList)

end Navigation

def PageResult.toJson (r : PageResult) : Json :=
  .obj (("data", .arr (r.rows.map Json.obj)) ::
    (r.navigation.map fun n => ("navigation", n.toJson)).toList)

/-! ## Rows in memory -/

/-- A table of rows that stands in for a database. -/
structure MemoryTable where
  rows : List Row
  /-- What a count answers, instead of the number of rows. -/
  count : Option Int64 := none
  /-- Whether the limit and offset of a statement are heeded. -/
  honoursLimit : Bool := true
  failsRows : Bool := false
  failsCount : Bool := false
deriving Repr, Inhabited

namespace MemoryTable

/-- The number behind the last occurrence of a keyword. -/
def numberAfter? (keyword sql : String) : Option Nat :=
  match Text.afterLast? keyword.toList sql.toList with
  | none => none
  | some rest => (Text.wordsOf rest).head?.bind fun w => (Text.whole UInt64.size (.ofList w)).toOption

/-- The rows that a statement's limit and offset leave. -/
def cut (t : MemoryTable) (sql : String) : List Row :=
  if t.honoursLimit then
    let rows := t.rows.drop ((numberAfter? " OFFSET " sql).getD 0)
    match numberAfter? " LIMIT " sql with
    | some n => rows.take n
    | none => rows
  else t.rows

def executor (t : MemoryTable) : Executor :=
  { rows := fun b => if t.failsRows then none else some (t.cut b.sql)
    count := fun _ => if t.failsCount then none else some (t.count.getD (.ofNat t.rows.length)) }

end MemoryTable
end Listing
