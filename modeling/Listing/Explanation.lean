import Listing.Query
/-!
# Explanations

What a request compiles to: the statement of its page and, if it asks for a total, the statement that
counts. When there is none, the reasons say in which step it failed.
-/
namespace Listing

/-- The statements that a request compiles to. -/
structure Explanation where
  platform : Platform
  aggregated : Bool
  page : Bound
  count : Option Bound
deriving Repr

namespace Explanation

/-- The steps in which explaining may fail. -/
inductive Step where
  | compiling
  | paging
deriving DecidableEq, Repr

def Step.description : Step → String
  | compiling => "failed to compile request"
  | paging => "invalid paging"

/-- An error and the step it came from. -/
structure Refusal where
  step : Step
  error : Error
deriving Repr

/-- The step's description and the error. -/
def Refusal.reasons (r : Refusal) : List String := [r.step.description, r.error.message]

/-- The result of a step. -/
def during (step : Step) : Except Error α → Except Refusal α
  | .ok a => .ok a
  | .error e => .error ⟨step, e⟩

end Explanation

/-- The statements of a request; its page size is the given one if it names none. -/
def ListQuery.explain (q : ListQuery) (size : UInt64) (r : Request) :
    Except Explanation.Refusal Explanation := do
  let p ← Explanation.during .compiling (q.prepare r.filters r.sort)
  let page ← Explanation.during .paging (p.page r.page.page (r.page.size.getD size))
  return {
    platform := q.platform
    aggregated := p.aggregated
    page
    count := if r.page.totalCount then some p.count else none }

/-- A statement with its values and their types. -/
def Explanation.statementToJson (p : Platform) (b : Bound) : Json :=
  .obj [("sql", .str b.sql), ("params", .arr (b.params.map Value.toJson)),
    ("types", Json.strings (b.typeNames p))]

def Explanation.toJson (e : Explanation) : Json :=
  .obj [("platform", .str e.platform.tag), ("aggregated", .bool e.aggregated),
    ("page", statementToJson e.platform e.page),
    ("count", Json.ofOption (statementToJson e.platform) e.count)]

end Listing
