import Listing.Page
import Listing.Platform
import Listing.Text.Whole
/-!
# Configuration

The configuration comes from environment variables. The first setting that cannot be read ends it; the
reasons go from the setting to what is wrong with its value.
-/
namespace Listing

structure Config where
  /-- Only needed to run queries. -/
  databaseUrl : Option String := none
  maxConnections : UInt32 := 10
  /-- For definitions that name none. -/
  platform : Platform := .postgres
  itemsPerPage : UInt64 := 50
  maxItemsPerPage : UInt64 := 500
  /-- Zero for no timeout. -/
  statementTimeoutSecs : UInt64 := 10
deriving DecidableEq, Repr, Inhabited

namespace Config

/-- The value of a variable, if it is set. -/
abbrev Environment := String → Option String

/-- A number below `2 ^ bits` from a variable. -/
def number (env : Environment) (name : String) (bits default : Nat) : Except (List String) Nat :=
  match env name with
  | none => .ok default
  | some text =>
    match Text.whole (.pow 2 bits) text with
    | .ok n => .ok n
    | .error fault => .error [s!"{name} must be a valid u{bits}", fault.message]

def platformOf (env : Environment) : Except (List String) Platform :=
  match Platform.ofName ((env "SPS_PLATFORM").getD "postgresql") with
  | .ok p => .ok p
  | .error e => .error ["SPS_PLATFORM is invalid", e.message]

/-- The configuration of an environment; the default page size is at most the greatest. -/
def ofEnvironment (env : Environment) : Except (List String) Config := do
  let databaseUrl := (env "DATABASE_URL").filter (· != "")
  let maxConnections ← number env "DATABASE_MAX_CONNECTIONS" 32 10
  let platform ← platformOf env
  let items ← number env "SPS_ITEMS_PER_PAGE" 64 50
  let maxItems ← number env "SPS_MAX_ITEMS_PER_PAGE" 64 500
  let timeout ← number env "SPS_STATEMENT_TIMEOUT_SECS" 64 10
  if items = 0 ∨ maxItems = 0 then
    .error ["SPS_ITEMS_PER_PAGE and SPS_MAX_ITEMS_PER_PAGE must be at least 1"]
  else return {
    databaseUrl
    maxConnections := .ofNat maxConnections
    platform
    itemsPerPage := .ofNat (min items maxItems)
    maxItemsPerPage := .ofNat maxItems
    statementTimeoutSecs := .ofNat timeout }

def pageLimits (c : Config) : PageLimits := ⟨c.itemsPerPage, c.maxItemsPerPage⟩

/-- Seconds after which a statement is given up. -/
def statementTimeout (c : Config) : Option UInt64 :=
  if c.statementTimeoutSecs = 0 then none else some c.statementTimeoutSecs

end Config
end Listing
