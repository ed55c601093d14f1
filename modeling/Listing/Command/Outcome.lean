import Listing.Command.Arguments
import Listing.Command.Directory
import Listing.Config
import Listing.Explanation
import Listing.Json.Reader
import Listing.Toml.Reader
/-!
# Running a command

A command reads its configuration, then its definition, then its request, and ends with a text or with
the reasons why there is none. A run stops where it would need a connection to a server: there is none
here.
-/
namespace Listing.Command

/-- How a command ends. -/
inductive Outcome where
  /-- The arguments give no command. -/
  | usage
  | printed (text : String)
  /-- Reasons, the outermost first. -/
  | failed (reasons : List String)
deriving DecidableEq, Repr

/-- The last part of a path. -/
def fileName (path : String) : List Char :=
  (((pathParts path).filter fun part => part != "" && part != ".").getLast?.getD "").toList

/-- Whether a path's extension is `toml`, in any letter case. -/
def isToml (path : String) : Bool :=
  let reversed := (fileName path).reverse
  let extension := reversed.takeWhile (· != '.')
  -- a name with its only dot in front has no extension
  1 < (reversed.drop extension.length).length && Text.sameAscii (.ofList extension.reverse) "toml"

/-- The format that a path names. -/
def formatOf (path : String) : Format := if isToml path then .toml else .json

/-- The document that a text writes in a format. -/
def document? (text : String) : Format → Option Document
  | .json => Json.document? text
  | .toml => (Toml.read? text).map .ofJson

/-- What a file describes. -/
def load (files : Files) (path : String) (read : Format → Document → Option α) :
    Except (List String) α :=
  match files path with
  | none => .error ["failed to read " ++ path]
  | some text =>
    match (document? text (formatOf path)).bind (read (formatOf path)) with
    | none => .error ["failed to parse " ++ path]
    | some a => .ok a

def loadList (files : Files) (config : Config) (path : String) : Except (List String) ListQuery := do
  let d ← load files path Definition.ofDocument?
  match ListQuery.ofDefinition d config.platform with
  | .error e => .error ["invalid list definition " ++ path, e.message]
  | .ok q => return { q with limits := config.pageLimits }

def loadRequest (files : Files) (path : String) : Except (List String) Request :=
  load files path Request.ofDocument?

/-! ## Commands -/

def document (j : Json) : String := j.pretty ++ "\n"

/-- The program's name and version. -/
def version : String := "sps 0.1.0\n"

/-- What a command prints under a configuration. -/
def output (files : Files) (config : Config) : Command → Except (List String) String
  | .describe definition => do
    let q ← loadList files config definition
    return document q.catalog.describe.toJson
  | .explain definition request => do
    let q ← loadList files config definition
    let r ← loadRequest files request
    match q.explain config.itemsPerPage r with
    | .error refusal => .error refusal.reasons
    | .ok e => return document e.toJson
  | .run definition request => do
    let q ← loadList files config definition
    if q.platform ≠ .postgres then
      .error ["run only supports postgresql, list targets " ++ q.platform.name]
    else
      let _ ← loadRequest files request
      match config.databaseUrl with
      | none => .error ["DATABASE_URL environment variable is required to run queries"]
      | some _ => .error ["failed to connect to PostgreSQL"]

/-- How a command with its configuration ends. -/
def execute (env : Config.Environment) (files : Files) (c : Command) : Except (List String) String :=
  match Config.ofEnvironment env with
  | .error reasons => .error ("failed to load configuration" :: reasons)
  | .ok config => output files config c

/-- How a program with these arguments, variables and files ends. -/
def perform (arguments : List String) (env : Config.Environment) (files : Files) : Outcome :=
  if asksVersion arguments then .printed version
  else
    match ofArguments? arguments with
    | none => .usage
    | some c =>
      match execute env files c with
      | .ok text => .printed text
      | .error reasons => .failed reasons

/-! ## Reports -/

/-- A text with what follows a new line indented. -/
def indent (width : Nat) (text : String) : String :=
  .ofList (text.toList.flatMap fun c => if c = '\n' then '\n' :: List.replicate width ' ' else [c])

/-- A cause on its own, or with its number among several. -/
def causeLines : List String → List String
  | [cause] => ["    " ++ indent 4 cause]
  | causes => causes.zipIdx.map fun (cause, i) =>
    let n := toString i
    .ofList (List.replicate (5 - n.length) ' ') ++ n ++ ": " ++ indent 7 cause

/-- Reasons as they are reported: the outermost, then its causes. -/
def report : List String → String
  | [] => ""
  | [reason] => reason
  | reason :: causes => reason ++ "\n\nCaused by:\n" ++ String.intercalate "\n" (causeLines causes)

end Listing.Command
