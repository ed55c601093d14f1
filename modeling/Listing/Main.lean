import Listing.Command.Outcome
/-!
# The program

Reads arguments, environment and files, and prints how the command ends. The exit code is 0 for a
printed text, 2 for arguments that give no command, and 1 for any other failure.
-/
namespace Listing

/-- Variables that the configuration knows. -/
def variableNames : List String :=
  ["DATABASE_URL", "DATABASE_MAX_CONNECTIONS", "SPS_PLATFORM", "SPS_ITEMS_PER_PAGE",
    "SPS_MAX_ITEMS_PER_PAGE", "SPS_STATEMENT_TIMEOUT_SECS"]

/-- The files that a command reads. -/
def Command.paths : Command → List String
  | .describe definition => [definition]
  | .explain definition request | .run definition request => [definition, request]

/-- The text of a file, if it can be read. -/
def readText? (path : String) : IO (Option String) := do
  try
    return some (← IO.FS.readFile path)
  catch _ =>
    return none

end Listing

open Listing in
def main (arguments : List String) : IO UInt32 := do
  let settings ← variableNames.mapM fun name => return (name, ← IO.getEnv name)
  let paths := ((Command.ofArguments? arguments).map Command.paths).getD []
  let texts ← paths.mapM fun path => return (path, ← readText? path)
  let env : Config.Environment := fun name => (settings.lookup name).join
  let files : Command.Files := fun path => (texts.lookup path).join
  match Command.perform arguments env files with
  | .printed text =>
    IO.print text
    return 0
  | .usage =>
    IO.eprintln "usage: (describe | explain | run) --definition FILE [--request FILE]"
    return 2
  | .failed reasons =>
    IO.eprintln ("Error: " ++ Command.report reasons)
    return 1
