import Listing.Text.Search
/-!
# Arguments of the command line

A command is a word followed by options, each given once as `--name value` or `--name=value`. A value
of its own argument may not look like an option. The first argument may ask for the program's version
instead.
-/
namespace Listing

inductive Command where
  /-- Tell which fields a list filters and sorts by. -/
  | describe (definition : String)
  /-- Show the statements of a request. -/
  | explain (definition request : String)
  /-- Run a request. -/
  | run (definition request : String)
deriving DecidableEq, Repr

namespace Command

/-- Whether an argument cannot be the value of the option before it. -/
def looksLikeOption (s : String) : Bool :=
  match s.toList with
  | '-' :: _ :: _ => true
  | _ => false

/-- The name and the attached value of an argument that is an option. -/
def option? (argument : String) : Option (String × Option String) :=
  match argument.toList with
  | '-' :: '-' :: cs =>
    match Text.cutAt? ['='] cs with
    | some (name, value) => some (.ofList name, some (.ofList value))
    | none => some (.ofList cs, none)
  | _ => none

/-- An option of one of the names, given for the first time and not empty. -/
def add? (names : List String) (found : List (String × String)) (name value : String) :
    Option (List (String × String)) :=
  if names.contains name && (found.lookup name).isNone && value != "" then some ((name, value) :: found)
  else none

/-- The options of the given names. -/
def options? (names : List String) (found : List (String × String)) :
    List String → Option (List (String × String))
  | [] => some found
  | ["--"] => some found
  | argument :: rest =>
    match option? argument, rest with
    | none, _ => none
    | some (name, some value), rest => (add? names found name value).bind (options? names · rest)
    | some (_, none), [] => none
    | some (name, none), value :: rest =>
      if looksLikeOption value then none
      else (add? names found name value).bind (options? names · rest)

/-- Whether the first argument asks for the program's version; the short option may stand in front of
others in one argument. -/
def asksVersion : List String → Bool
  | first :: _ => first == "--version" || (Text.stripLead? ['-', 'V'] first.toList).isSome
  | [] => false

/-- The command that the arguments give. -/
def ofArguments? : List String → Option Command
  | "describe" :: rest => do
    let found ← options? ["definition"] [] rest
    return .describe (← found.lookup "definition")
  | "explain" :: rest => do
    let found ← options? ["definition", "request"] [] rest
    return .explain (← found.lookup "definition") (← found.lookup "request")
  | "run" :: rest => do
    let found ← options? ["definition", "request"] [] rest
    return .run (← found.lookup "definition") (← found.lookup "request")
  | _ => none

end Command
end Listing
