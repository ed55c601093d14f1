import Listing.Toml.Scalar
import Listing.Toml.Table
/-!
# Reading TOML

A document is read line by line: comments, headers, and keys with values, where arrays and strings may
go over several lines. Arrays and inline tables nest to 79 levels, and a key has as many parts at most.
-/
namespace Listing.Toml

/-- Levels of arrays and inline tables, and parts of a key. -/
def depthLimit : Nat := 79

/-- The text behind blanks, new lines and comments; `comment` says whether it begins inside one. -/
def dropFiller (comment : Bool) : List Char → List Char
  | '\r' :: '\n' :: rest => dropFiller false rest
  | c :: rest =>
    if c = '\n' then dropFiller false rest
    else if comment then if isPrintable c then dropFiller true rest else c :: rest
    else if c = ' ' ∨ c = '\t' then dropFiller false rest
    else if c = '#' then dropFiller true rest
    else c :: rest
  | [] => []

/-- A key and the text behind it, the key's last part apart from the others. -/
def splitKey? (cs : List Char) : Option (List String × String × List Char) := do
  let (parts, after) ← key? cs
  let last ← parts.getLast?
  if parts.length ≤ depthLimit then some (parts.dropLast, last, after) else none

mutual

/-- A value that may hold arrays and inline tables to a depth. -/
def value? (depth : Nat) (cs : List Char) : Option (Json × List Char) :=
  match cs, depth with
  | '[' :: rest, d + 1 => (items? d rest).map fun (js, after) => (.arr js, after)
  | '\x7b' :: rest, d + 1 =>
    match dropSpaces rest with
    | '\x7d' :: after => some (.obj [], after)
    | rest => (pairs? d [] rest).map fun (es, after) => (.obj (Item.entriesToJson es), after)
  | cs, _ => scalar? cs
termination_by (depth, 0, 0)

/-- The items of an array up to its closing bracket. -/
def items? (depth : Nat) (cs : List Char) : Option (List Json × List Char) :=
  match dropFiller false cs with
  | ']' :: after => some ([], after)
  | start => do
    let (j, after) ← value? depth start
    match dropFiller false after with
    | ']' :: after => return ([j], after)
    | ',' :: rest =>
      if rest.length < cs.length then
        let (js, after) ← items? depth rest
        return (j :: js, after)
      else none
    | _ => none
termination_by (depth, 1, cs.length)

/-- The pairs of an inline table up to its closing brace, after those read so far. -/
def pairs? (depth : Nat) (done : Entries) (cs : List Char) : Option (Entries × List Char) := do
  let (path, key, after) ← splitKey? cs
  let rest ← mark? '=' after
  let (j, after) ← value? depth (dropSpaces rest)
  let done ← done.assign path key (.value j)
  match dropSpaces after with
  | '\x7d' :: after => return (done, after)
  | ',' :: rest => if rest.length < cs.length then pairs? depth done rest else none
  | _ => none
termination_by (depth, 1, cs.length)

end

/-- What has been read of a document, and the table that its keys go to. -/
structure Draft where
  entries : Entries := []
  table : List String := []

/-- The text behind the end of a line, which may have a comment. -/
def endOfLine? (cs : List Char) : Option (List Char) :=
  let rest := match dropSpaces cs with
    | '#' :: comment => comment.dropWhile isPrintable
    | rest => rest
  match rest with
  | [] => some []
  | rest => newLine? rest

/-- A key and its value. -/
def Draft.pair? (d : Draft) (cs : List Char) : Option (Draft × List Char) := do
  let (path, key, after) ← splitKey? cs
  let rest ← mark? '=' after
  let (j, after) ← value? depthLimit (dropSpaces rest)
  let entries ← d.entries.assignIn d.table path key (.value j)
  return ({ d with entries }, after)

/-- A header behind its opening brackets, one for a table and two for one more of a list. -/
def Draft.header? (d : Draft) (row : Bool) (cs : List Char) : Option (Draft × List Char) := do
  let (path, key, after) ← splitKey? cs
  let after ← mark? ']' after
  let after ← if row then mark? ']' after else some after
  let entries ← if row then d.entries.beginRow path key else d.entries.beginTable path key
  return ({ entries, table := path ++ [key] }, after)

/-- One line, without its end. -/
def Draft.line? (d : Draft) (cs : List Char) : Option (Draft × List Char) :=
  match cs with
  | '[' :: '[' :: rest => d.header? true rest
  | '[' :: rest => d.header? false rest
  | cs => d.pair? cs

/-- The document with all lines of a text. -/
def Draft.lines? (d : Draft) (cs : List Char) : Option Draft :=
  match dropFiller false cs with
  | [] => some d
  | start => do
    let (d, after) ← d.line? start
    let rest ← endOfLine? after
    if rest.length < cs.length then d.lines? rest else none
termination_by cs.length

/-- The value that the whole text writes, an object. -/
def read? (text : String) : Option Json :=
  let cs := match text.toList with
    | '\uFEFF' :: rest => rest
    | cs => cs
  (Draft.lines? {} cs).map fun d => .obj (Item.entriesToJson d.entries)

end Listing.Toml
