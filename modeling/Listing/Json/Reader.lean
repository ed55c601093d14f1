import Listing.Document.Data
import Listing.Json.Token
/-!
# Reading JSON

A machine with a stack of the lists and objects that are still open takes one token after another and
builds the document of the text, repeated keys included. A list or object below 127 others has no value.
`read?` gives the data of a text.
-/
namespace Listing.Json

/-- A list or an object that is still open, its parts newest first; an object waits for the value of
a key. -/
inductive Frame where
  | items (done : List Document)
  | members (done : List (Option String × Document)) (key : Option String)
deriving Repr

/-- What may come next. -/
inductive Expecting where
  | value
  /-- A value or the end of the list just opened. -/
  | firstItem
  /-- A key or the end of the object just opened. -/
  | firstKey
  | key (done : List (Option String × Document))
  | colon (done : List (Option String × Document)) (key : Option String)
  /-- What follows a whole value: a comma, an end, or nothing. -/
  | after (d : Document)
deriving Repr

structure State where
  expecting : Expecting
  stack : List Frame
deriving Repr

/-- Lists and objects inside one another that have a value. -/
def depthLimit : Nat := 127

/-- A list or object has ended inside those on the stack. -/
def State.close (d : Document) (stack : List Frame) : State :=
  ⟨.after (if stack.length < depthLimit then d else .leaf none), stack⟩

/-- A value begins with this token. -/
def State.beginValue? (stack : List Frame) : Token → Option State
  | .scalar value => some ⟨.after (.leaf value), stack⟩
  | .text s => some ⟨.after (.leaf (s.map .str)), stack⟩
  | .mark c =>
    if c = '[' then some ⟨.firstItem, .items [] :: stack⟩
    else if c = '\x7b' then some ⟨.firstKey, stack⟩
    else none

/-- A whole value is followed by this mark. -/
def State.afterValue? (d : Document) (stack : List Frame) (c : Char) : Option State :=
  match stack with
  | [] => none
  | .items done :: stack =>
    if c = ',' then some ⟨.value, .items (d :: done) :: stack⟩
    else if c = ']' then some (close (.list (d :: done).reverse) stack)
    else none
  | .members done key :: stack =>
    if c = ',' then some ⟨.key ((key, d) :: done), stack⟩
    else if c = '\x7d' then some (close (.object ((key, d) :: done).reverse) stack)
    else none

def State.step? (s : State) (t : Token) : Option State :=
  match s.expecting, t with
  | .value, t => beginValue? s.stack t
  | .firstItem, .mark ']' => some (close (.list []) s.stack.tail)
  | .firstItem, t => beginValue? s.stack t
  | .firstKey, .mark '\x7d' => some (close (.object []) s.stack)
  | .firstKey, .text key => some ⟨.colon [] key, s.stack⟩
  | .key done, .text key => some ⟨.colon done key, s.stack⟩
  | .colon done key, .mark ':' => some ⟨.value, .members done key :: s.stack⟩
  | .after d, .mark c => afterValue? d s.stack c
  | _, _ => none

/-- The document that the whole text writes. -/
def document? (text : String) : Option Document := do
  let tokens ← tokens? text.toList
  let last ← tokens.foldlM State.step? ⟨.value, []⟩
  match last.expecting, last.stack with
  | .after d, [] => some d
  | _, _ => none

/-- The data that the whole text writes, texts in it read to a depth. -/
def readWithin? : (depth : Nat) → (text : String) → Option Json
  | 0, _ => none
  | depth + 1, text => do (← document? text).dataWith? .json (readWithin? depth)

/-- The data that the whole text writes. A text in it is shorter, so its length is depth enough. -/
def read? (text : String) : Option Json := readWithin? (text.length + 1) text

end Listing.Json

namespace Listing.Document

/-- The data of a document, texts in it read as JSON. -/
def data? (format : Format) (d : Document) : Option Json := d.dataWith? format Json.read?

/-- An object with a text has the value that the text writes. -/
theorem data?_text (format : Format) (text : String) :
    (object [(some textKey, leaf (some (.str text)))]).data? format = Json.read? text := by
  simp [data?, dataWith?, embedded?, text?]

end Listing.Document
