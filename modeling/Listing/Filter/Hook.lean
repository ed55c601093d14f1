import Listing.Filter.Operator
import Listing.Param.Value
import Listing.Text.Lowercase
import Listing.Text.Search
/-!
# Hooks of a field

A field may say how its conditions are written (a renderer) and what is done to its values before they
are bound (a transform). Both are plain functions; this module holds the two of lower-cased fields and
the ones that hooks are put together from.
-/
namespace Listing

/-- A condition as a renderer sees it. -/
structure View where
  /-- The field's expression, or its output name in a wrapping query. -/
  expression : String
  operator : Operator
  /-- The operator with its placeholders, such as `> :age_1`. -/
  rendered : String
deriving Repr

/-- Writes a condition, without a connective in front. -/
abbrev Renderer := View → String

/-- Changes one scalar, or gives the reasons why not, the outermost first. -/
abbrev Transform := Value → Except (List String) Value

namespace Renderer

/-- The expression and what is compared with it. -/
def plain : Renderer := fun v => v.expression ++ " " ++ v.rendered

/-- Compares the expression in lower case. -/
def lower : Renderer := fun v => "lower(" ++ v.expression ++ ") " ++ v.rendered

/-- A part of a template. -/
inductive Part where
  | char (c : Char)
  | expression
  | operator
  | rendered
deriving Repr

/-- The parts of a template, where `<expr>`, `<op>` and `<rendered>` stand for parts of the view. -/
def partsOf : List Char → List Part
  | '<' :: 'e' :: 'x' :: 'p' :: 'r' :: '>' :: rest => .expression :: partsOf rest
  | '<' :: 'o' :: 'p' :: '>' :: rest => .operator :: partsOf rest
  | '<' :: 'r' :: 'e' :: 'n' :: 'd' :: 'e' :: 'r' :: 'e' :: 'd' :: '>' :: rest =>
    .rendered :: partsOf rest
  | c :: rest => .char c :: partsOf rest
  | [] => []

def Part.fill (v : View) : Part → List Char
  | .char c => [c]
  | .expression => v.expression.toList
  | .operator => v.operator.token.toList
  | .rendered => v.rendered.toList

/-- Fills the view into a template. -/
def template (text : String) : Renderer :=
  let parts := partsOf text.toList
  fun v => .ofList (parts.flatMap (Part.fill v))

end Renderer

namespace Transform

/-- Changes texts and leaves other values. -/
def onText (change : String → String) : Transform
  | .str s => .ok (.str (change s))
  | v => .ok v

/-- Lowers texts. -/
def lowercase : Transform := onText Text.lowercase

/-- Always the same value. -/
def const (value : Value) : Transform := fun _ => .ok value

/-- Refuses the values of a class. -/
def refuse (refused : Value → Bool) (reasons : List String) : Transform :=
  fun v => if refused v then .error reasons else .ok v

/-- Puts one text for another wherever it occurs. -/
def replace (needle replacement : String) : Transform :=
  onText fun s => .ofList (Text.replaceAll needle.toList replacement.toList s.toList)

/-- Puts a text in front. -/
def prepend (text : String) : Transform := onText (text ++ ·)

/-- A list with the value as its only item. -/
def wrap : Transform := fun v => .ok (.list [v])

end Transform
end Listing
