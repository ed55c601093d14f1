import Listing.Catalog.Field
import Listing.Filter.Keyword
import Listing.Param.Bag
import Listing.Text.Ascii
/-!
# Predicates

A predicate compares one field with one value. Its number makes the names of its parameters its own.
A predicate whose value is absent (null, missing or an empty list) and whose operator needs one says
nothing; one on an aggregated field says nothing in the list's own query.
-/
namespace Listing

/-- Which query a filter is compiled for. -/
inductive Scope where
  /-- The list's own query, where a field is its expression. -/
  | inner
  /-- A query around it, where a field is its output name. -/
  | outer
deriving DecidableEq, Repr

structure Predicate where
  number : UInt32
  connective : Connective
  /-- The field's expression. -/
  inner : String
  /-- The field's output name. -/
  outer : String
  operator : Operator
  value : Option Value
  aggregated : Bool
  /-- The name of its parameter, or what the names of its two parameters begin with. -/
  base : String
  renderer : Option Renderer

namespace Predicate

/-- A colon, the field's ASCII letters and digits in lower case, and the number. -/
def baseName (field : String) (number : UInt32) : String :=
  ":" ++ .ofList ((field.toList.filter Text.isAsciiAlnum).map Char.toLower) ++ "_" ++
    toString number.toNat

/-- Whether a filter's value counts as none. -/
def isAbsent : Value → Bool
  | .null | .list [] => true
  | _ => false

/-- The transform's answer for a scalar, its refusal as the field's error. -/
def transformScalar (field : String) (t : Transform) (v : Value) : Except Error Value :=
  match t v with
  | .ok w => .ok w
  | .error reasons => .error (.transform field reasons)

/-- The answers for several scalars, up to the first refusal. -/
def transformAll (field : String) (t : Transform) : List Value → Except Error (List Value)
  | [] => .ok []
  | v :: vs => do
    let w ← transformScalar field t v
    return w :: (← transformAll field t vs)

/-- A list is transformed item by item. -/
def transformValue (field : String) (t : Transform) : Value → Except Error Value
  | .list items => (transformAll field t items).map .list
  | v => transformScalar field t v

/-- A range takes two values, membership a list, any other operator a scalar. -/
def checkShape (field : String) (op : Operator) (v : Value) : Except Error Unit :=
  match v with
  | .list items =>
    if op.isRange then
      if items.length = 2 then .ok () else .error (.boundsCount op field items.length)
    else if op.isSetMembership then .ok ()
    else .error (.listNotAccepted op field)
  | _ =>
    if op.isRange then .error (.boundsMissing op field)
    else if op.isSetMembership then .error (.listMissing op field)
    else .ok ()

/-- The value to compare with, if there is one. -/
def valueFor (field : Field) (op : Operator) (v : Value) : Except Error (Option Value) :=
  if op.isNullCheck || isAbsent v then .ok none
  else do
    let w ← match field.transform? with
      | some t => transformValue field.name t v
      | none => .ok v
    checkShape field.name op w
    return some w

/-- The predicate on a field, its value taken from a specification. -/
def ofField (number : UInt32) (connective : Connective) (field : Field) (op : Operator)
    (raw : Json) : Except Error Predicate := do
  let v ← Value.ofFilter raw
  let value ← valueFor field op v
  return {
    number, connective, operator := op, value
    inner := field.expression
    outer := field.outputName
    aggregated := field.aggregated
    base := baseName field.name number
    renderer := field.renderer? }

/-- What the field is called in a query. -/
def expression (p : Predicate) : Scope → String
  | .inner => p.inner
  | .outer => p.outer

/-- Whether the predicate says something in a query. -/
def contributes (p : Predicate) (scope : Scope) : Bool :=
  !(scope == .inner && p.aggregated) && !Text.isBlankText (p.expression scope) &&
    (p.value.isSome || p.operator.isNullCheck)

/-- The operator with its placeholders. -/
def rendered (p : Predicate) : String :=
  if p.operator.isNullCheck then p.operator.sql
  else if p.operator.isRange then p.operator.sql ++ " " ++ p.base ++ "_0 AND " ++ p.base ++ "_1"
  else if p.operator.isSetMembership then p.operator.sql ++ "(" ++ p.base ++ ")"
  else p.operator.sql ++ " " ++ p.base

/-- The comparison without a connective. -/
def comparison (p : Predicate) (scope : Scope) : String :=
  Text.trim ((p.renderer.getD Renderer.plain) ⟨p.expression scope, p.operator, p.rendered⟩)

/-- The comparison behind the connective, if the predicate says something. -/
def compile (p : Predicate) (scope : Scope) : Option String :=
  if p.contributes scope then some (p.connective.sql ++ " " ++ p.comparison scope) else none

/-- Names for the two bounds of a range. -/
def boundEntries (base : String) (bounds : List Value) : List (String × Value) :=
  bounds.zipIdx.map fun (v, i) => (base ++ "_" ++ toString i, v)

/-- The value as it is bound: for the LIKE family the pattern of its text, if it has one. -/
def bindable (op : Operator) (v : Value) : Value :=
  match v.text?.bind op.pattern? with
  | some pattern => .str pattern
  | none => v

/-- The named parameters of the predicate. -/
def parameters (p : Predicate) : Bag :=
  match p.value with
  | none => .empty
  | some v =>
    if p.operator.isNullCheck then .empty
    else if p.operator.isRange then
      match v with
      | .list bounds => Bag.empty.insertAll (boundEntries p.base bounds)
      | _ => .empty
    else Bag.empty.insert p.base (bindable p.operator v)

end Predicate
end Listing
