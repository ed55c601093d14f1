import Listing.Catalog.Basic
import Listing.Filter.Node
/-!
# Filter specifications

A client describes a filter in JSON. A condition is an object with `property`, `operator` (or
`comparison_operator`) and `value`, which may also stand inside a `condition` object; a group is an
object with a `collection` or a bare array; both may have a `bool_operator`. Nothing at all, null or
an empty object, is an empty group.

`validate` checks every condition against the catalog and counts them; `build` makes the tree and
numbers its nodes in pre-order, as long as there are numbers.
-/
namespace Listing.Spec

open Json (Members)

/-- The condition part of a specification. -/
structure Leaf where
  property : String
  operator : Operator
  value : Json
deriving Repr

/-- The object that holds the condition. -/
def conditionOf (ms : Members) : Except Error Members :=
  match Json.member? "condition" ms with
  | none => .ok ms
  | some (.obj inner) => .ok inner
  | some other => .error (.conditionNotObject other)

/-- The operator's word, under either of its keys. -/
def operatorWord? (ms : Members) : Option String :=
  ((Json.member? "operator" ms).or (Json.member? "comparison_operator" ms)).bind Json.string?

/-- The condition that an object describes. -/
def leafOf (ms : Members) : Except Error Leaf := do
  let ms ← conditionOf ms
  match (Json.member? "property" ms).bind Json.string? with
  | none => .error .noProperty
  | some property =>
    match operatorWord? ms with
    | none => .error (.noOperator property)
    | some word =>
      let operator ← Operator.ofToken word
      return { property, operator, value := (Json.member? "value" ms).getD .null }

/-! ## Checking -/

/-- Whether a value may stand in a group. -/
def isEntry : Json → Bool
  | .obj _ | .arr _ => true
  | _ => false

mutual

/-- Checks every condition against the catalog and counts them. -/
def validate (c : Catalog) : Json → Except Error Nat
  | .null => .ok 0
  | .arr items => validateItems c items
  | .obj ms =>
    if ms.isEmpty then .ok 0
    else match _h : Json.member? "collection" ms with
      | some (.arr items) => validateItems c items
      | some _ => .error .collectionNotList
      | none => do
        let leaf ← leafOf ms
        let _ ← c.checkFilter leaf.property leaf.operator
        return 1
  | other => .error (.notAFilter other)
termination_by j => sizeOf j
decreasing_by
  · simp
  · have := Json.sizeOf_member_lt _h
    simp at this ⊢
    omega

/-- Checks the entries of a group, which are objects or arrays. -/
def validateItems (c : Catalog) : List Json → Except Error Nat
  | [] => .ok 0
  | j :: rest =>
    if isEntry j then do
      let n ← validate c j
      return n + (← validateItems c rest)
    else .error (.notAnEntry j)
termination_by items => sizeOf items

end

/-! ## Building -/

/-- The number after the one that a node takes; the last of all is never taken. -/
def numberAfter (n : UInt32) : Except Error UInt32 :=
  if n.toNat + 1 < UInt32.size then .ok (n + 1) else .error .numbersExhausted

theorem numberAfter_eq_ok {n m : UInt32} : numberAfter n = .ok m ↔ m.toNat = n.toNat + 1 := by
  unfold numberAfter
  split
  · next h =>
    rw [Except.ok.injEq, ← UInt32.toNat_inj, UInt32.toNat_add]
    simp only [UInt32.size, UInt32.toNat_ofNat] at h ⊢
    omega
  · next h =>
    have := m.toNat_lt
    simp only [UInt32.size, reduceCtorEq, false_iff] at h ⊢
    omega

/-- The predicate that an object describes, with the next number. -/
def buildLeaf (c : Catalog) (connective : Connective) (ms : Members) (next : UInt32) :
    Except Error (Node × UInt32) := do
  let leaf ← leafOf ms
  let field ← c.resolve leaf.property
  let next' ← numberAfter next
  let p ← Predicate.ofField next connective field leaf.operator leaf.value
  return (.predicate p, next')

mutual

/-- The node that a specification describes, numbered from `next` on, and the next free number. -/
def node (c : Catalog) (next : UInt32) : Json → Except Error (Node × UInt32)
  | .arr items => do
    let (children, next') ← nodes c (← numberAfter next) items
    return (.group next .and children, next')
  | .obj ms => do
    let connective ← Connective.ofJson (Json.member? "bool_operator" ms)
    match _h : Json.member? "collection" ms with
    | some (.arr items) =>
      let (children, next') ← nodes c (← numberAfter next) items
      return (.group next connective children, next')
    | some _ => .error .collectionNotList
    | none => buildLeaf c connective ms next
  | other => .error (.notAFilter other)
termination_by j => sizeOf j
decreasing_by
  · simp
  · have := Json.sizeOf_member_lt _h
    simp at this ⊢
    omega

/-- The nodes that a group's entries describe, one after another. -/
def nodes (c : Catalog) (next : UInt32) : List Json → Except Error (List Node × UInt32)
  | [] => .ok ([], next)
  | j :: rest => do
    let (n, next) ← node c next j
    let (ns, next) ← nodes c next rest
    return (n :: ns, next)
termination_by items => sizeOf items

end

/-- Whether a specification says that there is no filter. -/
def isNone : Json → Bool
  | .null => true
  | .obj ms => ms.isEmpty
  | _ => false

/-- The filter that a specification describes, its root numbered `start`. -/
def build (c : Catalog) (spec : Json) (start : UInt32 := 0) : Except Error Node :=
  if isNone spec then (numberAfter start).map fun _ => .group start .and []
  else (node c start spec).map Prod.fst

end Listing.Spec
