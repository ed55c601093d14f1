import Listing.Proofs.Catalog.Reachable
import Listing.Proofs.Filter.Walk
/-!
# Errors of a filter

What can be wrong with a filter: a word for a connective (`raises_connectiveOf`), a value (`raises_ofField`),
the form of a specification, a name or an operator that is not allowed, or the number of nodes. None of
them is an error of the database (`raises_validate`, `raises_build`).
-/
namespace Listing

namespace Error

/-- A word for a connective is at fault. -/
def OfConnective : Error → Prop
  | unknownConnective _ | connectiveNotText _ => True
  | _ => False

/-- A condition's value is at fault: it is no scalar and no list of scalars, a transform refuses it, or the
operator does not take it. -/
def OfValue : Error → Prop
  | nestedValue | valueIsObject | transform _ _ | boundsCount _ _ _ | boundsMissing _ _ | listMissing _ _
  | listNotAccepted _ _ => True
  | _ => False

/-- The error needs no database to be found. -/
def Early (e : Error) : Prop := e.kind ≠ .database

theorem OfConnective.early {e : Error} (h : e.OfConnective) : e.Early := by
  cases e <;> first | exact h.elim | simp [Early, kind]

theorem OfValue.early {e : Error} (h : e.OfValue) : e.Early := by
  cases e <;> first | exact h.elim | simp [Early, kind]

end Error

/-! ## Values -/

theorem Value.raises_scalars (js : List Json) : Raises Error.OfValue (scalars js) := by
  induction js with
  | nil => simp [scalars]
  | cons j js ih =>
    unfold scalars
    split
    · simp [Error.OfValue]
    · exact ih.map

theorem Value.raises_ofFilter (j : Json) : Raises Error.OfValue (ofFilter j) := by
  unfold ofFilter
  split
  · exact (raises_scalars _).map
  · split
    · simp [Error.OfValue]
    · simp

namespace Predicate

theorem raises_transformScalar (field : String) (t : Transform) (v : Value) :
    Raises Error.OfValue (transformScalar field t v) := by
  unfold transformScalar
  split <;> simp [Error.OfValue]

theorem raises_transformValue (field : String) (t : Transform) (v : Value) :
    Raises Error.OfValue (transformValue field t v) := by
  have hall : ∀ vs, Raises Error.OfValue (transformAll field t vs) := by
    intro vs
    induction vs with
    | nil => simp [transformAll]
    | cons v vs ih => exact (raises_transformScalar field t v).bind fun _ _ => ih.bind fun _ _ => raises_pure _ _
  unfold transformValue
  split
  · exact (hall _).map
  · exact raises_transformScalar field t v

theorem raises_checkShape (field : String) (op : Operator) (v : Value) :
    Raises Error.OfValue (checkShape field op v) := by
  unfold checkShape
  repeat' split
  all_goals simp [Error.OfValue]

theorem raises_valueFor (f : Field) (op : Operator) (v : Value) : Raises Error.OfValue (valueFor f op v) := by
  have hshape : ∀ w, Raises Error.OfValue (do checkShape f.name op w; return some w) := fun w =>
    (raises_checkShape f.name op w).bind fun _ _ => raises_pure _ _
  unfold valueFor
  split
  · exact raises_ok _ _
  · cases f.transform? with
    | none => exact hshape v
    | some t => exact (raises_transformValue f.name t v).bind fun w _ => hshape w

/-- Only its value can keep a predicate on a field from being made. -/
theorem raises_ofField (number : UInt32) (connective : Connective) (f : Field) (op : Operator) (raw : Json) :
    Raises Error.OfValue (ofField number connective f op raw) :=
  (Value.raises_ofFilter raw).bind fun v _ => (raises_valueFor f op v).bind fun _ _ => raises_pure _ _

end Predicate

/-! ## Specifications -/

theorem Operator.raises_ofToken (word : String) : Raises Error.Early (ofToken word) := by
  simp only [ofToken]
  split <;> simp [Error.Early, Error.kind]

theorem Catalog.raises_resolve (c : Catalog) (name : String) : Raises Error.Early (c.resolve name) := by
  unfold resolve
  repeat' split
  all_goals simp [Error.Early, Error.kind]

theorem Catalog.raises_checkFilter (c : Catalog) (name : String) (op : Operator) :
    Raises Error.Early (c.checkFilter name op) := by
  refine (c.raises_resolve name).bind fun f _ => ?_
  split <;> simp [Error.Early, Error.kind]

namespace Spec

theorem raises_connectiveOf (ms : Json.Members) : Raises Error.OfConnective (connectiveOf ms) := by
  simp only [connectiveOf, Connective.ofJson, Connective.ofToken]
  repeat' split
  all_goals simp [Error.OfConnective]

theorem raises_leafOf (ms : Json.Members) : Raises Error.Early (leafOf ms) := by
  have hcondition : Raises Error.Early (conditionOf ms) := by
    unfold conditionOf
    split <;> simp [Error.Early, Error.kind]
  refine hcondition.bind fun ms _ => ?_
  split
  · simp [Error.Early, Error.kind]
  · split
    · simp [Error.Early, Error.kind]
    · exact (Operator.raises_ofToken _).bind fun _ _ => raises_pure _ _

theorem raises_numberAfter (n : UInt32) : Raises Error.Early (numberAfter n) := by
  unfold numberAfter
  split <;> simp [Error.Early, Error.kind]

variable (c : Catalog)

theorem raises_buildLeaf (connective : Connective) (ms : Json.Members) (next : UInt32) :
    Raises Error.Early (buildLeaf c connective ms next) := by
  refine (raises_leafOf ms).bind fun leaf _ => (c.raises_resolve _).bind fun f _ => ?_
  refine (raises_numberAfter next).bind fun _ _ => ?_
  exact ((Predicate.raises_ofField next connective f leaf.operator leaf.value).mono fun _ => Error.OfValue.early).bind
    fun _ _ => raises_pure _ _

/-- Checking a filter finds no error of the database. -/
theorem raises_validate :
    (∀ j, Raises Error.Early (validate c j)) ∧ ∀ items, Raises Error.Early (validateItems c items) := by
  refine walk_induction ?array ?empty ?group ?broken ?condition ?scalar ?nil ?cons
  case array =>
    intro items ih
    rwa [validate_array]
  case empty =>
    rw [validate_empty]
    exact raises_ok _ _
  case group =>
    intro ms items hms ih
    rwa [validate_group c hms]
  case broken =>
    intro ms j hms hj
    rw [validate_broken c hms hj]
    simp [Error.Early, Error.kind]
  case condition =>
    intro ms hne hms
    rw [validate_condition c hne hms]
    exact (raises_leafOf ms).bind fun _ _ => (c.raises_checkFilter _ _).bind fun _ _ => raises_pure _ _
  case scalar =>
    intro j hj
    by_cases hnull : j = .null
    · rw [hnull, validate_null]
      exact raises_ok _ _
    · rw [validate_scalar c hj hnull]
      simp [Error.Early, Error.kind]
  case nil =>
    rw [validateItems_nil]
    exact raises_ok _ _
  case cons =>
    intro j rest ihj ihrest
    cases hj : isEntry j with
    | true =>
      rw [validateItems_cons c hj]
      exact ihj.bind fun _ _ => ihrest.bind fun _ _ => raises_pure _ _
    | false =>
      rw [validateItems_stray c hj]
      simp [Error.Early, Error.kind]

theorem raises_node :
    (∀ j next, Raises Error.Early (node c next j)) ∧ ∀ items next, Raises Error.Early (nodes c next items) := by
  have hgroup : ∀ {connective items next}, (∀ next, Raises Error.Early (nodes c next items)) →
      Raises Error.Early (groupOf c next connective items) := fun ih =>
    (raises_numberAfter _).bind fun _ _ => (ih _).bind fun _ _ => raises_pure _ _
  have hconnective : ∀ ms, Raises Error.Early (connectiveOf ms) := fun ms =>
    (raises_connectiveOf ms).mono fun _ => Error.OfConnective.early
  refine walk_induction ?array ?empty ?group ?broken ?condition ?scalar ?nil ?cons
  case array =>
    intro items ih next
    rw [node_array]
    exact hgroup ih
  case empty =>
    intro next
    rw [node_condition c next rfl]
    exact (hconnective []).bind fun _ _ => raises_buildLeaf c _ _ _
  case group =>
    intro ms items hms ih next
    rw [node_group c next hms]
    exact (hconnective ms).bind fun _ _ => hgroup ih
  case broken =>
    intro ms j hms hj next
    rw [node_broken c next hms hj]
    exact (hconnective ms).bind fun _ _ => by simp [Error.Early, Error.kind]
  case condition =>
    intro ms _ hms next
    rw [node_condition c next hms]
    exact (hconnective ms).bind fun _ _ => raises_buildLeaf c _ _ _
  case scalar =>
    intro j hj next
    rw [node_scalar c next hj]
    simp [Error.Early, Error.kind]
  case nil =>
    intro next
    rw [nodes_nil]
    exact raises_ok _ _
  case cons =>
    intro j rest ihj ihrest next
    rw [nodes_cons]
    exact (ihj next).bind fun _ _ => (ihrest _).bind fun _ _ => raises_pure _ _

/-- Building a filter finds no error of the database. -/
theorem raises_build (filters : Json) (start : UInt32) : Raises Error.Early (build c filters start) := by
  unfold build
  split
  · exact (raises_numberAfter start).map
  · exact ((raises_node c).1 filters start).map

end Spec
end Listing
