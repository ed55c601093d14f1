import Listing.Filter.Spec
import Listing.Proofs.Outcome
/-!
# The recursions over a specification

Checking and building both walk over a specification. Here is what each does at an array, at an object
with a collection and at a condition, so that nothing else has to open them, and the one induction that
follows both (`walk_induction`). What is said of trees that were built needs only the conditions and groups
that were (`built_induction`).
-/
namespace Listing.Spec

open Json (Members)

/-- The connective that an object carries. -/
def connectiveOf (ms : Members) : Except Error Connective :=
  Connective.ofJson (Json.member? "bool_operator" ms)

theorem isEmpty_eq_false_of_member {ms : Members} {key : String} {j : Json}
    (h : Json.member? key ms = some j) : ms.isEmpty = false := by
  cases ms with
  | nil => simp [Json.member?] at h
  | cons m rest => rfl

/-! ## Checking -/

section
variable (c : Catalog)

theorem validate_null : validate c .null = .ok 0 := by rw [validate]

theorem validate_array (items : List Json) : validate c (.arr items) = validateItems c items := by
  rw [validate]

theorem validate_empty : validate c (.obj []) = .ok 0 := by
  rw [validate]
  rfl

theorem validate_group {ms : Members} {items : List Json}
    (h : Json.member? "collection" ms = some (.arr items)) :
    validate c (.obj ms) = validateItems c items := by
  rw [validate, isEmpty_eq_false_of_member h]
  simp only [Bool.false_eq_true, if_false]
  split
  · next items' h' => rw [h] at h'; cases h'; rfl
  · next j hj h' => exact absurd (Option.some.inj (h'.symm.trans h)) (hj items)
  · next hnone => rw [h] at hnone; cases hnone

theorem validate_broken {ms : Members} {j : Json} (h : Json.member? "collection" ms = some j)
    (hj : ∀ items, j ≠ .arr items) : validate c (.obj ms) = .error .collectionNotList := by
  rw [validate, isEmpty_eq_false_of_member h]
  simp only [Bool.false_eq_true, if_false]
  split
  · next items hitems => exact absurd (Option.some.inj (h.symm.trans hitems)) (hj items)
  · rfl
  · next hnone => rw [h] at hnone; cases hnone

theorem validate_condition {ms : Members} (hne : ms ≠ []) (h : Json.member? "collection" ms = none) :
    validate c (.obj ms) = do
      let leaf ← leafOf ms
      let _ ← c.checkFilter leaf.property leaf.operator
      return 1 := by
  have hempty : ms.isEmpty = false := List.isEmpty_eq_false_iff.2 hne
  rw [validate, hempty]
  simp only [Bool.false_eq_true, if_false]
  split
  · next h' => rw [h] at h'; cases h'
  · next h' => rw [h] at h'; cases h'
  · rfl

theorem validate_scalar {j : Json} (h : isEntry j = false) (hn : j ≠ .null) :
    validate c j = .error (.notAFilter j) := by
  cases j with
  | null => exact absurd rfl hn
  | arr items => cases h
  | obj ms => cases h
  | _ => rw [validate] <;> simp

theorem validateItems_nil : validateItems c [] = .ok 0 := by rw [validateItems]

theorem validateItems_cons {j : Json} {rest : List Json} (h : isEntry j = true) :
    validateItems c (j :: rest) = do
      let n ← validate c j
      return n + (← validateItems c rest) := by
  rw [validateItems, if_pos h]

theorem validateItems_stray {j : Json} {rest : List Json} (h : isEntry j = false) :
    validateItems c (j :: rest) = .error (.notAnEntry j) := by
  rw [validateItems, if_neg (by simp [h])]

end

/-! ## Building -/

section
variable (c : Catalog) (next : UInt32)

/-- The group that a list of entries makes. -/
def groupOf (connective : Connective) (items : List Json) : Except Error (Node × UInt32) := do
  let (children, next') ← nodes c (← numberAfter next) items
  return (.group next connective children, next')

theorem node_array (items : List Json) : node c next (.arr items) = groupOf c next .and items := by
  rw [node, groupOf]

theorem node_group {ms : Members} {items : List Json}
    (h : Json.member? "collection" ms = some (.arr items)) :
    node c next (.obj ms) = connectiveOf ms >>= fun connective => groupOf c next connective items := by
  rw [node, connectiveOf]
  congr 1
  funext connective
  split
  · next items' h' => rw [h] at h'; cases h'; rfl
  · next j hj h' => exact absurd (Option.some.inj (h'.symm.trans h)) (hj items)
  · next hnone => rw [h] at hnone; cases hnone

theorem node_broken {ms : Members} {j : Json} (h : Json.member? "collection" ms = some j)
    (hj : ∀ items, j ≠ .arr items) :
    node c next (.obj ms) = connectiveOf ms >>= fun _ => .error .collectionNotList := by
  rw [node, connectiveOf]
  congr 1
  funext connective
  split
  · next items hitems => exact absurd (Option.some.inj (h.symm.trans hitems)) (hj items)
  · rfl
  · next hnone => rw [h] at hnone; cases hnone

theorem node_condition {ms : Members} (h : Json.member? "collection" ms = none) :
    node c next (.obj ms) = connectiveOf ms >>= fun connective => buildLeaf c connective ms next := by
  rw [node, connectiveOf]
  congr 1
  funext connective
  split
  · next h' => rw [h] at h'; cases h'
  · next h' => rw [h] at h'; cases h'
  · rfl

theorem node_scalar {j : Json} (h : isEntry j = false) : node c next j = .error (.notAFilter j) := by
  cases j with
  | arr items => cases h
  | obj ms => cases h
  | _ => rw [node] <;> simp

/-- An object without members is no condition. -/
theorem ne_nil_of_buildLeaf {connective : Connective} {ms : Members} {result : Node × UInt32}
    (h : buildLeaf c connective ms next = .ok result) : ms ≠ [] := by
  rintro rfl
  obtain ⟨leaf, hleaf, -⟩ := bind_eq_ok.1 h
  cases hleaf

theorem nodes_nil : nodes c next [] = .ok ([], next) := by rw [nodes]

theorem nodes_cons (j : Json) (rest : List Json) :
    nodes c next (j :: rest) = do
      let (n, next) ← node c next j
      let (ns, next) ← nodes c next rest
      return (n :: ns, next) := by
  rw [nodes]

end

/-! ## Induction -/

/-- What holds of a specification if it holds of the entries of its groups, holds of all. -/
theorem walk_induction {P : Json → Prop} {Q : List Json → Prop}
    (array : ∀ items, Q items → P (.arr items)) (empty : P (.obj []))
    (group : ∀ ms items, Json.member? "collection" ms = some (.arr items) → Q items → P (.obj ms))
    (broken : ∀ ms j, Json.member? "collection" ms = some j → (∀ items, j ≠ .arr items) → P (.obj ms))
    (condition : ∀ ms, ms ≠ [] → Json.member? "collection" ms = none → P (.obj ms))
    (scalar : ∀ j, isEntry j = false → P j) (nil : Q []) (cons : ∀ j rest, P j → Q rest → Q (j :: rest)) :
    (∀ j, P j) ∧ ∀ items, Q items := by
  have h := node.mutual_induct (fun _ j => P j) (fun _ items => Q items)
    (fun _ items ih => array items (ih 0))
    (fun _ ms ih => by
      cases hc : Json.member? "collection" ms with
      | none =>
        by_cases hne : ms = []
        · rw [hne]; exact empty
        · exact condition ms hne hc
      | some j =>
        by_cases hj : ∃ items, j = .arr items
        · obtain ⟨items, rfl⟩ := hj
          exact group ms items hc (ih items hc 0)
        · exact broken ms j hc fun items e => hj ⟨items, e⟩)
    (fun _ j harr hobj => scalar j (by
      cases j with
      | arr items => exact (harr items rfl).elim
      | obj ms => exact (hobj ms rfl).elim
      | _ => rfl))
    (fun _ => nil) (fun _ j rest hj hrest => cons j rest hj (hrest 0))
  exact ⟨h.1 0, h.2 0⟩

section
variable {c : Catalog} {next next' : UInt32}

theorem validateItems_cons_eq_ok {j : Json} {rest : List Json} {count : Nat}
    (h : validateItems c (j :: rest) = .ok count) :
    isEntry j = true ∧ ∃ first others, validate c j = .ok first ∧ validateItems c rest = .ok others ∧
      count = first + others := by
  cases hj : isEntry j with
  | false =>
    rw [validateItems_stray c hj] at h
    cases h
  | true =>
    rw [validateItems_cons c hj] at h
    obtain ⟨first, hfirst, h⟩ := bind_eq_ok.1 h
    obtain ⟨others, hothers, h⟩ := bind_eq_ok.1 h
    cases h
    exact ⟨rfl, first, others, hfirst, hothers, rfl⟩

theorem groupOf_eq_ok {connective : Connective} {items : List Json} {n : Node}
    (h : groupOf c next connective items = .ok (n, next')) :
    ∃ start children, numberAfter next = .ok start ∧ nodes c start items = .ok (children, next') ∧
      n = .group next connective children := by
  obtain ⟨start, hstart, h⟩ := bind_eq_ok.1 h
  obtain ⟨⟨children, last⟩, hchildren, h⟩ := bind_eq_ok.1 h
  cases h
  exact ⟨start, children, hstart, hchildren, rfl⟩

theorem nodes_cons_eq_ok {j : Json} {rest : List Json} {ns : List Node}
    (h : nodes c next (j :: rest) = .ok (ns, next')) :
    ∃ n middle ns', node c next j = .ok (n, middle) ∧ nodes c middle rest = .ok (ns', next') ∧ ns = n :: ns' := by
  rw [nodes_cons] at h
  obtain ⟨⟨n, middle⟩, hn, h⟩ := bind_eq_ok.1 h
  obtain ⟨⟨ns', last⟩, hns, h⟩ := bind_eq_ok.1 h
  cases h
  exact ⟨n, middle, ns', hn, hns, rfl⟩

end

/-- What holds of every condition that is built, and of a group if it holds of the entries that are built for
it, holds of all that is built. -/
theorem built_induction {c : Catalog} {P : Json → UInt32 → Node → UInt32 → Prop}
    {Q : List Json → UInt32 → List Node → UInt32 → Prop}
    (array : ∀ items next start children next', numberAfter next = .ok start → Q items start children next' →
      P (.arr items) next (.group next .and children) next')
    (group : ∀ ms items connective next start children next', Json.member? "collection" ms = some (.arr items) →
      connectiveOf ms = .ok connective → numberAfter next = .ok start → Q items start children next' →
      P (.obj ms) next (.group next connective children) next')
    (condition : ∀ ms connective next n next', ms ≠ [] → Json.member? "collection" ms = none →
      connectiveOf ms = .ok connective → buildLeaf c connective ms next = .ok (n, next') → P (.obj ms) next n next')
    (nil : ∀ next, Q [] next [] next)
    (cons : ∀ j rest next n middle ns next', P j next n middle → Q rest middle ns next' →
      Q (j :: rest) next (n :: ns) next') :
    (∀ j next n next', node c next j = .ok (n, next') → P j next n next') ∧
      ∀ items next ns next', nodes c next items = .ok (ns, next') → Q items next ns next' := by
  have hcondition : ∀ ms, Json.member? "collection" ms = none → ∀ next n next',
      node c next (.obj ms) = .ok (n, next') → P (.obj ms) next n next' := by
    intro ms hms next n next' h
    rw [node_condition c next hms] at h
    obtain ⟨connective, hconnective, h⟩ := bind_eq_ok.1 h
    exact condition ms connective next n next' (ne_nil_of_buildLeaf c next h) hms hconnective h
  refine walk_induction ?array (hcondition [] rfl) ?group ?broken (fun ms _ => hcondition ms) ?scalar ?nil ?cons
  case array =>
    intro items ih next n next' h
    rw [node_array] at h
    obtain ⟨start, children, hstart, hchildren, rfl⟩ := groupOf_eq_ok h
    exact array items next start children next' hstart (ih start children next' hchildren)
  case group =>
    intro ms items hms ih next n next' h
    rw [node_group c next hms] at h
    obtain ⟨connective, hconnective, h⟩ := bind_eq_ok.1 h
    obtain ⟨start, children, hstart, hchildren, rfl⟩ := groupOf_eq_ok h
    exact group ms items connective next start children next' hms hconnective hstart
      (ih start children next' hchildren)
  case broken =>
    intro ms j hms hj next n next' h
    rw [node_broken c next hms hj] at h
    obtain ⟨_, _, h⟩ := bind_eq_ok.1 h
    cases h
  case scalar =>
    intro j hj next n next' h
    rw [node_scalar c next hj] at h
    cases h
  case nil =>
    intro next ns next' h
    rw [nodes_nil] at h
    cases h
    exact nil next
  case cons =>
    intro j rest ihj ihrest next ns next' h
    obtain ⟨n, middle, ns', hn, hns, rfl⟩ := nodes_cons_eq_ok h
    exact cons j rest next n middle ns' next' (ihj next n middle hn) (ihrest middle ns' next' hns)

end Listing.Spec
