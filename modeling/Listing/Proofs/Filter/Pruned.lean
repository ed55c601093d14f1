import Listing.Proofs.Filter.Alike
import Listing.Proofs.Filter.Numbers
/-!
# Filters without what is absent

A condition whose operator needs a value and that has none is absent. `pruned` deletes the absent conditions
of a specification and the groups that are left empty. What is built from the rest is what is built from the
whole, without the absent predicates and with other numbers (`validate_pruned`, `build_pruned`).
-/
namespace Listing

/-! ## Pruning a specification -/

namespace Json

/-- The members with another value under a key. -/
def replace (key : String) (value : Json) (ms : Members) : Members :=
  ms.map fun m => if m.1 = key then (key, value) else m

theorem member?_replace {key : String} {value j : Json} {ms : Members} (h : member? key ms = some j) :
    member? key (replace key value ms) = some value := by
  induction ms with
  | nil => cases h
  | cons m ms ih =>
    obtain ⟨k, v⟩ := m
    by_cases hk : k = key
    · simp [replace, member?, hk]
    · have hother : (key == k) = false := beq_eq_false_iff_ne.mpr (Ne.symm hk)
      simp only [member?, List.lookup_cons, hother, replace, List.map_cons, hk, if_false] at h ih ⊢
      exact ih h

theorem member?_replace_of_ne {key other : String} (value : Json) (ms : Members) (h : other ≠ key) :
    member? other (replace key value ms) = member? other ms := by
  have hother : (other == key) = false := beq_eq_false_iff_ne.mpr h
  induction ms with
  | nil => rfl
  | cons m ms ih =>
    obtain ⟨k, v⟩ := m
    simp only [member?, replace, List.map_cons] at ih ⊢
    by_cases hk : k = key
    · rw [if_pos hk, List.lookup_cons, List.lookup_cons, hother, hk, hother, ih]
    · rw [if_neg hk, List.lookup_cons, List.lookup_cons, ih]

end Json

namespace Spec

open Json (Members)

/-- A condition that says nothing: its operator needs a value, and that is null, missing or an empty list. -/
def isAbsent (ms : Members) : Bool :=
  match leafOf ms with
  | .ok leaf => !leaf.operator.isNullCheck && leaf.value.isNothing
  | .error _ => false

/-- A group of what is left, if anything is. -/
def regroup (make : List Json → Json) : List Json → Option Json
  | [] => none
  | kept => some (make kept)

theorem eq_of_regroup {make : List Json → Json} {items : List Json} {j : Json} (h : regroup make items = some j) :
    j = make items := by
  cases items with
  | nil => cases h
  | cons => cases h; rfl

mutual

/-- A specification without its absent conditions and without the groups that are empty then. -/
def prune : Json → Option Json
  | .arr items => regroup .arr (pruneAll items)
  | .obj ms => match _h : Json.member? "collection" ms with
    | some (.arr items) => regroup (fun kept => .obj (Json.replace "collection" (.arr kept) ms)) (pruneAll items)
    | some _ => some (.obj ms)
    | none => if isAbsent ms then none else some (.obj ms)
  | j => some j
termination_by j => sizeOf j
decreasing_by
  · simp
  · have := Json.sizeOf_member_lt _h
    simp at this ⊢
    omega

def pruneAll : List Json → List Json
  | [] => []
  | j :: rest => (prune j).toList ++ pruneAll rest
termination_by items => sizeOf items

end

/-- What is left of a whole specification; without anything left there is no filter. -/
def pruned (spec : Json) : Json := (prune spec).getD .null

theorem prune_array (items : List Json) : prune (.arr items) = regroup .arr (pruneAll items) := by rw [prune]

theorem prune_group {ms : Members} {items : List Json} (h : Json.member? "collection" ms = some (.arr items)) :
    prune (.obj ms) = regroup (fun kept => .obj (Json.replace "collection" (.arr kept) ms)) (pruneAll items) := by
  rw [prune]
  split
  · next items' h' => rw [h] at h'; cases h'; rfl
  · next j hj h' => exact absurd (Option.some.inj (h'.symm.trans h)) (hj items)
  · next hnone => rw [h] at hnone; cases hnone

theorem prune_condition {ms : Members} (h : Json.member? "collection" ms = none) :
    prune (.obj ms) = if isAbsent ms then none else some (.obj ms) := by
  rw [prune]
  split
  · next h' => rw [h] at h'; cases h'
  · next h' => rw [h] at h'; cases h'
  · rfl

theorem prune_scalar {j : Json} (h : isEntry j = false) : prune j = some j := by
  cases j with
  | arr items => cases h
  | obj ms => cases h
  | _ => rw [prune] <;> simp

theorem pruneAll_nil : pruneAll [] = [] := by rw [pruneAll]

theorem pruneAll_cons (j : Json) (rest : List Json) : pruneAll (j :: rest) = (prune j).toList ++ pruneAll rest := by
  rw [pruneAll]

/-! ## Checking what is left -/

/-- What is left of an entry is one. -/
theorem isEntry_prune {j j' : Json} (hj : isEntry j = true) (h : prune j = some j') : isEntry j' = true := by
  cases j with
  | arr items =>
    rw [prune_array] at h
    rw [eq_of_regroup h]
    rfl
  | obj ms =>
    rw [prune] at h
    split at h
    · rw [eq_of_regroup h]
      rfl
    · cases h
      rfl
    · split at h
      · cases h
      · cases h
        rfl
  | _ => cases hj

/-- What is left of a specification that passes the check passes it. -/
theorem validate_prune (c : Catalog) :
    (∀ j count j', validate c j = .ok count → prune j = some j' → ∃ count', validate c j' = .ok count') ∧
    ∀ items count, validateItems c items = .ok count → ∃ count', validateItems c (pruneAll items) = .ok count' := by
  refine walk_induction ?array ?empty ?group ?broken ?condition ?scalar ?nil ?cons
  case array =>
    intro items ih count j' hcheck h
    rw [validate_array] at hcheck
    rw [prune_array] at h
    rw [eq_of_regroup h, validate_array]
    exact ih count hcheck
  case empty =>
    intro count j' hcheck h
    rw [prune_condition rfl] at h
    cases h
    exact ⟨count, hcheck⟩
  case group =>
    intro ms items hms ih count j' hcheck h
    rw [validate_group c hms] at hcheck
    rw [prune_group hms] at h
    rw [eq_of_regroup h, validate_group c (Json.member?_replace hms)]
    exact ih count hcheck
  case broken =>
    intro ms j hms hj count j' hcheck
    rw [validate_broken c hms hj] at hcheck
    cases hcheck
  case condition =>
    intro ms hne hms count j' hcheck h
    rw [prune_condition hms] at h
    split at h
    · cases h
    · cases h
      exact ⟨count, hcheck⟩
  case scalar =>
    intro j hj count j' hcheck h
    rw [prune_scalar hj] at h
    cases h
    exact ⟨count, hcheck⟩
  case nil =>
    intro count hcheck
    rw [pruneAll_nil]
    exact ⟨count, hcheck⟩
  case cons =>
    intro j rest ihj ihrest count hcheck
    obtain ⟨hj, first, others, hfirst, hothers, -⟩ := validateItems_cons_eq_ok hcheck
    obtain ⟨others', hrest⟩ := ihrest others hothers
    rw [pruneAll_cons]
    cases hprune : prune j with
    | none => exact ⟨others', hrest⟩
    | some j' =>
      obtain ⟨first', hleft⟩ := ihj first j' hfirst hprune
      refine ⟨first' + others', ?_⟩
      rw [Option.toList_some, List.singleton_append, validateItems_cons c (isEntry_prune hj hprune), hleft, hrest]
      rfl

theorem validate_pruned {c : Catalog} {spec : Json} {count : Nat} (h : validate c spec = .ok count) :
    ∃ count', validate c (pruned spec) = .ok count' := by
  unfold pruned
  cases hprune : prune spec with
  | none => exact ⟨0, validate_null c⟩
  | some j' => exact (validate_prune c).1 spec count j' h hprune

end Spec

/-! ## Twins -/

namespace Predicate

/-- Whether the operator needs a value and there is none. -/
def missing (p : Predicate) : Bool := p.value.isNone && !p.operator.isNullCheck

/-- The same predicate with another number, both made from a field of the catalog. -/
inductive Renumbered (c : Catalog) (p p' : Predicate) : Prop
  | intro {name : String} {f : Field} {raw : Json} (hfield : c.get? name = some f)
      (h : ofField p.number p.connective f p.operator raw = .ok p)
      (h' : ofField p'.number p.connective f p.operator raw = .ok p')

end Predicate

namespace Node

/-- The values of all predicates are missing. -/
def Silent (n : Node) : Prop := ∀ p ∈ n.predicates, p.missing = true

mutual

/-- The same filter with other numbers and without some parts of it that are silent. -/
inductive Twin (c : Catalog) : Node → Node → Prop
  | predicate {p p' : Predicate} (hpresent : p.missing = false) (h : p.Renumbered c p') :
      Twin c (.predicate p) (.predicate p')
  | group {number number' : UInt32} {connective : Connective} {ns ns' : List Node} (h : Twins c ns ns') :
      Twin c (.group number connective ns) (.group number' connective ns')

inductive Twins (c : Catalog) : List Node → List Node → Prop
  | nil : Twins c [] []
  | keep {n n' : Node} {ns ns' : List Node} (h : Twin c n n') (hs : Twins c ns ns') : Twins c (n :: ns) (n' :: ns')
  | drop {n : Node} {ns ns' : List Node} (h : n.Silent) (hs : Twins c ns ns') : Twins c (n :: ns) ns'

end

/-- What remains of a whole filter: its twin, or nothing. -/
inductive Remains (c : Catalog) (n : Node) : Node → Prop
  | twin {n' : Node} (h : Twin c n n') : Remains c n n'
  | nothing (h : n.Silent) : Remains c n (.group 0 .and [])

theorem Twins.silent {c : Catalog} : ∀ {ns : List Node}, Twins c ns [] → ∀ p ∈ allPredicates ns, p.missing = true
  | _, .nil => List.forall_mem_nil _
  | _, .drop h hs => List.forall_mem_append.mpr ⟨h, hs.silent⟩

theorem filter_silent {ps : List Predicate} (h : ∀ p ∈ ps, p.missing = true) : ps.filter (!·.missing) = [] := by
  rw [List.filter_eq_nil_iff]
  intro p hp
  simp [h p hp]

mutual

/-- The predicates of a twin are those whose values are not missing, in order. -/
theorem predicates_twin {c : Catalog} : ∀ (n : Node) {n' : Node}, Twin c n n' →
    List.Forall₂ (Predicate.Renumbered c) (n.predicates.filter (!·.missing)) n'.predicates
  | predicate p, _, .predicate hpresent h => by
    rw [predicates, List.filter_cons_of_pos (by simp [hpresent]), List.filter_nil]
    exact .cons h .nil
  | group _ _ ns, _, .group hs => predicates_twins ns hs
termination_by structural n => n

theorem predicates_twins {c : Catalog} : ∀ (ns : List Node) {ns' : List Node}, Twins c ns ns' →
    List.Forall₂ (Predicate.Renumbered c) ((allPredicates ns).filter (!·.missing)) (allPredicates ns')
  | [], _, .nil => .nil
  | n :: rest, _, .keep h hs => by
    rw [allPredicates, allPredicates, List.filter_append]
    exact List.rel_append (predicates_twin n h) (predicates_twins rest hs)
  | n :: rest, _, .drop h hs => by
    rw [allPredicates, List.filter_append, filter_silent h, List.nil_append]
    exact predicates_twins rest hs
termination_by structural ns => ns

end

mutual

theorem aggregated_iff : ∀ n : Node, n.aggregated = true ↔ ∃ p ∈ n.predicates, p.aggregated = true
  | predicate p => by simp [aggregated, predicates]
  | group _ _ children => anyAggregated_iff children

theorem anyAggregated_iff :
    ∀ ns : List Node, anyAggregated ns = true ↔ ∃ p ∈ allPredicates ns, p.aggregated = true
  | [] => by simp [anyAggregated, allPredicates]
  | n :: rest => by
    simp only [anyAggregated, allPredicates, Bool.or_eq_true, aggregated_iff n, anyAggregated_iff rest, List.mem_append,
      or_and_right, exists_or]

end

end Node

/-! ## Building what is left -/

namespace Spec

open Json (Members)
open Node (Remains Twin Twins)

variable {c : Catalog}

theorem numberAfter_of_le {start next next' : UInt32} (h : numberAfter next = .ok next')
    (hle : start.toNat ≤ next.toNat) : ∃ stop, numberAfter start = .ok stop ∧ stop.toNat ≤ next'.toNat := by
  have hnext := numberAfter_eq_ok.1 h
  have hlt := next'.toNat_lt
  cases hstop : numberAfter start with
  | ok stop =>
    have hstart := numberAfter_eq_ok.1 hstop
    exact ⟨stop, rfl, by omega⟩
  | error e =>
    unfold numberAfter at hstop
    split at hstop
    · cases hstop
    · next hnumbers =>
      simp only [UInt32.size] at hnumbers
      omega

/-- The number has no part in whether a predicate is made. -/
theorem ofField_renumbered {number : UInt32} {connective : Connective} {f : Field} {op : Operator} {raw : Json}
    {p : Predicate} (h : Predicate.ofField number connective f op raw = .ok p) (number' : UInt32) :
    ∃ p', Predicate.ofField number' connective f op raw = .ok p' := by
  obtain ⟨v, hv, h⟩ := bind_eq_ok.1 h
  obtain ⟨value, hvalue, _⟩ := bind_eq_ok.1 h
  refine ⟨_, bind_eq_ok.2 ⟨v, hv, bind_eq_ok.2 ⟨value, hvalue, rfl⟩⟩⟩

/-- Only null and the empty list are read as nothing. -/
theorem isAbsent_ofFilter {j : Json} {v : Value} (h : Value.ofFilter j = .ok v) :
    Predicate.isAbsent v = j.isNothing := by
  cases hj : j.isNothing with
  | true =>
    obtain ⟨w, hw, hnone⟩ := isAbsent_of_isNothing hj
    cases h.symm.trans hw
    exact hnone
  | false =>
    cases hscalar : j.isScalar with
    | true =>
      obtain ⟨w, hw, -, hsome⟩ := ofFilter_scalar hscalar (by simp [hj])
      cases h.symm.trans hw
      exact hsome
    | false =>
      cases j with
      | arr items =>
        obtain ⟨vs, hvs, rfl⟩ := map_eq_ok.1 h
        cases items with
        | nil => cases hj
        | cons item items =>
          unfold Value.scalars at hvs
          split at hvs
          · cases hvs
          · obtain ⟨ws, _, rfl⟩ := map_eq_ok.1 hvs
            rfl
      | obj ms => cases h
      | _ => cases hscalar

/-- The value of a predicate is missing if it was not given. -/
theorem missing_ofField {number : UInt32} {connective : Connective} {f : Field} {op : Operator} {raw : Json}
    {p : Predicate} (h : Predicate.ofField number connective f op raw = .ok p) :
    p.missing = (!op.isNullCheck && raw.isNothing) := by
  obtain ⟨v, hv, h⟩ := bind_eq_ok.1 h
  obtain ⟨value, hvalue, h⟩ := bind_eq_ok.1 h
  cases h
  rw [← isAbsent_ofFilter hv, Predicate.missing]
  rcases Predicate.valueFor_cases hvalue with ⟨hnone, rfl⟩ | ⟨hsome, w, rfl, -⟩
  · revert hnone
    cases op.isNullCheck <;> simp
  · revert hsome
    cases op.isNullCheck <;> simp

theorem silent_buildLeaf {connective : Connective} {ms : Members} {next next' : UInt32} {n : Node}
    (habsent : isAbsent ms = true) (h : buildLeaf c connective ms next = .ok (n, next')) : n.Silent := by
  obtain ⟨leaf, hleaf, h⟩ := bind_eq_ok.1 h
  obtain ⟨f, _, h⟩ := bind_eq_ok.1 h
  obtain ⟨_, _, h⟩ := bind_eq_ok.1 h
  obtain ⟨p, hp, h⟩ := bind_eq_ok.1 h
  cases h
  rw [isAbsent, hleaf] at habsent
  exact List.forall_mem_singleton.mpr ((missing_ofField hp).trans habsent)

theorem twin_buildLeaf {connective : Connective} {ms : Members} {start next next' : UInt32} {n : Node}
    (hpresent : isAbsent ms = false) (h : buildLeaf c connective ms next = .ok (n, next'))
    (hle : start.toNat ≤ next.toNat) :
    ∃ n' stop, buildLeaf c connective ms start = .ok (n', stop) ∧ stop.toNat ≤ next'.toNat ∧ Twin c n n' := by
  obtain ⟨leaf, hleaf, h⟩ := bind_eq_ok.1 h
  obtain ⟨f, hf, h⟩ := bind_eq_ok.1 h
  obtain ⟨after, hafter, h⟩ := bind_eq_ok.1 h
  obtain ⟨p, hp, h⟩ := bind_eq_ok.1 h
  cases h
  obtain ⟨stop, hstop, hstopLe⟩ := numberAfter_of_le hafter hle
  obtain ⟨p', hp'⟩ := ofField_renumbered hp start
  rw [isAbsent, hleaf] at hpresent
  refine ⟨.predicate p', stop, ?_, hstopLe, .predicate ((missing_ofField hp).trans hpresent) ?_⟩
  · exact bind_eq_ok.2 ⟨leaf, hleaf, bind_eq_ok.2 ⟨f, hf, bind_eq_ok.2 ⟨stop, hstop, bind_eq_ok.2 ⟨p', hp', rfl⟩⟩⟩⟩
  · obtain ⟨rfl, rfl, hoperator⟩ := ofField_eq_ok hp
    obtain ⟨rfl, -, -⟩ := ofField_eq_ok hp'
    rw [← hoperator] at hp hp'
    exact .intro (Catalog.resolve_eq_ok.1 hf).1 hp hp'

/-- What is left of a group's entries is built as its twins, from the same number on or from a lower one. -/
def LeavesTwins (c : Catalog) (items : List Json) : Prop :=
  ∀ next ns next', nodes c next items = .ok (ns, next') → ∀ start : UInt32, start.toNat ≤ next.toNat →
    ∃ ns' stop, nodes c start (pruneAll items) = .ok (ns', stop) ∧ stop.toNat ≤ next'.toNat ∧ Twins c ns ns'

/-- Of a specification either nothing is left and it is silent, or what is left is built as its twin. -/
def LeavesTwin (c : Catalog) (j : Json) : Prop :=
  ∀ next n next', node c next j = .ok (n, next') → (prune j = none ∧ n.Silent) ∨
    ∃ j', prune j = some j' ∧ ∀ start : UInt32, start.toNat ≤ next.toNat →
      ∃ n' stop, node c start j' = .ok (n', stop) ∧ stop.toNat ≤ next'.toNat ∧ Twin c n n'

theorem twin_groupOf {items : List Json} (ih : LeavesTwins c items) {connective : Connective} {make : List Json → Json}
    {next next' : UInt32} {n : Node} (h : groupOf c next connective items = .ok (n, next'))
    (hmake : ∀ start, node c start (make (pruneAll items)) = groupOf c start connective (pruneAll items)) :
    (regroup make (pruneAll items) = none ∧ n.Silent) ∨
      ∃ j', regroup make (pruneAll items) = some j' ∧ ∀ start : UInt32, start.toNat ≤ next.toNat →
        ∃ n' stop, node c start j' = .ok (n', stop) ∧ stop.toNat ≤ next'.toNat ∧ Twin c n n' := by
  obtain ⟨after, children, hafter, hchildren, rfl⟩ := groupOf_eq_ok h
  cases hkept : pruneAll items with
  | nil =>
    obtain ⟨ns', stop, hnodes, _, htwins⟩ := ih after children next' hchildren after (Nat.le_refl _)
    rw [hkept, nodes_nil] at hnodes
    cases hnodes
    exact .inl ⟨rfl, htwins.silent⟩
  | cons k ks =>
    refine .inr ⟨_, rfl, fun start hle => ?_⟩
    obtain ⟨stop, hstop, hstopLe⟩ := numberAfter_of_le hafter hle
    obtain ⟨ns', last, hnodes, hlast, htwins⟩ := ih after children next' hchildren stop hstopLe
    refine ⟨.group start connective ns', last, ?_, hlast, .group htwins⟩
    rw [← hkept, hmake]
    exact bind_eq_ok.2 ⟨stop, hstop, bind_eq_ok.2 ⟨(ns', last), hnodes, rfl⟩⟩

theorem twin_node (c : Catalog) : (∀ j, LeavesTwin c j) ∧ ∀ items, LeavesTwins c items := by
  refine walk_induction ?array ?empty ?group ?broken ?condition ?scalar ?nil ?cons
  case array =>
    intro items ih next n next' h
    rw [node_array] at h
    rw [prune_array]
    exact twin_groupOf ih h fun start => node_array c start _
  case empty =>
    intro next n next' h
    rw [node_condition c next rfl] at h
    obtain ⟨connective, _, h⟩ := bind_eq_ok.1 h
    exact absurd rfl (ne_nil_of_buildLeaf c next h)
  case group =>
    intro ms items hms ih next n next' h
    rw [node_group c next hms] at h
    obtain ⟨connective, hconnective, h⟩ := bind_eq_ok.1 h
    rw [prune_group hms]
    refine twin_groupOf ih h fun start => ?_
    have hsame : connectiveOf (Json.replace "collection" (.arr (pruneAll items)) ms) = .ok connective := by
      rw [connectiveOf, Json.member?_replace_of_ne _ _ (by decide), ← connectiveOf, hconnective]
    rw [node_group c start (Json.member?_replace hms), hsame, ok_bind]
  case broken =>
    intro ms j hms hj next n next' h
    rw [node_broken c next hms hj] at h
    obtain ⟨connective, _, h⟩ := bind_eq_ok.1 h
    cases h
  case condition =>
    intro ms hne hms next n next' h
    rw [node_condition c next hms] at h
    obtain ⟨connective, hconnective, h⟩ := bind_eq_ok.1 h
    rw [prune_condition hms]
    split
    · next habsent => exact .inl ⟨rfl, silent_buildLeaf habsent h⟩
    · next hpresent =>
      refine .inr ⟨_, rfl, fun start hle => ?_⟩
      rw [node_condition c start hms, hconnective, ok_bind]
      exact twin_buildLeaf (by simpa using hpresent) h hle
  case scalar =>
    intro j hj next n next' h
    rw [node_scalar c next hj] at h
    cases h
  case nil =>
    intro next ns next' h start hle
    rw [nodes_nil] at h
    cases h
    rw [pruneAll_nil]
    exact ⟨[], start, nodes_nil c start, hle, .nil⟩
  case cons =>
    intro j rest ihj ihrest next ns next' h start hle
    obtain ⟨n, middle, ns', hn, hns, rfl⟩ := nodes_cons_eq_ok h
    rw [pruneAll_cons]
    rcases ihj next n middle hn with ⟨hprune, hsilent⟩ | ⟨j', hprune, htwin⟩
    · have hmiddle := (numbered_node.1 j next n middle hn).stop
      obtain ⟨kept, stop, hkept, hstop, htwins⟩ := ihrest middle ns' next' hns start (by omega)
      rw [hprune]
      exact ⟨kept, stop, hkept, hstop, .drop hsilent htwins⟩
    · obtain ⟨n', first, hn', hfirst, htwin⟩ := htwin start hle
      obtain ⟨kept, stop, hkept, hstop, htwins⟩ := ihrest middle ns' next' hns first hfirst
      rw [hprune, Option.toList_some, List.singleton_append, nodes_cons, hn']
      simp only [ok_bind, hkept]
      exact ⟨n' :: kept, stop, rfl, hstop, .keep htwin htwins⟩

theorem isNone_of_node {next : UInt32} {j : Json} {result : Node × UInt32} (h : node c next j = .ok result) :
    isNone j = false := by
  cases j with
  | null =>
    rw [node_scalar c next rfl] at h
    cases h
  | obj ms =>
    cases ms with
    | nil =>
      rw [node_condition c next rfl] at h
      obtain ⟨connective, _, h⟩ := bind_eq_ok.1 h
      exact absurd rfl (ne_nil_of_buildLeaf c next h)
    | cons => rfl
  | _ => rfl

/-- What is left of a whole filter is its twin; if nothing is, the filter is silent. -/
theorem build_pruned {filters : Json} {n : Node} (h : build c filters = .ok n) :
    ∃ n', build c (pruned filters) = .ok n' ∧ Remains c n n' := by
  have hempty : ∀ j, isNone j = true → build c j = .ok (.group 0 .and []) := fun j hj => by rw [build, if_pos hj]; rfl
  have hsilent : Node.Silent (.group 0 .and []) := List.forall_mem_nil _
  cases hnone : isNone filters with
  | true =>
    have hpruned : pruned filters = filters := by
      cases filters with
      | null => rw [pruned, prune_scalar rfl, Option.getD_some]
      | obj ms =>
        cases List.isEmpty_iff.mp hnone
        rw [pruned, prune_condition rfl]
        rfl
      | _ => cases hnone
    rw [hempty _ hnone] at h
    cases h
    exact ⟨_, by rw [hpruned, hempty _ hnone], .nothing hsilent⟩
  | false =>
    rw [build, if_neg (by simp [hnone])] at h
    obtain ⟨⟨n, next⟩, hnode, rfl⟩ := map_eq_ok.1 h
    rcases (twin_node c).1 filters 0 n next hnode with ⟨hprune, hsilent⟩ | ⟨j', hprune, htwin⟩
    · refine ⟨_, ?_, .nothing hsilent⟩
      rw [pruned, hprune, Option.getD_none]
      exact hempty .null rfl
    · obtain ⟨n', stop, hn', _, htwin⟩ := htwin 0 (Nat.le_refl _)
      refine ⟨n', ?_, .twin htwin⟩
      rw [pruned, hprune, Option.getD_some, build, if_neg (by simp [isNone_of_node hn']), hn']
      rfl

end Spec
end Listing
