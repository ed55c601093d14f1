import Listing.Proofs.Catalog.Reachable
import Listing.Proofs.Filter.Masked
import Listing.Proofs.Filter.Walk
/-!
# Filters alike but for their values

Two specifications are alike when they have the same groups, connectives, properties and operators and
their values have the same shapes: nothing in both, a scalar in both, or lists of equally many scalars.
They pass the same checks or fail them with the same error (`validate_alike`), and they build trees that
differ only under the mask or fail with the same error (`build_alike`).
-/
namespace Listing

/-- A scalar of a document, null among them. -/
def Json.isScalar : Json → Bool
  | .arr _ | .obj _ => false
  | _ => true

/-- Whether a condition's value says nothing. -/
def Json.isNothing : Json → Bool
  | .null | .arr [] => true
  | _ => false

/-- Two values of one shape. -/
inductive SameShape : Json → Json → Prop
  | nothing {j j' : Json} (h : j.isNothing) (h' : j'.isNothing) : SameShape j j'
  | scalar {j j' : Json} (h : j.isScalar) (h' : j'.isScalar) (hn : ¬ j.isNothing) (hn' : ¬ j'.isNothing) :
    SameShape j j'
  | list {xs ys : List Json} (hlen : xs.length = ys.length) (h : ∀ x ∈ xs, x.isScalar)
      (h' : ∀ y ∈ ys, y.isScalar) : SameShape (.arr xs) (.arr ys)

namespace Spec

/-- Two conditions on one property with one operator. Where the field has no transform of its own, the
values need only be of one shape. -/
structure LeafAlike (c : Catalog) (l l' : Leaf) : Prop where
  property : l.property = l'.property
  operator : l.operator = l'.operator
  value : l.value = l'.value ∨
    SameShape l.value l'.value ∧ ∀ f, c.get? l.property = some f → f.transform = none

mutual

/-- Two specifications of the same structure; parts that are no filters at all are the same in both. -/
inductive Alike (c : Catalog) : Json → Json → Prop
  | same (j : Json) : Alike c j j
  | array {xs ys : List Json} (h : AllAlike c xs ys) : Alike c (.arr xs) (.arr ys)
  | group {ms ms' : Json.Members} {xs ys : List Json} (hc : connectiveOf ms = connectiveOf ms')
      (hxs : Json.member? "collection" ms = some (.arr xs))
      (hys : Json.member? "collection" ms' = some (.arr ys)) (h : AllAlike c xs ys) :
    Alike c (.obj ms) (.obj ms')
  | broken {ms ms' : Json.Members} {j j' : Json} (hc : connectiveOf ms = connectiveOf ms')
      (hms : Json.member? "collection" ms = some j) (hms' : Json.member? "collection" ms' = some j')
      (hj : ∀ items, j ≠ .arr items) (hj' : ∀ items, j' ≠ .arr items) : Alike c (.obj ms) (.obj ms')
  | condition {ms ms' : Json.Members} (hc : connectiveOf ms = connectiveOf ms') (hne : ms ≠ [])
      (hne' : ms' ≠ []) (hms : Json.member? "collection" ms = none)
      (hms' : Json.member? "collection" ms' = none) (h : Agree (LeafAlike c) (leafOf ms) (leafOf ms')) :
    Alike c (.obj ms) (.obj ms')

inductive AllAlike (c : Catalog) : List Json → List Json → Prop
  | nil : AllAlike c [] []
  | cons {x y : Json} {xs ys : List Json} (h : Alike c x y) (hs : AllAlike c xs ys) :
    AllAlike c (x :: xs) (y :: ys)

end
/-! ## Checking -/

theorem Alike.isEntry_eq {c : Catalog} {j j' : Json} (h : Alike c j j') : isEntry j = isEntry j' := by
  cases h <;> rfl

theorem Alike.isNone_eq {c : Catalog} {j j' : Json} (h : Alike c j j') : isNone j = isNone j' := by
  cases h with
  | same => rfl
  | array => rfl
  | group hc hxs hys hs =>
    simp only [isNone, isEmpty_eq_false_of_member hxs, isEmpty_eq_false_of_member hys]
  | broken hc hms hms' hj hj' =>
    simp only [isNone, isEmpty_eq_false_of_member hms, isEmpty_eq_false_of_member hms']
  | condition hc hne hne' hms hms' h =>
    simp only [isNone, List.isEmpty_eq_false_iff.2 hne, List.isEmpty_eq_false_iff.2 hne']

/-- Both conditions pass the same check or fail it alike. -/
theorem checkLeaf_alike {c : Catalog} {ms ms' : Json.Members}
    (h : Agree (LeafAlike c) (leafOf ms) (leafOf ms')) :
    Agree (fun n n' : Nat => n = n')
      (do let leaf ← leafOf ms; let _ ← c.checkFilter leaf.property leaf.operator; return 1)
      (do let leaf ← leafOf ms'; let _ ← c.checkFilter leaf.property leaf.operator; return 1) := by
  refine h.bind fun l l' hl => ?_
  rw [hl.property, hl.operator]
  exact .of_eq (fun _ => rfl) rfl

theorem eq_of_agree_eq {x y : Except Error α} (h : Agree (fun a b => a = b) x y) : x = y := by
  cases x <;> cases y
  · exact congrArg Except.error h
  · exact h.elim
  · exact h.elim
  · exact congrArg Except.ok h

mutual

theorem validate_alike {c : Catalog} : ∀ {j j' : Json}, Alike c j j' → validate c j = validate c j'
  | _, _, .same j => rfl
  | _, _, .array hs => by
    rw [validate_array, validate_array, validateItems_alike hs]
  | _, _, .group _ hxs hys hs => by
    rw [validate_group c hxs, validate_group c hys, validateItems_alike hs]
  | _, _, .broken _ hms hms' hj hj' => by
    rw [validate_broken c hms hj, validate_broken c hms' hj']
  | _, _, .condition _ hne hne' hms hms' h => by
    rw [validate_condition c hne hms, validate_condition c hne' hms']
    exact eq_of_agree_eq (checkLeaf_alike h)

theorem validateItems_alike {c : Catalog} :
    ∀ {xs ys : List Json}, AllAlike c xs ys → validateItems c xs = validateItems c ys
  | _, _, .nil => rfl
  | x :: xs, y :: ys, .cons h hs => by
    cases hx : isEntry x with
    | true =>
      have hy : isEntry y = true := h.isEntry_eq ▸ hx
      rw [validateItems_cons c hx, validateItems_cons c hy, validate_alike h, validateItems_alike hs]
    | false =>
      have hy : isEntry y = false := h.isEntry_eq ▸ hx
      -- what is no entry is the same in both
      cases h with
      | same => rw [validateItems_stray c hx, validateItems_stray c hx]
      | _ => cases hx

end

/-! ## Values -/

theorem isAbsent_of_isNothing {j : Json} (h : j.isNothing) :
    ∃ v, Value.ofFilter j = .ok v ∧ Predicate.isAbsent v = true := by
  cases j with
  | null => exact ⟨.null, rfl, rfl⟩
  | arr items =>
    cases items with
    | nil => exact ⟨.list [], rfl, rfl⟩
    | cons => cases h
  | _ => cases h

theorem scalar?_of_isScalar {j : Json} (h : j.isScalar) :
    ∃ v, Value.scalar? j = some v ∧ v.isList = false := by
  cases j with
  | arr => cases h
  | obj => cases h
  | int n =>
    refine ⟨Value.ofInt n, rfl, ?_⟩
    unfold Value.ofInt
    split <;> rfl
  | _ => exact ⟨_, rfl, rfl⟩

theorem ofFilter_scalar {j : Json} (h : j.isScalar) (hn : ¬ j.isNothing) :
    ∃ v, Value.ofFilter j = .ok v ∧ v.isList = false ∧ Predicate.isAbsent v = false := by
  obtain ⟨v, hv, hlist⟩ := scalar?_of_isScalar h
  have hof : Value.ofFilter j = .ok v := by
    cases j with
    | arr => cases h
    | obj => cases h
    | _ => simp only [Value.ofFilter, hv]
  refine ⟨v, hof, hlist, ?_⟩
  cases v with
  | null =>
    -- only null is read as null
    cases j with
    | null => exact absurd rfl hn
    | int n =>
      simp only [Value.scalar?, Value.ofInt, Option.some.injEq] at hv
      split at hv <;> cases hv
    | _ => cases hv
  | list items => cases hlist
  | _ => rfl

theorem scalars_of_isScalar {xs : List Json} (h : ∀ x ∈ xs, x.isScalar) :
    ∃ vs, Value.scalars xs = .ok vs ∧ vs.map Value.mask = List.replicate xs.length .null := by
  induction xs with
  | nil => exact ⟨[], rfl, rfl⟩
  | cons x xs ih =>
    obtain ⟨v, hv, hlist⟩ := scalar?_of_isScalar (h x List.mem_cons_self)
    obtain ⟨vs, hvs, hmask⟩ := ih fun y hy => h y (List.mem_cons_of_mem x hy)
    refine ⟨v :: vs, ?_, ?_⟩
    · simp only [Value.scalars, hv, hvs]
      rfl
    · rw [List.map_cons, hmask, Value.mask_of_not_list hlist, List.length_cons, List.replicate_succ]

theorem isAbsent_list (vs : List Value) : Predicate.isAbsent (.list vs) = (vs.length == 0) := by
  cases vs <;> rfl

/-- Values of one shape are read as absent both, or as present both with one masked form. -/
theorem ofFilter_sameShape {j j' : Json} (h : SameShape j j') :
    ∃ v v', Value.ofFilter j = .ok v ∧ Value.ofFilter j' = .ok v' ∧
      Predicate.isAbsent v = Predicate.isAbsent v' ∧ (Predicate.isAbsent v = false → v.mask = v'.mask) := by
  cases h with
  | nothing h h' =>
    obtain ⟨v, hv, ha⟩ := isAbsent_of_isNothing h
    obtain ⟨v', hv', ha'⟩ := isAbsent_of_isNothing h'
    exact ⟨v, v', hv, hv', ha.trans ha'.symm, fun hf => absurd (ha.symm.trans hf) (by decide)⟩
  | scalar h h' hn hn' =>
    obtain ⟨v, hv, hlist, ha⟩ := ofFilter_scalar h hn
    obtain ⟨v', hv', hlist', ha'⟩ := ofFilter_scalar h' hn'
    refine ⟨v, v', hv, hv', ha.trans ha'.symm, fun _ => ?_⟩
    rw [Value.mask_of_not_list hlist, Value.mask_of_not_list hlist']
  | @list xs ys hlen h h' =>
    obtain ⟨vs, hvs, hmask⟩ := scalars_of_isScalar h
    obtain ⟨ws, hws, hmask'⟩ := scalars_of_isScalar h'
    refine ⟨.list vs, .list ws, ?_, ?_, ?_, fun _ => ?_⟩
    · simp only [Value.ofFilter, hvs]; rfl
    · simp only [Value.ofFilter, hws]; rfl
    · have hvs' : vs.length = xs.length := by simpa using congrArg List.length hmask
      have hws' : ws.length = ys.length := by simpa using congrArg List.length hmask'
      rw [isAbsent_list, isAbsent_list, hvs', hws', hlen]
    · simp only [Value.mask, Value.maskAll_eq_map, hmask, hmask', hlen]

/-! ## Predicates -/

theorem checkShape_mask (field : String) (op : Operator) (v : Value) :
    Predicate.checkShape field op v.mask = Predicate.checkShape field op v := by
  cases v <;> simp [Value.mask, Predicate.checkShape]

/-- Lower-casing keeps the masked form. -/
theorem lowercase_mask (v : Value) : ∃ w, Transform.lowercase v = .ok w ∧ w.mask = v.mask := by
  cases v with
  | str s => exact ⟨.str (Text.lowercase s), rfl, rfl⟩
  | _ => exact ⟨_, rfl, rfl⟩

theorem transformAll_lowercase (field : String) (vs : List Value) :
    ∃ ws, Predicate.transformAll field .lowercase vs = .ok ws ∧ ws.map Value.mask = vs.map Value.mask := by
  induction vs with
  | nil => exact ⟨[], rfl, rfl⟩
  | cons v vs ih =>
    obtain ⟨w, hw, hmask⟩ := lowercase_mask v
    obtain ⟨ws, hws, hmasks⟩ := ih
    refine ⟨w :: ws, ?_, by rw [List.map_cons, List.map_cons, hmask, hmasks]⟩
    simp only [Predicate.transformAll, Predicate.transformScalar, hw, hws]
    rfl

theorem transformValue_lowercase (field : String) (v : Value) :
    ∃ w, Predicate.transformValue field .lowercase v = .ok w ∧ w.mask = v.mask := by
  cases v with
  | list items =>
    obtain ⟨ws, hws, hmask⟩ := transformAll_lowercase field items
    refine ⟨.list ws, ?_, by simp only [Value.mask, Value.maskAll_eq_map, hmask]⟩
    simp only [Predicate.transformValue, hws]
    rfl
  | str s => exact ⟨.str (Text.lowercase s), rfl, rfl⟩
  | _ => exact ⟨_, rfl, rfl⟩

/-- The value to compare with, of a field without a transform of its own. -/
theorem valueFor_present {f : Field} {op : Operator} {v : Value} (hf : f.transform = none)
    (hop : op.isNullCheck = false) (ha : Predicate.isAbsent v = false) :
    ∃ w, w.mask = v.mask ∧
      Predicate.valueFor f op v = (Predicate.checkShape f.name op v).map fun _ => some w := by
  cases hlc : f.lowerCased with
  | false =>
    refine ⟨v, rfl, ?_⟩
    simp only [Predicate.valueFor, hop, ha, Bool.or_self, Bool.false_eq_true, if_false, Field.transform?, hf,
      hlc, Option.none_or, ok_bind]
    cases Predicate.checkShape f.name op v <;> rfl
  | true =>
    obtain ⟨w, hw, hmask⟩ := transformValue_lowercase f.name v
    refine ⟨w, hmask, ?_⟩
    rw [← checkShape_mask f.name op v, ← hmask, checkShape_mask]
    simp only [Predicate.valueFor, hop, ha, Bool.or_self, Bool.false_eq_true, if_false, Field.transform?, hf,
      hlc, Option.none_or, if_true, hw, ok_bind]
    cases Predicate.checkShape f.name op w <;> rfl

theorem valueFor_nothing {f : Field} {op : Operator} {v : Value}
    (h : op.isNullCheck = true ∨ Predicate.isAbsent v = true) : Predicate.valueFor f op v = .ok none := by
  rw [Predicate.valueFor, if_pos (by simpa using h)]

theorem valueFor_alike {f : Field} {op : Operator} {v v' : Value} (hf : f.transform = none)
    (ha : Predicate.isAbsent v = Predicate.isAbsent v')
    (hmask : Predicate.isAbsent v = false → v.mask = v'.mask) :
    Agree (fun w w' => w.map Value.mask = w'.map Value.mask) (Predicate.valueFor f op v)
      (Predicate.valueFor f op v') := by
  by_cases hno : op.isNullCheck = true ∨ Predicate.isAbsent v = true
  · rw [valueFor_nothing hno, valueFor_nothing (ha ▸ hno)]
    exact .ok rfl
  · rw [not_or, Bool.not_eq_true, Bool.not_eq_true] at hno
    obtain ⟨w, hw, hval⟩ := valueFor_present hf hno.1 hno.2
    obtain ⟨w', hw', hval'⟩ := valueFor_present hf hno.1 (ha ▸ hno.2)
    have hvv' := hmask hno.2
    rw [hval, hval', ← checkShape_mask f.name op v, hvv', checkShape_mask]
    refine (Agree.of_eq (R := fun _ _ => True) (fun _ => trivial) rfl).map fun _ _ _ => ?_
    rw [Option.map_some, Option.map_some, hw, hw', hvv']

theorem ofField_alike {c : Catalog} {f : Field} {l l' : Leaf} (number : UInt32) (connective : Connective)
    (hl : LeafAlike c l l') (hf : c.get? l.property = some f) :
    Agree (fun p p' => p.mask = p'.mask) (Predicate.ofField number connective f l.operator l.value)
      (Predicate.ofField number connective f l'.operator l'.value) := by
  rw [← hl.operator]
  rcases hl.value with heq | ⟨hshape, hplain⟩
  · rw [heq]
    exact .of_eq (fun _ => rfl) rfl
  · obtain ⟨v, v', hv, hv', ha, hmask⟩ := ofFilter_sameShape hshape
    simp only [Predicate.ofField, hv, hv']
    refine (valueFor_alike (hplain f hf) ha hmask).bind fun w w' hw => ?_
    exact Agree.ok (by simp only [Predicate.mask, hw])

/-! ## Building -/

/-- Trees that differ only in their values, with the same next number. -/
def SameBuilt (b b' : Node × UInt32) : Prop := b.1.mask = b'.1.mask ∧ b.2 = b'.2

theorem buildLeaf_alike {c : Catalog} {ms ms' : Json.Members} (connective : Connective) (next : UInt32)
    (h : Agree (LeafAlike c) (leafOf ms) (leafOf ms')) :
    Agree SameBuilt (buildLeaf c connective ms next) (buildLeaf c connective ms' next) := by
  unfold buildLeaf
  refine h.bind fun l l' hl => ?_
  rw [← hl.property]
  cases hf : c.resolve l.property with
  | error e => exact .error e
  | ok f =>
    cases hnext : numberAfter next with
    | error e => exact .error e
    | ok next' =>
      refine (ofField_alike next connective hl (Catalog.resolve_eq_ok.1 hf).1).bind fun p p' hp => ?_
      exact Agree.ok ⟨by simp only [Node.mask, hp], rfl⟩

theorem groupOf_alike {c : Catalog} {xs ys : List Json} (connective : Connective) (next : UInt32)
    (h : ∀ next, Agree (fun b b' => Node.maskAll b.1 = Node.maskAll b'.1 ∧ b.2 = b'.2) (nodes c next xs)
      (nodes c next ys)) :
    Agree SameBuilt (groupOf c next connective xs) (groupOf c next connective ys) := by
  unfold groupOf
  cases hnext : numberAfter next with
  | error e => exact .error e
  | ok next' =>
    refine (h next').bind fun b b' hb => ?_
    exact Agree.ok ⟨by simp only [Node.mask, hb.1], hb.2⟩

mutual

theorem node_alike {c : Catalog} :
    ∀ {j j' : Json}, Alike c j j' → ∀ next, Agree SameBuilt (node c next j) (node c next j')
  | _, _, .same j, next => .of_eq (fun _ => ⟨rfl, rfl⟩) rfl
  | _, _, .array hs, next => by
    rw [node_array, node_array]
    exact groupOf_alike .and next (nodes_alike hs)
  | _, _, .group hc hxs hys hs, next => by
    rw [node_group c next hxs, node_group c next hys, hc]
    refine (Agree.of_eq (R := Eq) (fun _ => rfl) rfl).bind ?_
    rintro connective _ rfl
    exact groupOf_alike connective next (nodes_alike hs)
  | _, _, .broken hc hms hms' hj hj', next => by
    rw [node_broken c next hms hj, node_broken c next hms' hj', hc]
    exact .of_eq (fun _ => ⟨rfl, rfl⟩) rfl
  | _, _, .condition hc _ _ hms hms' h, next => by
    rw [node_condition c next hms, node_condition c next hms', hc]
    refine (Agree.of_eq (R := Eq) (fun _ => rfl) rfl).bind ?_
    rintro connective _ rfl
    exact buildLeaf_alike connective next h

theorem nodes_alike {c : Catalog} : ∀ {xs ys : List Json}, AllAlike c xs ys → ∀ next,
    Agree (fun b b' => Node.maskAll b.1 = Node.maskAll b'.1 ∧ b.2 = b'.2) (nodes c next xs) (nodes c next ys)
  | _, _, .nil, next => .of_eq (fun _ => ⟨rfl, rfl⟩) rfl
  | _, _, .cons h hs, next => by
    rw [nodes_cons, nodes_cons]
    refine (node_alike h next).bind ?_
    rintro ⟨n, m⟩ ⟨n', m'⟩ ⟨hn, hm⟩
    cases hm
    refine (nodes_alike hs m).bind ?_
    rintro ⟨ns, k⟩ ⟨ns', k'⟩ ⟨hns, hk⟩
    exact Agree.ok ⟨by simp only [Node.maskAll, hn, hns], hk⟩

end

/-- Alike specifications build trees that differ only in their values, or fail with the same error. -/
theorem build_alike {c : Catalog} {j j' : Json} (h : Alike c j j') (start : UInt32) :
    Agree (fun n n' => n.mask = n'.mask) (build c j start) (build c j' start) := by
  unfold build
  rw [h.isNone_eq]
  split
  · exact .of_eq (fun _ => rfl) rfl
  · exact (node_alike h start).map fun b b' hb => hb.1

end Spec
end Listing
