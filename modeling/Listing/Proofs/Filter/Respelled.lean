import Listing.Proofs.Filter.Walk
import Listing.Proofs.Outcome
/-!
# Spellings of a filter

A specification can say one thing in several ways: a group as a bare array or as an object with a
collection, a condition in the open or inside a `condition` object, its operator under either key, and no
filter at all as null, an empty object or an empty array. `Respelled` changes the spelling of entries at any
depth and `Rewritten` also that of the whole. Neither is noticed: a rewritten specification passes the same
checks and builds the same tree, or fails with the same error (`build_rewritten`).
-/
namespace Listing.Spec

open Json (Members)

/-! ## Respelling -/

/-- Two objects with the same members, but perhaps for those of some keys. -/
def SameBut (keys : List String) (ms ms' : Members) : Prop :=
  ∀ key, key ∉ keys → Json.member? key ms = Json.member? key ms'

/-- The connective is left out, or is a word for `and`. -/
def SaysAnd (ms : Members) : Prop :=
  Json.member? "bool_operator" ms ∈ [none, some .null, some (.str ""), some (.str "and")]

/-- The members of `ms'` are the connective of `ms` and, as `condition`, an object `inner` of the others. -/
structure Wraps (ms ms' inner : Members) : Prop where
  connective : Json.member? "bool_operator" ms' = Json.member? "bool_operator" ms
  condition : Json.member? "condition" ms' = some (.obj inner)
  alone : ∀ key, key ∉ ["bool_operator", "condition"] → Json.member? key ms' = none
  inside : SameBut ["bool_operator"] ms inner
  outside : Json.member? "bool_operator" inner = none

/-- What `ms` has as `operator`, `ms'` has as `comparison_operator`, a key that `ms` does not use. -/
structure Renames (ms ms' : Members) : Prop where
  used : Json.member? "operator" ms ≠ none
  unused : Json.member? "comparison_operator" ms = none
  moved : Json.member? "comparison_operator" ms' = Json.member? "operator" ms
  gone : Json.member? "operator" ms' = none
  others : SameBut ["operator", "comparison_operator"] ms ms'

/-- Spellings of a group's entry that differ at any places within it, but never inside a condition's
value. -/
inductive Respelled : Json → Json → Prop
  | refl (j : Json) : Respelled j j
  | symm {j j' : Json} (h : Respelled j j') : Respelled j' j
  | trans {j j' j'' : Json} (h : Respelled j j') (h' : Respelled j' j'') : Respelled j j''
  | array {front back : List Json} {j j' : Json} (h : Respelled j j') :
    Respelled (.arr (front ++ j :: back)) (.arr (front ++ j' :: back))
  | collection {ms ms' : Members} {front back : List Json} {j j' : Json}
      (hms : Json.member? "collection" ms = some (.arr (front ++ j :: back)))
      (hms' : Json.member? "collection" ms' = some (.arr (front ++ j' :: back)))
      (hothers : SameBut ["collection"] ms ms') (h : Respelled j j') : Respelled (.obj ms) (.obj ms')
  | bare {ms : Members} {items : List Json} (hms : Json.member? "collection" ms = some (.arr items))
      (hand : SaysAnd ms) : Respelled (.arr items) (.obj ms)
  | wrapped {ms ms' inner : Members} (hne : ms ≠ []) (hms : Json.member? "collection" ms = none)
      (hcond : Json.member? "condition" ms = none) (h : Wraps ms ms' inner) :
    Respelled (.obj ms) (.obj ms')
  | renamed {ms ms' : Members} (hms : Json.member? "collection" ms = none) (h : Renames ms ms') :
    Respelled (.obj ms) (.obj ms')
  | renamedInside {ms ms' inner inner' : Members} (hms : Json.member? "collection" ms = none)
      (hcond : Json.member? "condition" ms = some (.obj inner))
      (hcond' : Json.member? "condition" ms' = some (.obj inner'))
      (hothers : SameBut ["condition"] ms ms') (h : Renames inner inner') : Respelled (.obj ms) (.obj ms')

/-- Spellings of a whole specification, where null and the empty object also stand for no filter. -/
inductive Rewritten : Json → Json → Prop
  | within {j j' : Json} (h : Respelled j j') : Rewritten j j'
  | null : Rewritten .null (.arr [])
  | empty : Rewritten (.obj []) (.arr [])
  | symm {j j' : Json} (h : Rewritten j j') : Rewritten j' j
  | trans {j j' j'' : Json} (h : Rewritten j j') (h' : Rewritten j' j'') : Rewritten j j''

/-! ## Objects -/

theorem member?_cons_of_ne {key k : String} {j : Json} {ms : Members} (h : key ≠ k) :
    Json.member? key ((k, j) :: ms) = Json.member? key ms := by
  simp only [Json.member?, List.lookup_cons, beq_eq_false_iff_ne.2 h]

theorem sameBut_head {keys : List String} {k k' : String} (hk : k ∈ keys) (hk' : k' ∈ keys) (j j' : Json)
    (ms : Members) : SameBut keys ((k, j) :: ms) ((k', j') :: ms) := by
  intro key hkey
  rw [member?_cons_of_ne (ne_of_mem_of_not_mem hk hkey).symm,
    member?_cons_of_ne (ne_of_mem_of_not_mem hk' hkey).symm]

theorem SameBut.cons {keys : List String} {ms ms' : Members} (h : SameBut keys ms ms') (m : String × Json) :
    SameBut keys (m :: ms) (m :: ms') := by
  obtain ⟨k, j⟩ := m
  intro key hkey
  have hrest := h key hkey
  simp only [Json.member?, List.lookup_cons] at hrest ⊢
  rw [hrest]

theorem wraps_head {connective : Json} {ms : Members} (h : Json.member? "bool_operator" ms = none) :
    Wraps (("bool_operator", connective) :: ms) [("bool_operator", connective), ("condition", .obj ms)] ms where
  connective := rfl
  condition := rfl
  alone key hkey := by
    simp only [List.mem_cons, List.not_mem_nil, or_false, not_or] at hkey
    rw [member?_cons_of_ne hkey.1, member?_cons_of_ne hkey.2]
    rfl
  inside key hkey := member?_cons_of_ne fun hk => hkey (by simp [hk])
  outside := h

theorem renames_head {word : Json} {ms : Members} (hop : Json.member? "operator" ms = none)
    (hcomp : Json.member? "comparison_operator" ms = none) :
    Renames (("operator", word) :: ms) (("comparison_operator", word) :: ms) where
  used := Option.some_ne_none word
  unused := (member?_cons_of_ne (by decide)).trans hcomp
  moved := rfl
  gone := (member?_cons_of_ne (by decide)).trans hop
  others := sameBut_head (by decide) (by decide) word word ms

theorem connectiveOf_saysAnd {ms : Members} (h : SaysAnd ms) : connectiveOf ms = .ok .and := by
  simp only [SaysAnd, List.mem_cons, List.not_mem_nil, or_false] at h
  unfold connectiveOf
  rcases h with h | h | h | h <;> rw [h] <;> rfl

theorem connectiveOf_congr {keys : List String} {ms ms' : Members} (h : SameBut keys ms ms')
    (hkeys : "bool_operator" ∉ keys) : connectiveOf ms = connectiveOf ms' := by
  unfold connectiveOf
  rw [h "bool_operator" hkeys]

theorem ne_nil_of_member? {ms : Members} {key : String} (h : Json.member? key ms ≠ none) : ms ≠ [] := by
  rintro rfl
  exact h rfl

theorem Renames.ne_nil {ms ms' : Members} (h : Renames ms ms') : ms ≠ [] ∧ ms' ≠ [] :=
  ⟨ne_nil_of_member? h.used, ne_nil_of_member? (h.moved ▸ h.used)⟩

theorem Renames.operatorWord? {ms ms' : Members} (h : Renames ms ms') :
    operatorWord? ms = operatorWord? ms' := by
  unfold Spec.operatorWord?
  rw [h.unused, h.moved, h.gone, Option.or_none, Option.none_or]

/-! ## Conditions -/

theorem conditionOf_open {ms : Members} (h : Json.member? "condition" ms = none) :
    conditionOf ms = .ok ms := by
  rw [conditionOf, h]

theorem conditionOf_inside {ms inner : Members} (h : Json.member? "condition" ms = some (.obj inner)) :
    conditionOf ms = .ok inner := by
  rw [conditionOf, h]

/-- Objects describe the same condition if the objects that hold their conditions do. -/
theorem leafOf_congr {ms ms' inner inner' : Members} (h : conditionOf ms = .ok inner)
    (h' : conditionOf ms' = .ok inner')
    (hproperty : Json.member? "property" inner = Json.member? "property" inner')
    (hword : operatorWord? inner = operatorWord? inner')
    (hvalue : Json.member? "value" inner = Json.member? "value" inner') : leafOf ms = leafOf ms' := by
  simp only [leafOf, h, h', ok_bind, hproperty, hword, hvalue]

theorem Wraps.leafOf {ms ms' inner : Members} (hcond : Json.member? "condition" ms = none)
    (h : Wraps ms ms' inner) : leafOf ms = leafOf ms' := by
  have hword : operatorWord? ms = operatorWord? inner := by
    unfold operatorWord?
    rw [h.inside "operator" (by decide), h.inside "comparison_operator" (by decide)]
  exact leafOf_congr (conditionOf_open hcond) (conditionOf_inside h.condition)
    (h.inside "property" (by decide)) hword (h.inside "value" (by decide))

theorem Renames.leafOf_inside {ms ms' inner inner' : Members} (hms : conditionOf ms = .ok inner)
    (hms' : conditionOf ms' = .ok inner') (h : Renames inner inner') : leafOf ms = leafOf ms' :=
  leafOf_congr hms hms' (h.others "property" (by decide)) h.operatorWord? (h.others "value" (by decide))

theorem Renames.leafOf {ms ms' : Members} (h : Renames ms ms') : leafOf ms = leafOf ms' := by
  have hcond := h.others "condition" (by decide)
  cases hms : Json.member? "condition" ms with
  | none => exact h.leafOf_inside (conditionOf_open hms) (conditionOf_open (hcond.symm.trans hms))
  | some j =>
    -- the condition stands inside, where nothing is renamed
    have hsame : conditionOf ms = conditionOf ms' := by
      rw [conditionOf, conditionOf, ← hcond, hms]
      cases j <;> rfl
    unfold Spec.leafOf
    rw [hsame]

/-! ## Entries -/

/-- Two entries that neither checking nor building tells apart. -/
structure Indistinct (j j' : Json) : Prop where
  entry : isEntry j = isEntry j'
  stray : isEntry j = false → j = j'
  blank : isNone j = isNone j'
  checked : ∀ c, validate c j = validate c j'
  built : ∀ c next, node c next j = node c next j'

namespace Indistinct

variable {j j' j'' : Json}

theorem refl (j : Json) : Indistinct j j := ⟨rfl, fun _ => rfl, rfl, fun _ => rfl, fun _ _ => rfl⟩

theorem symm (h : Indistinct j j') : Indistinct j' j where
  entry := h.entry.symm
  stray hj' := (h.stray (h.entry.trans hj')).symm
  blank := h.blank.symm
  checked c := (h.checked c).symm
  built c next := (h.built c next).symm

theorem trans (h : Indistinct j j') (h' : Indistinct j' j'') : Indistinct j j'' where
  entry := h.entry.trans h'.entry
  stray hj := (h.stray hj).trans (h'.stray (h.entry ▸ hj))
  blank := h.blank.trans h'.blank
  checked c := (h.checked c).trans (h'.checked c)
  built c next := (h.built c next).trans (h'.built c next)

theorem validateItems (h : Indistinct j j') (c : Catalog) (front back : List Json) :
    validateItems c (front ++ j :: back) = validateItems c (front ++ j' :: back) := by
  induction front with
  | nil =>
    simp only [List.nil_append]
    cases hj : isEntry j with
    | true => rw [validateItems_cons c hj, validateItems_cons c (h.entry ▸ hj), h.checked c]
    | false => rw [h.stray hj]
  | cons x front ih =>
    simp only [List.cons_append]
    cases hx : isEntry x with
    | true => rw [validateItems_cons c hx, validateItems_cons c hx, ih]
    | false => rw [validateItems_stray c hx, validateItems_stray c hx]

theorem nodes (h : Indistinct j j') (c : Catalog) (next : UInt32) (front back : List Json) :
    nodes c next (front ++ j :: back) = nodes c next (front ++ j' :: back) := by
  induction front generalizing next with
  | nil => rw [List.nil_append, List.nil_append, nodes_cons, nodes_cons, h.built c next]
  | cons x front ih => simp only [List.cons_append, nodes_cons, ih]

theorem groupOf (h : Indistinct j j') (c : Catalog) (next : UInt32) (connective : Connective)
    (front back : List Json) :
    groupOf c next connective (front ++ j :: back) = groupOf c next connective (front ++ j' :: back) := by
  simp only [Spec.groupOf, h.nodes c]

theorem array (h : Indistinct j j') (front back : List Json) :
    Indistinct (.arr (front ++ j :: back)) (.arr (front ++ j' :: back)) where
  entry := rfl
  stray hj := nomatch hj
  blank := rfl
  checked c := by rw [validate_array, validate_array, h.validateItems c]
  built c next := by rw [node_array, node_array, h.groupOf c]

theorem collection {ms ms' : Members} {front back : List Json}
    (hms : Json.member? "collection" ms = some (.arr (front ++ j :: back)))
    (hms' : Json.member? "collection" ms' = some (.arr (front ++ j' :: back)))
    (hothers : SameBut ["collection"] ms ms') (h : Indistinct j j') : Indistinct (.obj ms) (.obj ms') where
  entry := rfl
  stray hj := nomatch hj
  blank := (isEmpty_eq_false_of_member hms).trans (isEmpty_eq_false_of_member hms').symm
  checked c := by rw [validate_group c hms, validate_group c hms', h.validateItems c]
  built c next := by
    rw [node_group c next hms, node_group c next hms', connectiveOf_congr hothers (by decide)]
    simp only [h.groupOf c]

theorem bare {ms : Members} {items : List Json} (hms : Json.member? "collection" ms = some (.arr items))
    (hand : SaysAnd ms) : Indistinct (.arr items) (.obj ms) where
  entry := rfl
  stray hj := nomatch hj
  blank := (isEmpty_eq_false_of_member hms).symm
  checked c := by rw [validate_array, validate_group c hms]
  built c next := by rw [node_array, node_group c next hms, connectiveOf_saysAnd hand, ok_bind]

/-- Objects with the same connective and the same condition. -/
theorem condition {ms ms' : Members} (hne : ms ≠ []) (hne' : ms' ≠ [])
    (hms : Json.member? "collection" ms = none) (hms' : Json.member? "collection" ms' = none)
    (hconnective : connectiveOf ms = connectiveOf ms') (hleaf : leafOf ms = leafOf ms') :
    Indistinct (.obj ms) (.obj ms') where
  entry := rfl
  stray hj := nomatch hj
  blank := (List.isEmpty_eq_false_iff.2 hne).trans (List.isEmpty_eq_false_iff.2 hne').symm
  checked c := by rw [validate_condition c hne hms, validate_condition c hne' hms', hleaf]
  built c next := by
    simp only [node_condition c next hms, node_condition c next hms', hconnective, buildLeaf, hleaf]

end Indistinct

theorem Respelled.indistinct {j j' : Json} (h : Respelled j j') : Indistinct j j' := by
  induction h with
  | refl j => exact .refl j
  | symm _ ih => exact ih.symm
  | trans _ _ ih ih' => exact ih.trans ih'
  | array _ ih => exact ih.array _ _
  | collection hms hms' hothers _ ih => exact ih.collection hms hms' hothers
  | bare hms hand => exact .bare hms hand
  | wrapped hne hms hcond h =>
    have hne' := ne_nil_of_member? (h.condition ▸ Option.some_ne_none _)
    refine .condition hne hne' hms (h.alone "collection" (by decide)) ?_ (h.leafOf hcond)
    unfold connectiveOf
    rw [h.connective]
  | renamed hms h =>
    have hms' := (h.others "collection" (by decide)).symm.trans hms
    exact .condition h.ne_nil.1 h.ne_nil.2 hms hms' (connectiveOf_congr h.others (by decide)) h.leafOf
  | renamedInside hms hcond hcond' hothers h =>
    have hne := ne_nil_of_member? (hcond ▸ Option.some_ne_none _)
    have hne' := ne_nil_of_member? (hcond' ▸ Option.some_ne_none _)
    have hms' := (hothers "collection" (by decide)).symm.trans hms
    have hleaf := h.leafOf_inside (conditionOf_inside hcond) (conditionOf_inside hcond')
    exact .condition hne hne' hms hms' (connectiveOf_congr hothers (by decide)) hleaf

/-- An empty array is built into the same group as no filter at all. -/
theorem node_empty (c : Catalog) (start : UInt32) :
    (node c start (.arr [])).map Prod.fst = (numberAfter start).map fun _ => .group start .and [] := by
  rw [node_array, groupOf]
  cases numberAfter start with
  | error e => rfl
  | ok next => rw [ok_bind, nodes_nil]; rfl

theorem build_blank {j : Json} (h : isNone j = true) (c : Catalog) (start : UInt32) :
    build c j start = build c (.arr []) start := by
  rw [build, build, if_pos h, if_neg (by decide), node_empty]

/-- However a specification is spelled, it builds the same tree and passes the same checks, or fails with
the same error. -/
theorem build_rewritten {j j' : Json} (h : Rewritten j j') (c : Catalog) (start : UInt32) :
    build c j start = build c j' start ∧ validate c j = validate c j' := by
  induction h with
  | within h =>
    have h := h.indistinct
    exact ⟨by rw [build, build, h.blank, h.built c], h.checked c⟩
  | null => exact ⟨build_blank rfl c start, by rw [validate_null, validate_array, validateItems_nil]⟩
  | empty => exact ⟨build_blank rfl c start, by rw [validate_empty, validate_array, validateItems_nil]⟩
  | symm _ ih => exact ⟨ih.1.symm, ih.2.symm⟩
  | trans _ _ ih ih' => exact ⟨ih.1.trans ih'.1, ih.2.trans ih'.2⟩

/-- A condition on the age, its operator under a key. -/
def youngerThan (key : String) : Members :=
  [(key, .str "less_than"), ("property", .str "age"), ("value", .int 9)]

/-- A group behind `or` with one entry. -/
def orGroup (entry : Members) : Json := .obj [("bool_operator", .str "or"), ("collection", .arr [.obj entry])]

/-- A filter in the shortest spelling. -/
def children : Json := .arr [orGroup (("bool_operator", .str "and") :: youngerThan "operator")]

/-- The same with everything written out. -/
def childrenWrittenOut : Json :=
  .obj [("bool_operator", .null), ("collection", .arr [orGroup
    [("bool_operator", .str "and"), ("condition", .obj (youngerThan "comparison_operator"))]])]

theorem build_rewritten_children :
    Rewritten children childrenWrittenOut ∧
      build (.ofColumns [⟨"age", "p.age"⟩]) children 7 =
        build (.ofColumns [⟨"age", "p.age"⟩]) childrenWrittenOut 7 ∧
      validate (.ofColumns [⟨"age", "p.age"⟩]) children =
        validate (.ofColumns [⟨"age", "p.age"⟩]) childrenWrittenOut := by
  have hleaf : Respelled (.obj (("bool_operator", .str "and") :: youngerThan "operator"))
      (.obj [("bool_operator", .str "and"), ("condition", .obj (youngerThan "comparison_operator"))]) :=
    .trans (.wrapped (List.cons_ne_nil _ _) rfl rfl (wraps_head rfl))
      (.renamedInside rfl rfl rfl ((sameBut_head (by decide) (by decide) _ _ []).cons _)
        (renames_head rfl rfl))
  have hgroup : Respelled (orGroup (("bool_operator", .str "and") :: youngerThan "operator"))
      (orGroup [("bool_operator", .str "and"), ("condition", .obj (youngerThan "comparison_operator"))]) :=
    @Respelled.collection _ _ [] [] _ _ rfl rfl ((sameBut_head (by decide) (by decide) _ _ []).cons _) hleaf
  have hwhole : Rewritten children childrenWrittenOut :=
    .within (.trans (@Respelled.array [] [] _ _ hgroup) (.bare rfl (by simp [SaysAnd, Json.member?])))
  exact ⟨hwhole, build_rewritten hwhole _ 7⟩

end Listing.Spec
