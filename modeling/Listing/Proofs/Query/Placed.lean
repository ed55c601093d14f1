import Mathlib
import Listing.Proofs.Catalog.Derived
import Listing.Proofs.Filter.Numbers
import Listing.Proofs.Query.Guarded
import Listing.Proofs.Statement.Shown
/-!
# Values in their places

Names of parameters are made from the names of fields, and a scanner finds them again in the whole statement,
next to the definition's texts and to names in quotes. If those texts are `Bindable`, each leaf of a filter has
its own values bound where its comparison stands, in the query it stands in (`prepare_placed`).
-/
open Listing.Bound (Inert)
open Listing.Node (Leaf)

namespace Listing

namespace ListQuery

/-- What binding asks of a list. Its catalog comes from its skeleton, its raw texts leave quotes closed and have
no colon outside quotes but in pairs, its conditions are written as they stand or in lower case, and its
transforms keep scalars. Nothing is asked of names. -/
structure Bindable (q : ListQuery) : Prop where
  derived : q.catalog.Derived q.skeleton q.platform
  columns : ∀ columns, q.skeleton.columns = .ok columns → ∀ c ∈ columns, Inert c.expression.toList
  joins : ∀ j ∈ q.skeleton.joins, Inert j.on.toList
  conditions : ∀ c ∈ q.skeleton.conditions, Inert c.toList
  groups : ∀ g ∈ q.skeleton.groupBy, Inert g.toList
  expressions : ∀ name f, q.catalog.get? name = some f → Inert f.expression.toList
  renderers : ∀ name f, q.catalog.get? name = some f → f.PlainOrLower
  transforms : ∀ name f, q.catalog.get? name = some f → f.KeepsScalars

variable {q : ListQuery}

/-! ## Predicates -/

theorem Bindable.inert_sortExpression (hq : q.Bindable) {name : String} {f : Field}
    (hf : q.catalog.get? name = some f) (wrapped : Bool) : Inert (f.sortExpression wrapped).toList := by
  have hopening : Inert "lower(".toList := Bound.inert_of_all (by decide)
  have hclosing : Inert ")".toList := Bound.inert_of_all (by decide)
  have hexpression : Inert (if wrapped then f.outputName else f.expression).toList := by
    split
    · rw [Catalog.outputName_of_derived hq.derived hf]
      exact Bound.inert_quote _ _
    · exact hq.expressions name f hf
  simp only [Field.sortExpression]
  split
  · exact Bound.inert_append (Bound.inert_append hopening hexpression) hclosing
  · exact hexpression

/-- Every predicate of a filter that says something can be placed. -/
theorem Bindable.placeable (hq : q.Bindable) {filters : Json} {count : Nat} {filter : Node}
    (hcheck : Spec.validate q.catalog filters = .ok count) (hbuild : Spec.build q.catalog filters = .ok filter) :
    (∀ p ∈ filter.predicates, p.Takes) ∧ ∀ scope, ∀ p ∈ filter.predicates, p.contributes scope = true →
      p.Placeable filter.parameters scope := by
  have hmatched := Spec.matched_build (Catalog.indexed_of_reachable hq.derived.reachable) hcheck hbuild
  have htakes : ∀ p ∈ filter.predicates, p.Takes ∧ ∃ f, p.OnField f := by
    intro p hp
    obtain ⟨f, hf⟩ := hmatched.exists_allowed hp
    obtain ⟨raw, hraw⟩ := hf.built
    exact ⟨Predicate.takes_of_ofField (hq.transforms f.name f hf.field) hraw, f, Predicate.onField_of_ofField hraw⟩
  refine ⟨fun p hp => (htakes p hp).1, fun scope p hp hspeaks => ?_⟩
  obtain ⟨f, hf⟩ := hmatched.exists_allowed hp
  have hfield := Predicate.onField_of_allowed hf
  have hexpression : Inert (p.expression scope).toList := by
    cases scope with
    | inner =>
      rw [Predicate.expression, hfield.inner]
      exact hq.expressions f.name f hf.field
    | outer =>
      rw [Predicate.expression, hfield.outer, Catalog.outputName_of_derived hq.derived hf.field]
      exact Bound.inert_quote _ _
  exact ⟨hspeaks, ⟨f, hfield⟩, (htakes p hp).1, hfield.plainOrLower (hq.renderers f.name f hf.field), hexpression,
    fun e he => Node.get?_parameters (Spec.pairwise_build hbuild) (fun p hp => (htakes p hp).2) hp he⟩

end ListQuery

/-! ## Conditions -/

namespace Node

/-- The leaves whose comparisons stand in a list's statement, in order: those that say something in the list's
own query and, if there is one around it, those that say something there. -/
def places (filter : Node) : List (Scope × Leaf) :=
  (filter.contributing .inner).map (.inner, ·) ++
    if filter.aggregated then (filter.contributing .outer).map (.outer, ·) else []

/-- Conditions without leaves and that of a filter show the filter's leaves. -/
theorem shows_conditions {p : Platform} {bag : Bag} {scope : Scope} {filter : Node}
    (h : ∀ p ∈ filter.predicates, p.contributes scope = true → p.Placeable bag scope) {conditions : List String}
    (hconditions : ∀ c ∈ conditions, Inert c.toList) :
    ∃ lss, List.Forall₂ (Shows p bag) (conditions ++ (filter.condition scope).toList) lss ∧
      lss.flatten = (filter.contributing scope).map (scope, ·) := by
  induction conditions with
  | nil =>
    cases htext : filter.condition scope with
    | none =>
      have hsilent : filter.contributing scope = [] := by
        have hlegible : filter.Legible scope := fun p hp hspeaks => (h p hp hspeaks).renderer.legible scope
        rw [condition_eq_spell scope filter [] hlegible, Option.map_eq_none_iff] at htext
        rw [contributing, ← atoms_tokensAt scope [] filter, htext]
        rfl
      exact ⟨[], .nil, by rw [hsilent]; rfl⟩
    | some text =>
      have hshows := shows_condition (q := p) h htext
      exact ⟨_, .cons hshows .nil, by simp⟩
  | cons c conditions ih =>
    rw [List.forall_mem_cons] at hconditions
    obtain ⟨lss, hshows, hflatten⟩ := ih hconditions.2
    exact ⟨[] :: lss, .cons (shows_inert hconditions.1) hshows, hflatten⟩

end Node

namespace ListQuery

/-- The filtered statement shows the filter's leaves, query by query. -/
theorem Bindable.shows_filtered {q : ListQuery} (hq : q.Bindable) {bag : Bag} {base : Statement}
    (hbase : q.skeleton.statement = .ok base) {filter : Node}
    (h : ∀ scope, ∀ p ∈ filter.predicates, p.contributes scope = true → p.Placeable bag scope) :
    Shows q.platform bag ((filtered base filter).sql q.platform) filter.places := by
  obtain ⟨columns, hcolumns, hstatement⟩ := filtered_eq hbase filter
  obtain ⟨lss, hconditions, hinner⟩ := Node.shows_conditions (p := q.platform) (h .inner) hq.conditions
  have hown := Statement.shows_base (hq.columns columns hcolumns) q.skeleton.table q.skeleton.tableAlias hq.joins
    hconditions hq.groups
  rw [hinner] at hown
  rw [hstatement, Node.places]
  split
  · obtain ⟨lss', hconditions', houter⟩ := Node.shows_conditions (p := q.platform) (h .outer)
      (List.forall_mem_nil fun c : String => Inert c.toList)
    rw [← houter]
    exact Statement.shows_around hown hconditions'
  · rw [List.append_nil]
    exact hown

end ListQuery

/-- Every statement of a prepared query has the values of a filter's leaves in their places. -/
structure Prepared.Places (p : Prepared) (filter : Node) : Prop where
  page : ∀ page size b, p.page page size = .ok b → ∃ actual, p.limits.sizeFor page size = .ok actual ∧
    b.Places p.platform
      (p.statement.pageSql p.platform p.order (pageLimit actual) ((page.toNat - 1) * actual.toNat)) filter.places
  count : p.count.Places p.platform (p.statement.count.sql p.platform) filter.places

namespace ListQuery

/-- Each leaf's values are bound where the leaf stands, in pages and in the count. -/
theorem prepare_placed (q : ListQuery) (hq : q.Bindable) {filters : Json} {sort : List SortBy} {p : Prepared}
    (hp : q.prepare filters sort = .ok p) :
    ∃ filter, MadeFrom q filters p filter ∧ p.platform = q.platform ∧ (∀ pr ∈ filter.predicates, pr.Takes) ∧
      p.Places filter := by
  obtain ⟨count, hcheck, hp⟩ := bind_eq_ok.1 hp
  obtain ⟨filter, hbuild, hp⟩ := bind_eq_ok.1 hp
  obtain ⟨base, hbase, hp⟩ := bind_eq_ok.1 hp
  obtain ⟨order, horder, hp⟩ := bind_eq_ok.1 hp
  cases hp
  obtain ⟨htakes, hplaceable⟩ := hq.placeable hcheck hbuild
  have hshows := hq.shows_filtered hbase hplaceable
  have hkeys : ∀ key ∈ order, Inert key.expression.toList := by
    intro key hkey
    obtain ⟨s, _, f, hf, _, hexpression⟩ := exists_field_of_mem_sortKeys horder hkey
    rw [hexpression]
    exact hq.inert_sortExpression hf _
  refine ⟨filter, ⟨hbuild, ⟨base, hbase, rfl⟩, rfl, rfl⟩, rfl, htakes, ⟨fun page size b hb => ?_, ?_⟩⟩
  · obtain ⟨actual, hactual, hb⟩ := bind_eq_ok.1 hb
    obtain ⟨offset, hoffset, hb⟩ := bind_eq_ok.1 hb
    obtain rfl := Except.ok.inj hb
    obtain ⟨-, rfl, -⟩ := pageOffset_eq_ok.1 hoffset
    exact ⟨actual, hactual, (Statement.shows_pageSql hshows hkeys _ _).places_bind⟩
  · exact (Statement.shows_count hshows).places_bind

/-- The districts of a town with the number of their streets; the name of one column looks like a parameter. -/
def districts : Definition :=
  { skeleton :=
      { select := ["d.name AS d:streets_2", "count(*) AS streets"], table := "d:s"
        tableAlias := some "d"
        joins := [{ table := "street", tableAlias := some "s", on := "s.district::int = d.id" }]
        conditions := ["d.note <> ':streets_2'"], groupBy := ["d.name"] }
    fields := [("streets", { aggregated := true })] }

/-- Districts of two names with a number of streets between two. -/
def namesAndStreets : Json :=
  .arr [
    .obj [("property", .str "d:streets_2"), ("operator", .str "in"), ("value", .arr [.str "a", .str ":streets_2"])],
    .obj [("property", .str "streets"), ("operator", .str "between"), ("value", .arr [.int 2, .int 10])]]

theorem all_fields_districts :
    ((ofDefinition districts .postgres).toOption.map fun q : ListQuery =>
      q.catalog.fields.all fun f => f.expression == "d.name" || f.expression == "count(*)") = some true ∧
    ((ofDefinition districts .postgres).toOption.map fun q : ListQuery =>
      q.catalog.fields.all fun f => f.renderer.isNone) = some true ∧
    ((ofDefinition districts .postgres).toOption.map fun q : ListQuery =>
      q.catalog.fields.all fun f => f.transform.isNone) = some true :=
  ⟨by cbv, by cbv, by cbv⟩

theorem bindable_districts {q : ListQuery} (hq : ofDefinition districts .postgres = .ok q) : q.Bindable := by
  obtain ⟨hexpressions, hrenderers, htransforms⟩ := all_fields_districts
  simp only [hq, Except.toOption, Option.map_some, Option.some.injEq, List.all_eq_true]
    at hexpressions hrenderers htransforms
  have hinert : ∀ s : String, (s == "d.name" || s == "count(*)") = true → Inert s.toList := by
    intro s hs
    simp only [Bool.or_eq_true, beq_iff_eq] at hs
    rcases hs with rfl | rfl <;> exact Bound.inert_of_all (by decide)
  obtain ⟨hskeleton, hderived⟩ := derived_ofDefinition hq
  refine ⟨hderived, fun columns hcolumns c hc => ?_, fun j hj => ?_, fun c hc => ?_, fun g hg => ?_,
    fun name f hf => ?_, fun name f hf => ?_, fun name f hf t ht => ?_⟩
  · have hall : (districts.skeleton.columns.toOption.map fun columns =>
        columns.all fun c => c.expression == "d.name" || c.expression == "count(*)") = some true := by cbv
    rw [← hskeleton, hcolumns] at hall
    simp only [Except.toOption, Option.map_some, Option.some.injEq, List.all_eq_true] at hall
    exact hinert _ (hall c hc)
  · rw [hskeleton] at hj
    obtain rfl := List.mem_singleton.mp hj
    have htext : "s.district::int = d.id".toList = "s.district".toList ++ ':' :: ':' :: "int = d.id".toList := by
      decide
    rw [htext]
    exact (Bound.inert_of_all (by decide)).append (.colons (Bound.inert_of_all (by decide)))
  · rw [hskeleton] at hc
    obtain rfl := List.mem_singleton.mp hc
    have htext : "d.note <> ':streets_2'".toList =
        "d.note <> ".toList ++ ('\x27' :: ":streets_2".toList ++ '\x27' :: []) := by decide
    rw [htext]
    exact (Bound.inert_of_all (by decide)).append (.quoted rfl (by decide) .nil)
  · rw [hskeleton] at hg
    obtain rfl := List.mem_singleton.mp hg
    exact hinert _ (by decide)
  · exact hinert _ (hexpressions f (Catalog.mem_fields_of_get? hf))
  · exact .inl (Option.isNone_iff_eq_none.mp (hrenderers f (Catalog.mem_fields_of_get? hf)))
  · rw [Option.isNone_iff_eq_none.mp (htransforms f (Catalog.mem_fields_of_get? hf))] at ht
    cases ht

theorem isOk_prepare_districts :
    ((ofDefinition districts .postgres).toOption.map fun q : ListQuery =>
      (q.prepare namesAndStreets [⟨"streets", none⟩]).isOk) = some true := by cbv

theorem prepare_placed_districts :
    ∃ q p, ofDefinition districts .postgres = .ok q ∧ q.Bindable ∧
      q.prepare namesAndStreets [⟨"streets", none⟩] = .ok p ∧
      ∃ filter, MadeFrom q namesAndStreets p filter ∧ p.platform = q.platform ∧
        (∀ pr ∈ filter.predicates, pr.Takes) ∧ p.Places filter := by
  have hprepared := isOk_prepare_districts
  cases hq : ofDefinition districts .postgres with
  | error e =>
    rw [hq] at hprepared
    cases hprepared
  | ok q =>
    simp only [hq, Except.toOption, Option.map_some, Option.some.injEq] at hprepared
    have hbindable := bindable_districts hq
    cases hp : q.prepare namesAndStreets [⟨"streets", none⟩] with
    | error e =>
      rw [hp] at hprepared
      cases hprepared
    | ok p => exact ⟨q, p, rfl, hbindable, hp, prepare_placed q hbindable hp⟩

end ListQuery
end Listing
