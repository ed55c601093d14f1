import Mathlib
import Listing.Proofs.Filter.Traced
import Listing.Query
/-!
# What a prepared query may use

Checking a filter and building it are two walks over the same specification, and only the first looks at
the operators that fields allow. A query is prepared if both succeed. Everything in it was then looked
up: the conditions were checked one by one before they were built, and the order names sortable fields
(`prepare_allowed`).
-/
namespace Listing

namespace Spec

/-- What is built for a whole specification was looked up, also where the specification is none. -/
theorem matched_build {c : Catalog} (hc : c.Indexed) {filters : Json} {count : Nat} {start : UInt32} {n : Node}
    (hcheck : validate c filters = .ok count) (hbuild : build c filters start = .ok n) :
    Matched c (traced c filters).calls count n.predicates := by
  rw [← (result_traced c).1] at hcheck
  unfold build at hbuild
  split at hbuild
  · next hnone =>
    obtain ⟨_, _, hn⟩ := map_eq_ok.1 hbuild
    rw [← hn]
    have hempty : traced c filters = pure 0 := by
      cases filters with
      | null => rw [traced]
      | obj ms =>
        have hms : ms.isEmpty = true := hnone
        rw [traced, if_pos hms]
      | _ => cases hnone
    rw [hempty] at hcheck ⊢
    cases hcheck
    exact matched_nil c
  · obtain ⟨⟨n', next'⟩, hnode, hn⟩ := map_eq_ok.1 hbuild
    rw [← hn]
    exact (matched_node hc).1 filters start n' next' hnode count hcheck

end Spec

namespace ListQuery

/-! ## Order -/

theorem keyOf_eq_ok {c : Catalog} {wrapped : Bool} {s : SortBy} {key : SortKey}
    (h : keyOf c wrapped s = .ok key) :
    ∃ f, c.get? s.field = some f ∧ f.sortable = true ∧ key.expression = f.sortExpression wrapped := by
  obtain ⟨f, hf, h⟩ := bind_eq_ok.1 h
  obtain ⟨direction, _, h⟩ := bind_eq_ok.1 h
  cases h
  obtain ⟨hget, hsortable⟩ := Catalog.sortField_eq_ok.1 hf
  exact ⟨f, hget, hsortable, rfl⟩

/-- An expression in the order was there before or is that of a sort. -/
theorem mem_keysFrom {c : Catalog} {wrapped : Bool} {sort : List SortBy} {keys order : List SortKey}
    (h : keysFrom c wrapped keys sort = .ok order) {e : String} (he : e ∈ order.map SortKey.expression) :
    e ∈ keys.map SortKey.expression ∨ ∃ s ∈ sort, ∃ key, keyOf c wrapped s = .ok key ∧ key.expression = e := by
  induction sort generalizing keys with
  | nil =>
    cases h
    exact .inl he
  | cons s rest ih =>
    obtain ⟨key, hkey, h⟩ := bind_eq_ok.1 h
    rcases ih h with hmem | ⟨t, ht, key', hkey', hexpression⟩
    · rw [map_expression_addKey] at hmem
      split at hmem
      · exact .inl hmem
      · rcases List.mem_append.1 hmem with hmem | hmem
        · exact .inl hmem
        · exact .inr ⟨s, List.mem_cons_self, key, hkey, (List.mem_singleton.1 hmem).symm⟩
    · exact .inr ⟨t, List.mem_cons_of_mem s ht, key', hkey', hexpression⟩

/-- A sort list is in the order of fields that were asked for and may be sorted by. -/
theorem exists_field_of_mem_sortKeys {c : Catalog} {wrapped : Bool} {sort : List SortBy} {order : List SortKey}
    (h : sortKeys c wrapped sort = .ok order) {key : SortKey} (hkey : key ∈ order) :
    ∃ s ∈ sort, ∃ f, c.get? s.field = some f ∧ f.sortable = true ∧ key.expression = f.sortExpression wrapped := by
  have hexpression : key.expression ∈ order.map SortKey.expression := List.mem_map.2 ⟨key, hkey, rfl⟩
  rcases mem_keysFrom h hexpression with hmem | ⟨s, hs, key', hkey', hsame⟩
  · cases hmem
  · obtain ⟨f, hf, hsortable, hkeyexpression⟩ := keyOf_eq_ok hkey'
    exact ⟨s, hs, f, hf, hsortable, by rw [← hsame, hkeyexpression]⟩

/-! ## Preparing -/

/-- The prepared query puts the filter that the specification describes on the list's statement. -/
structure MadeFrom (q : ListQuery) (filters : Json) (p : Prepared) (filter : Node) : Prop where
  build : Spec.build q.catalog filters = .ok filter
  statement : ∃ base, q.skeleton.statement = .ok base ∧ p.statement = filtered base filter
  parameters : p.parameters = filter.parameters
  aggregated : p.aggregated = filter.aggregated

theorem prepare_of_parts {q : ListQuery} {filters : Json} {sort : List SortBy} {count : Nat} {filter : Node}
    {base : Statement} {order : List SortKey} (hcheck : Spec.validate q.catalog filters = .ok count)
    (hbuild : Spec.build q.catalog filters = .ok filter) (hbase : q.skeleton.statement = .ok base)
    (horder : sortKeys q.catalog filter.aggregated sort = .ok order) :
    q.prepare filters sort = .ok
      { statement := filtered base filter, parameters := filter.parameters, order, platform := q.platform
        limits := q.limits, aggregated := filter.aggregated } := by
  rw [prepare, hcheck, ok_bind, hbuild, ok_bind, hbase, ok_bind, horder]
  rfl

/-- A query is prepared only if every condition of its filter was looked up and allowed, in the order in
which they are built, and its order is by sortable fields that were asked for. -/
theorem prepare_allowed (q : ListQuery) (hq : q.catalog.Reachable) {filters : Json} {sort : List SortBy}
    {p : Prepared} (hp : q.prepare filters sort = .ok p) :
    (∃ filter count, MadeFrom q filters p filter ∧ Spec.validate q.catalog filters = .ok count ∧
      (Spec.traced q.catalog filters).result = .ok count ∧
      Spec.Matched q.catalog (Spec.traced q.catalog filters).calls count filter.predicates) ∧
    ∀ key ∈ p.order, ∃ s ∈ sort, ∃ f, q.catalog.get? s.field = some f ∧ f.name = s.field ∧
      f.sortable = true ∧ key.expression = f.sortExpression p.aggregated := by
  have hindexed := Catalog.indexed_of_reachable hq
  obtain ⟨count, hcheck, hp⟩ := bind_eq_ok.1 hp
  obtain ⟨filter, hbuild, hp⟩ := bind_eq_ok.1 hp
  obtain ⟨base, hbase, hp⟩ := bind_eq_ok.1 hp
  obtain ⟨order, horder, hp⟩ := bind_eq_ok.1 hp
  cases hp
  refine ⟨⟨filter, count, ⟨hbuild, ⟨base, hbase, rfl⟩, rfl, rfl⟩, hcheck, ?_, ?_⟩, fun key hkey => ?_⟩
  · rw [(Spec.result_traced q.catalog).1, hcheck]
  · exact Spec.matched_build hindexed hcheck hbuild
  · obtain ⟨s, hs, f, hf, hsortable, hexpression⟩ := exists_field_of_mem_sortKeys horder hkey
    exact ⟨s, hs, f, hf, hindexed.name_of_get? hf, hsortable, hexpression⟩

/-- A list of cities that can be sorted by their names only. -/
def cities : ListQuery :=
  { skeleton := { select := ["c.name AS name", "c.size AS size"], table := "city", tableAlias := some "c" }
    catalog := ((Catalog.ofColumns [⟨"name", "c.name"⟩, ⟨"size", "c.size"⟩]).apply (.restrictSorts ["name"])).1
    platform := .sqlite }

/-- Cities that are large and have a name. -/
def largeNamed : Json :=
  .obj [("collection", .arr [
    .obj [("property", .str "size"), ("operator", .str "greater_than"), ("value", .int 1000)],
    .arr [.obj [("condition", .obj [("property", .str "name"), ("comparison_operator", .str "is_not_null")])]]])]

theorem prepare_allowed_cities :
    cities.catalog.Reachable ∧ ∃ p, cities.prepare largeNamed [⟨"name", none⟩] = .ok p ∧
      (∃ filter count, MadeFrom cities largeNamed p filter ∧ Spec.validate cities.catalog largeNamed = .ok count ∧
        (Spec.traced cities.catalog largeNamed).result = .ok count ∧
        Spec.Matched cities.catalog (Spec.traced cities.catalog largeNamed).calls count filter.predicates) ∧
      ∀ key ∈ p.order, ∃ s ∈ [⟨"name", none⟩], ∃ f, cities.catalog.get? (SortBy.field s) = some f ∧
        f.name = s.field ∧ f.sortable = true ∧ key.expression = f.sortExpression p.aggregated := by
  have hreachable : cities.catalog.Reachable := .apply (.ofColumns _) _
  have hok : (cities.prepare largeNamed [⟨"name", none⟩]).isOk = true := by cbv
  cases hp : cities.prepare largeNamed [⟨"name", none⟩] with
  | error e => rw [hp] at hok; cases hok
  | ok p => exact ⟨hreachable, p, rfl, prepare_allowed cities hreachable hp⟩

end ListQuery
end Listing
