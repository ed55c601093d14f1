import Mathlib
import Listing.Proofs.Filter.Alike
/-!
# Values and the text of statements

No value of a filter becomes part of a statement's text. Filters that are alike but for their values are
prepared to the same text, order and parameter names, and bound to the same text with placeholders, or
both are refused with the same error (`prepare_alike`).
-/
namespace Listing

/-- Bound statements with one text and equally many values. -/
def Bound.SameText (b b' : Bound) : Prop := b.sql = b'.sql ∧ b.params.length = b'.params.length

theorem Platform.bind_sameText (p : Platform) (sql : String) {bag bag' : Bag} (h : bag.mask = bag'.mask) :
    (p.bind sql bag).SameText (p.bind sql bag') := by
  constructor
  · rw [← p.bind_sql_mask sql bag, h, p.bind_sql_mask]
  · rw [← p.length_bind_params_mask sql bag, h, p.length_bind_params_mask]

namespace Prepared

/-- Prepared queries that differ only in the values they bind. -/
structure SameText (p p' : Prepared) : Prop where
  sql : p.sql = p'.sql
  aggregated : p.aggregated = p'.aggregated
  order : p.order = p'.order
  names : p.parameters.names = p'.parameters.names
  page : ∀ page size, Agree Bound.SameText (p.page page size) (p'.page page size)
  count : p.count.SameText p'.count

/-- The prepared query with its values masked. -/
def mask (p : Prepared) : Prepared := { p with parameters := p.parameters.mask }

/-- All texts of a prepared query are those of its masked form. -/
theorem sameText_of_mask_eq {p p' : Prepared} (h : p.mask = p'.mask) : p.SameText p' := by
  obtain ⟨statement, parameters, order, platform, limits, aggregated⟩ := p
  obtain ⟨statement', parameters', order', platform', limits', aggregated'⟩ := p'
  simp only [mask, Prepared.mk.injEq] at h
  obtain ⟨rfl, hparameters, rfl, rfl, rfl, rfl⟩ := h
  refine ⟨rfl, rfl, rfl, ?_, fun page size => ?_, ?_⟩
  · rw [← Bag.names_mask parameters, hparameters, Bag.names_mask]
  · unfold Prepared.page
    cases limits.sizeFor page size with
    | error e => exact .error e
    | ok size =>
      simp only [ok_bind, pageOfSize]
      cases pageOffset page size with
      | error e => exact .error e
      | ok offset => exact Agree.ok (platform.bind_sameText _ hparameters)
  · exact platform.bind_sameText _ hparameters

end Prepared

namespace ListQuery

theorem filtered_mask (base : Statement) (n : Node) : filtered base n.mask = filtered base n := by
  simp only [filtered, Node.condition_mask, Node.aggregated_mask]

/-- Filters that differ only in their values, with fields that have no transform of their own where they
do, give queries that differ only in the values they bind, or fail with the same error. -/
theorem prepare_alike (q : ListQuery) (sort : List SortBy) {filters filters' : Json}
    (h : Spec.Alike q.catalog filters filters') :
    Agree Prepared.SameText (q.prepare filters sort) (q.prepare filters' sort) := by
  unfold prepare
  rw [Spec.validate_alike h]
  cases Spec.validate q.catalog filters' with
  | error e => exact .error e
  | ok count =>
    refine (Spec.build_alike h 0).bind fun n n' hn => ?_
    have haggregated : n.aggregated = n'.aggregated := by
      rw [← n.aggregated_mask, hn, n'.aggregated_mask]
    cases q.skeleton.statement with
    | error e => exact .error e
    | ok base =>
      rw [haggregated]
      cases sortKeys q.catalog n'.aggregated sort with
      | error e => exact .error e
      | ok order =>
        refine Agree.ok (Prepared.sameText_of_mask_eq ?_)
        simp only [Prepared.mask, ← Node.parameters_mask, hn]
        rw [← filtered_mask base n, hn, filtered_mask]

/-- A list of towns, whose names are compared in lower case. -/
def towns : ListQuery :=
  { skeleton := { select := ["t.name AS name", "t.id AS id"], table := "town", tableAlias := some "t" }
    catalog := ((Catalog.ofColumns [⟨"name", "t.name"⟩, ⟨"id", "t.id"⟩]).apply
      (.customize "name" { lowerCased := true })).1
    platform := .postgres }

/-- Towns that have the name or are among the identifiers. -/
def townFilter (name ids : Json) : Json :=
  .arr [
    .obj [("property", .str "name"), ("operator", .str "contains"), ("value", name)],
    .obj [("bool_operator", .str "or"), ("collection", .arr [
      .obj [("condition", .obj [("property", .str "id"), ("operator", .str "in"), ("value", ids)])]])]]

theorem prepare_alike_towns :
    Spec.Alike towns.catalog (townFilter (.str "Rome") (.arr [.int 1, .int 2]))
        (townFilter (.str "' OR 1 = 1 --") (.arr [.str ":name_1", .null])) ∧
      Agree Prepared.SameText (towns.prepare (townFilter (.str "Rome") (.arr [.int 1, .int 2])) [⟨"id", none⟩])
        (towns.prepare (townFilter (.str "' OR 1 = 1 --") (.arr [.str ":name_1", .null])) [⟨"id", none⟩]) := by
  have hname : ∀ f, towns.catalog.get? "name" = some f → f.transform = none := by
    intro f hf
    have hget : (towns.catalog.get? "name").map (fun f => f.transform.isNone) = some true := by cbv
    rw [hf] at hget
    simpa using hget
  have hid : ∀ f, towns.catalog.get? "id" = some f → f.transform = none := by
    intro f hf
    have hget : (towns.catalog.get? "id").map (fun f => f.transform.isNone) = some true := by cbv
    rw [hf] at hget
    simpa using hget
  have halike : Spec.Alike towns.catalog (townFilter (.str "Rome") (.arr [.int 1, .int 2]))
      (townFilter (.str "' OR 1 = 1 --") (.arr [.str ":name_1", .null])) := by
    refine .array (.cons (.condition rfl (by simp) (by simp) rfl rfl ?_)
      (.cons (.group rfl rfl rfl (.cons (.condition rfl (by simp) (by simp) rfl rfl ?_) .nil)) .nil))
    · have hleaf : ∀ v, Spec.leafOf [("property", .str "name"), ("operator", .str "contains"), ("value", v)] =
          .ok ⟨"name", .contains, v⟩ := fun v => rfl
      rw [hleaf, hleaf]
      exact Agree.ok ⟨rfl, rfl, .inr ⟨.scalar rfl rfl (by decide) (by decide), hname⟩⟩
    · have hleaf : ∀ v, Spec.leafOf [("condition",
            .obj [("property", .str "id"), ("operator", .str "in"), ("value", v)])] =
          .ok ⟨"id", .isIn, v⟩ := fun v => rfl
      rw [hleaf, hleaf]
      exact Agree.ok ⟨rfl, rfl, .inr ⟨.list rfl (by simp [Json.isScalar]) (by simp [Json.isScalar]), hid⟩⟩
  exact ⟨halike, towns.prepare_alike [⟨"id", none⟩] halike⟩

end ListQuery
end Listing
