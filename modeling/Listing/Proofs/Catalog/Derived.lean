import Listing.Proofs.Catalog.Described
/-!
# Catalogs of a skeleton

The catalog of a list begins as that of its skeleton's columns, and a definition or a program changes it
from there (`Derived`). In wrapping queries all its fields go by their names in quotes, as the statement
writes them (`outputName_of_derived`). The query of a definition has such a catalog
(`derived_ofDefinition`).
-/
namespace Listing

namespace Catalog

/-- The catalogs that changes of a skeleton's catalog lead to; a refused change may have been made in part. -/
inductive Derived (s : Skeleton) (p : Platform) : Catalog → Prop
  | ofSkeleton {c : Catalog} (h : ofSkeleton s p = .ok c) : Derived s p c
  | apply {c : Catalog} (h : Derived s p c) (change : Change) : Derived s p (c.apply change).1

variable {s : Skeleton} {p : Platform} {c : Catalog}

theorem Derived.reachable (h : c.Derived s p) : c.Reachable := by
  induction h with
  | ofSkeleton h => exact .ofSkeleton h
  | apply _ change ih => exact .apply ih change

/-- The catalog of a skeleton comes from its columns. -/
theorem Derived.derivedFrom (h : c.Derived s p) {columns : List Column} (hcolumns : s.columns = .ok columns) :
    c.DerivedFrom columns := by
  induction h with
  | ofSkeleton h => exact .ofSkeleton hcolumns h
  | apply _ change ih => exact .apply ih change

theorem derived_require {c' : Catalog} (h : c.Derived s p) {change : Change} (hc : c.require change = .ok c') :
    c'.Derived s p := by
  obtain ⟨_, _, rfl⟩ := map_eq_ok.1 hc
  exact .apply h change

/-! ## Names in wrapping queries -/

/-- All fields go by their names in quotes. -/
def Quoted (p : Platform) (c : Catalog) : Prop := ∀ f ∈ c.fields, f.outputName = p.quote f.name

theorem quoted_map {change : Field → Field} (hchange : KeepsNames change) (h : c.Quoted p) :
    Quoted p { c with fields := c.fields.map change } := by
  intro f hf
  obtain ⟨g, hg, rfl⟩ := List.mem_map.1 hf
  rw [(hchange g).1, (hchange g).2, h g hg]

theorem quoted_modify {c' : Catalog} {name : String} {change : Field → Field} (hchange : KeepsNames change)
    (h : c.Quoted p) (hc : c.modify name change = .ok c') : c'.Quoted p := by
  unfold modify at hc
  split at hc
  · next i _ =>
    cases hc
    intro f hf
    obtain ⟨j, hj⟩ := List.getElem?_of_mem hf
    rw [List.getElem?_modify, Option.map_eq_map, Option.map_eq_some_iff] at hj
    obtain ⟨g, hg, rfl⟩ := hj
    have hquoted := h g (List.mem_of_getElem? hg)
    split
    · rw [(hchange g).1, (hchange g).2, hquoted]
    · exact hquoted
  · cases hc

theorem quoted_of_derived (h : c.Derived s p) : c.Quoted p := by
  induction h with
  | ofSkeleton h =>
    obtain ⟨columns, _, hc⟩ := bind_eq_ok.1 h
    cases hc
    intro f hf
    obtain ⟨g, _, rfl⟩ := List.mem_map.1 hf
    rfl
  | apply _ change ih => exact apply_induction quoted_modify quoted_map ih change

theorem outputName_of_derived (h : c.Derived s p) {name : String} {f : Field} (hf : c.get? name = some f) :
    f.outputName = p.quote f.name :=
  quoted_of_derived h f (mem_fields_of_get? hf)

end Catalog

namespace ListQuery

theorem derived_restrict {s : Skeleton} {p : Platform} {c c' : Catalog} (h : c.Derived s p)
    {toChange : List String → Catalog.Change} {names : Option (List String)}
    (hc : restrict c toChange names = .ok c') : c'.Derived s p := by
  cases names with
  | none => cases hc; exact h
  | some names => exact Catalog.derived_require h hc

/-- The steps from a definition to its query: the catalog of its skeleton, the options, the two lists. -/
structure Steps (d : Definition) (q : ListQuery) (c₀ c₁ c₂ : Catalog) : Prop where
  skeleton : q.skeleton = d.skeleton
  declared : Catalog.ofSkeleton d.skeleton q.platform = .ok c₀
  customized : c₀.require (.customizeAll d.fields) = .ok c₁
  filters : restrict c₁ .restrictFilters d.filterable = .ok c₂
  sorts : restrict c₂ .restrictSorts d.sortable = .ok q.catalog

theorem exists_steps {d : Definition} {default : Platform} {q : ListQuery} (hq : ofDefinition d default = .ok q) :
    ∃ c₀ c₁ c₂, Steps d q c₀ c₁ c₂ := by
  have hon : ∀ platform : Platform, (do
      let q ← ofSkeleton d.skeleton platform
      let c ← q.catalog.require (.customizeAll d.fields)
      let c ← restrict c .restrictFilters d.filterable
      let c ← restrict c .restrictSorts d.sortable
      return { q with catalog := c }) = Except.ok q → ∃ c₀ c₁ c₂, Steps d q c₀ c₁ c₂ := by
    intro platform hq
    obtain ⟨q₀, hq₀, hq⟩ := bind_eq_ok.1 hq
    obtain ⟨c, hc, hq₀⟩ := bind_eq_ok.1 hq₀
    cases hq₀
    obtain ⟨c₁, hc₁, hq⟩ := bind_eq_ok.1 hq
    obtain ⟨c₂, hc₂, hq⟩ := bind_eq_ok.1 hq
    obtain ⟨c₃, hc₃, hq⟩ := bind_eq_ok.1 hq
    cases hq
    exact ⟨c, c₁, c₂, rfl, hc, hc₁, hc₂, hc₃⟩
  unfold ofDefinition at hq
  cases hplatform : d.platform with
  | none =>
    rw [hplatform] at hq
    exact hon default hq
  | some name =>
    rw [hplatform] at hq
    obtain ⟨platform, _, hq⟩ := bind_eq_ok.1 hq
    exact hon platform hq

/-- The query of a definition has a catalog that comes from its skeleton. -/
theorem derived_ofDefinition {d : Definition} {default : Platform} {q : ListQuery}
    (hq : ofDefinition d default = .ok q) : q.skeleton = d.skeleton ∧ q.catalog.Derived q.skeleton q.platform := by
  obtain ⟨c₀, c₁, c₂, h⟩ := exists_steps hq
  refine ⟨h.skeleton, ?_⟩
  rw [h.skeleton]
  exact derived_restrict (derived_restrict (Catalog.derived_require (.ofSkeleton h.declared) h.customized) h.filters)
    h.sorts

end ListQuery
end Listing
