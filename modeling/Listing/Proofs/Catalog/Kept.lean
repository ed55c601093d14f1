import Mathlib
import Listing.Proofs.Catalog.Surface
/-!
# What changes keep

A catalog has its fields in a list and their places in an index, and the two are written apart from each other:
columns write both, changes only the list. A field that columns declare again is replaced where it stands, so it has
the expression of its last declaration (`expression_of_built`). A change is made on every field by itself and leaves
those that it is not meant for (`Declares.entrywise_apply`). So after any changes the fields stand where the index
says, under the names of the columns in their order (`represents_after`).
-/
namespace Listing

/-- A field that keeps its names, and everything if nothing was meant for it. -/
structure Field.Keeps (meant : Prop) (f f' : Field) : Prop where
  name : f'.name = f.name
  outputName : f'.outputName = f.outputName
  apart : ¬ meant → f' = f

namespace Catalog

/-- The catalogs that columns are made into. -/
inductive Built (columns : List Column) : Catalog → Prop
  | ofColumns : Built columns (ofColumns columns)
  | ofSkeleton {s : Skeleton} {p : Platform} {c : Catalog} (hcolumns : s.columns = .ok columns)
      (h : ofSkeleton s p = .ok c) : Built columns c

/-- The catalog after changes, whichever of them are refused. -/
def after (c : Catalog) (changes : List Change) : Catalog := changes.foldl (fun c change => (c.apply change).1) c

/-- The last column of a name. -/
def lastNamed (columns : List Column) (name : String) : Option Column :=
  (columns.filter (·.name == name)).getLast?

/-- Whether a change is meant for the field of a name; a restriction is meant for every field. -/
def Change.Concerns : Change → String → Prop
  | .customize n _, name | .setRenderer n _, name | .setTransform n _, name => n = name
  | .customizeAll options, name => name ∈ options.map Prod.fst
  | .restrictFilters _, _ | .restrictSorts _, _ => True

/-- Under the same index two catalogs have fields that are related place by place. -/
structure Entrywise (R : Field → Field → Prop) (c c' : Catalog) : Prop where
  index : c'.index = c.index
  fields : List.Forall₂ R c.fields c'.fields

variable {c c₀ : Catalog} {columns : List Column} {names : List String}

/-! ## Declarations -/

theorem Built.derivedFrom (h : c.Built columns) : c.DerivedFrom columns := by
  cases h with
  | ofColumns => exact .ofColumns
  | ofSkeleton hcolumns h => exact .ofSkeleton hcolumns h

theorem derivedFrom_after (h : c.DerivedFrom columns) (changes : List Change) :
    (c.after changes).DerivedFrom columns := by
  induction changes generalizing c with
  | nil => exact h
  | cons change changes ih => exact ih (h.apply change)

/-- A field that is declared takes the place of one of the same name and of no other. -/
theorem Declares.get?_declare (h : c.Declares names) (f : Field) (name : String) :
    (c.declare f).get? name = if f.name = name then some f else c.get? name := by
  have hlength : c.fields.length = names.length := by rw [← h.fields, List.length_map]
  have hlt : ∀ {n i}, c.index[n]? = some i → i < c.fields.length := fun hi =>
    hlength ▸ (List.getElem?_eq_some_iff.1 ((h.index _ _).1 hi)).1
  unfold Catalog.declare
  cases hi : c.index[f.name]? with
  | some i =>
    by_cases hname : f.name = name
    · rw [if_pos hname, get?, ← hname, hi, Option.bind_some, List.getElem?_set_self (hlt hi)]
    · rw [if_neg hname, get?, get?]
      cases hj : c.index[name]? with
      | none => rfl
      | some j =>
        have hne : i ≠ j := by
          rintro rfl
          exact hname (Option.some.inj (((h.index _ _).1 hi).symm.trans ((h.index _ _).1 hj)))
        rw [Option.bind_some, Option.bind_some, List.getElem?_set_ne hne]
  | none =>
    by_cases hname : f.name = name
    · simp [get?, hname]
    · rw [if_neg hname, get?, get?, Std.HashMap.getElem?_insert, if_neg (by simpa using hname)]
      cases hj : c.index[name]? with
      | none => rfl
      | some j => rw [Option.bind_some, Option.bind_some, List.getElem?_append_left (hlt hj)]

theorem lastNamed_concat (columns : List Column) (col : Column) (name : String) :
    lastNamed (columns ++ [col]) name = if col.name = name then some col else lastNamed columns name := by
  unfold lastNamed
  split
  · next hname => simp [hname]
  · next hname => simp [hname]

/-- The field of a name is made of the last column of that name. -/
theorem get?_ofColumns (columns : List Column) (name : String) :
    (ofColumns columns).get? name = (lastNamed columns name).map fun col => .ofColumn col.name col.expression := by
  induction columns using List.reverseRecOn with
  | nil => simp [ofColumns, lastNamed, get?, empty]
  | append_singleton columns col ih =>
    have hdeclare := (declares_ofColumns columns).get?_declare (.ofColumn col.name col.expression) name
    have hconcat : ofColumns (columns ++ [col]) = (ofColumns columns).declare (.ofColumn col.name col.expression) := by
      rw [ofColumns, List.foldl_append]
      rfl
    rw [hconcat, hdeclare, ih, lastNamed_concat, apply_ite (Option.map _)]
    rfl

/-- The expression of a field is that of the last column of its name. -/
theorem expression_of_built (h : c.Built columns) (name : String) :
    (c.get? name).map Field.expression = (lastNamed columns name).map Column.expression := by
  cases h with
  | ofColumns =>
    rw [get?_ofColumns, Option.map_map]
    rfl
  | ofSkeleton hcolumns h =>
    obtain ⟨columns', hcolumns', hc⟩ := bind_eq_ok.1 h
    obtain rfl := Except.ok.inj (hcolumns.symm.trans hcolumns')
    cases hc
    rw [get?_map, get?_ofColumns, Option.map_map, Option.map_map]
    rfl

/-! ## Place by place -/

section
variable {R : Field → Field → Prop}

theorem entrywise_map (c : Catalog) {change : Field → Field} (h : ∀ f, R f (change f)) :
    c.Entrywise R { c with fields := c.fields.map change } :=
  ⟨rfl, List.forall₂_map_right_iff.2 (List.forall₂_same.2 fun f _ => h f)⟩

theorem entrywise_refl (c : Catalog) (h : ∀ f, R f f) : c.Entrywise R c := ⟨rfl, List.forall₂_same.2 fun f _ => h f⟩

theorem Entrywise.trans {S T : Field → Field → Prop} {c' c'' : Catalog} (h : c.Entrywise R c')
    (h' : c'.Entrywise S c'') (hT : ∀ f g k, R f g → S g k → T f k) : c.Entrywise T c'' := by
  have hfields : ∀ {fs gs ks}, List.Forall₂ R fs gs → List.Forall₂ S gs ks → List.Forall₂ T fs ks := by
    intro fs gs ks hfirst
    induction hfirst generalizing ks with
    | nil =>
      rintro ⟨⟩
      exact .nil
    | cons hfg _ ih =>
      rintro (_ | ⟨hgk, hrest⟩)
      exact .cons (hT _ _ _ hfg hgk) (ih hrest)
  exact ⟨h'.index.trans h.index, hfields h.fields h'.fields⟩

/-- Whatever a change of one field is, no other field is touched. -/
theorem Declares.entrywise_modify (h : c.Declares names) {c' : Catalog} {name : String} {change : Field → Field}
    (hR : ∀ f, R f (if name = f.name then change f else f)) (hc : c.modify name change = .ok c') : c.Entrywise R c' := by
  cases hname : c.contains name with
  | false =>
    rw [modify_eq_error.2 ⟨hname, rfl⟩] at hc
    cases hc
  | true =>
    rw [h.modify_eq_ok hname] at hc
    cases hc
    exact c.entrywise_map hR

theorem entrywise_restrict (hrefl : ∀ f, R f f) {change : Field → Field} (hR : ∀ f, R f (change f)) :
    c.Entrywise R (c.settle (match c.firstUndeclared? names with
      | some n => .error (.undeclaredField n)
      | none => .ok { c with fields := c.fields.map change })).1 := by
  cases c.firstUndeclared? names with
  | some n => exact c.entrywise_refl hrefl
  | none => exact c.entrywise_map hR

end

/-! ## Changes -/

theorem keeps_refl (meant : Prop) (f : Field) : f.Keeps meant f := ⟨rfl, rfl, fun _ => rfl⟩

theorem KeepsNames.keeps {change : Field → Field} (h : KeepsNames change) (f : Field) : f.Keeps True (change f) :=
  ⟨(h f).1, (h f).2, fun hnot => absurd trivial hnot⟩

/-- A change of the field of one name. -/
theorem KeepsNames.keeps_ite {change : Field → Field} (h : KeepsNames change) (name : String) (f : Field) :
    f.Keeps (name = f.name) (if name = f.name then change f else f) := by
  split
  · next hname => exact ⟨(h f).1, (h f).2, fun hnot => absurd hname hnot⟩
  · exact keeps_refl _ f

/-- Options for other fields leave a field as it is. -/
theorem keeps_customizedBy (options : List (String × FieldOptions)) (f : Field) :
    f.Keeps (f.name ∈ options.map Prod.fst) (f.customizedBy options) := by
  induction options generalizing f with
  | nil => exact keeps_refl _ f
  | cons o rest ih =>
    rw [Field.customizedBy_cons]
    split
    · next hname =>
      have hrest := ih (o.2.apply f)
      exact ⟨hrest.name, hrest.outputName, fun hnot => absurd (by simp [hname]) hnot⟩
    · have hrest := ih f
      exact ⟨hrest.name, hrest.outputName, fun hnot => hrest.apart fun hmem => hnot (List.mem_cons_of_mem _ hmem)⟩

/-- No change touches a name, a place or a field that it is not meant for, even if it is refused on the way. -/
theorem Declares.entrywise_apply (h : c.Declares names) (change : Change) :
    c.Entrywise (fun f f' => f.Keeps (change.Concerns f.name) f') (c.apply change).1 := by
  have hone : ∀ {name : String} {g : Field → Field}, KeepsNames g →
      c.Entrywise (fun f f' => f.Keeps (name = f.name) f') (c.settle (c.modify name g)).1 := fun hg =>
    settle_induction (c.entrywise_refl fun f => keeps_refl _ f) fun _ hc => h.entrywise_modify (hg.keeps_ite _) hc
  cases change with
  | customize name o => exact hone fun _ => ⟨rfl, rfl⟩
  | setRenderer name r => exact hone fun _ => ⟨rfl, rfl⟩
  | setTransform name t => exact hone fun _ => ⟨rfl, rfl⟩
  | restrictFilters names =>
    refine entrywise_restrict (fun f => keeps_refl _ f) (KeepsNames.keeps ?_)
    exact fun _ => ⟨rfl, rfl⟩
  | restrictSorts names =>
    refine entrywise_restrict (fun f => keeps_refl _ f) (KeepsNames.keeps ?_)
    exact fun _ => ⟨rfl, rfl⟩
  | customizeAll options =>
    rw [apply, h.customizeAll_eq]
    refine c.entrywise_map fun f => ?_
    have hkeeps := keeps_customizedBy (options.takeWhile fun o => c.contains o.1) f
    refine ⟨hkeeps.name, hkeeps.outputName, fun hnot => hkeeps.apart fun hmem => hnot ?_⟩
    exact ((List.takeWhile_sublist _).map Prod.fst).subset hmem

/-- Through all changes a field keeps what it keeps through each. -/
theorem DerivedFrom.entrywise_after (h : c.DerivedFrom columns) (changes : List Change) :
    c.Entrywise (fun f f' => f.Keeps (∃ change ∈ changes, change.Concerns f.name) f') (c.after changes) := by
  induction changes generalizing c with
  | nil => exact c.entrywise_refl fun f => keeps_refl _ f
  | cons change changes ih =>
    refine (h.declares.entrywise_apply change).trans (ih (h.apply change)) fun f g k hfg hgk => ?_
    refine ⟨hgk.name.trans hfg.name, hgk.outputName.trans hfg.outputName, fun hnot => ?_⟩
    rw [List.exists_mem_cons_iff, not_or] at hnot
    -- the later changes are not meant for the field either, since it still has its name
    rw [hgk.apart (hfg.name ▸ hnot.2), hfg.apart hnot.1]

/-- A catalog after changes represents the columns that it was built from. -/
structure Represents (columns : List Column) (c₀ : Catalog) (changes : List Change) : Prop where
  declares : (c₀.after changes).Declares (declaredNames columns)
  expression : ∀ name, (c₀.get? name).map Field.expression = (lastNamed columns name).map Column.expression
  /-- What every field keeps through the next change. -/
  step : ∀ change, (c₀.after changes).Entrywise (fun f f' => f.Keeps (change.Concerns f.name) f')
    ((c₀.after changes).apply change).1
  filters : ∀ names, (c₀.after changes).Entrywise (fun f f' => f' = { f with filterable := f'.filterable })
    ((c₀.after changes).apply (.restrictFilters names)).1
  sorts : ∀ names, (c₀.after changes).Entrywise (fun f f' => f' = { f with sortable := f'.sortable })
    ((c₀.after changes).apply (.restrictSorts names)).1
  /-- What every field has kept since the catalog was built. -/
  run : c₀.Entrywise (fun f f' => f.Keeps (∃ change ∈ changes, change.Concerns f.name) f') (c₀.after changes)

/-- Whatever changes are made or refused, the index leads from each declared name to the one field of that name, the
fields stand in the order in which their names were declared, each built with the expression of its last declaration,
and no change has touched a name, a place, or a field that it was not meant for. -/
theorem represents_after (h : c₀.Built columns) (changes : List Change) : Represents columns c₀ changes where
  declares := (derivedFrom_after h.derivedFrom changes).declares
  expression := expression_of_built h
  step := (derivedFrom_after h.derivedFrom changes).declares.entrywise_apply
  filters := by
    intro names
    refine entrywise_restrict ?_ ?_ <;> exact fun _ => rfl
  sorts := by
    intro names
    refine entrywise_restrict ?_ ?_ <;> exact fun _ => rfl
  run := h.derivedFrom.entrywise_after changes

/-- Columns of wells, the depth declared twice. -/
def wellColumns : List Column := [⟨"depth", "w.depth"⟩, ⟨"town", "w.town"⟩, ⟨"depth", "w.top - w.bottom"⟩]

/-- Two changes of the town of wells; the first is refused for a name that is not declared. -/
def townChanges : List Change :=
  [.customizeAll [("town", { lowerCased := true }), ("owner", {})], .setRenderer "town" .lower]

theorem represents_after_wells :
    (ofColumns wellColumns).Built wellColumns ∧ Represents wellColumns (ofColumns wellColumns) townChanges ∧
      ((ofColumns wellColumns).after townChanges).fields.map Field.name = ["depth", "town"] ∧
      (lastNamed wellColumns "depth").map Column.expression = some "w.top - w.bottom" := by
  have h : Represents wellColumns (ofColumns wellColumns) townChanges := represents_after .ofColumns townChanges
  exact ⟨.ofColumns, h, h.declares.fields, by decide⟩

end Catalog
end Listing
