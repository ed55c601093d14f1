import Mathlib
import Listing.Proofs.Catalog.Described
/-!
# Refused changes

A change is refused for a name that is no field's. Restrictions look for all their names before they touch a field,
and a change of one field has one name, so a refusal leaves the catalog alone. Options for several fields are applied
one by one, and those in front of the unknown name stay (`apply_refused`).
-/
namespace Listing

namespace Field

/-- The field with the options that are meant for it, one after the other. -/
def customizedBy (options : List (String × FieldOptions)) (f : Field) : Field :=
  options.foldl (fun f o => if o.1 = f.name then o.2.apply f else f) f

variable {options : List (String × FieldOptions)}

theorem customizedBy_cons (o : String × FieldOptions) (f : Field) :
    f.customizedBy (o :: options) = (if o.1 = f.name then o.2.apply f else f).customizedBy options := rfl

@[simp] theorem name_customizedBy (f : Field) : (f.customizedBy options).name = f.name := by
  induction options generalizing f with
  | nil => rfl
  | cons o rest ih =>
    rw [customizedBy_cons, ih]
    split <;> rfl

end Field

namespace Catalog

/-- The catalog with options for several fields. -/
def customized (c : Catalog) (options : List (String × FieldOptions)) : Catalog :=
  { c with fields := c.fields.map (Field.customizedBy options) }

theorem customized_nil (c : Catalog) : c.customized [] = c := by
  have hid : Field.customizedBy [] = id := rfl
  rw [customized, hid, List.map_id]

theorem customized_eq_self {c : Catalog} {options : List (String × FieldOptions)} :
    c.customized options = c ↔ ∀ f ∈ c.fields, f.customizedBy options = f := by
  have hfields : c.customized options = c ↔ c.fields.map (Field.customizedBy options) = c.fields.map id := by
    rw [List.map_id]
    exact ⟨congrArg Catalog.fields, fun h => by rw [customized, h]⟩
  rw [hfields, List.map_inj_left]
  rfl

/-- The names of the fields that a change is about. -/
def Change.names : Change → List String
  | .customize name _ | .setRenderer name _ | .setTransform name _ => [name]
  | .customizeAll options => options.map Prod.fst
  | .restrictFilters names | .restrictSorts names => names

/-- The options that a change applies before it has looked for all its names. -/
def Change.early (c : Catalog) : Change → List (String × FieldOptions)
  | .customizeAll options => options.takeWhile fun o => c.contains o.1
  | .customize .. | .restrictFilters _ | .restrictSorts _ | .setRenderer .. | .setTransform .. => []

variable {c : Catalog} {names : List String}

/-! ## One field -/

theorem contains_eq_false {name : String} : c.contains name = false ↔ c.index[name]? = none := by
  rw [contains, Std.HashMap.contains_eq_isSome_getElem?, Option.isSome_eq_false_iff, Option.isNone_iff_eq_none]

theorem modify_eq_error {name : String} {change : Field → Field} {e : Error} :
    c.modify name change = .error e ↔ c.contains name = false ∧ e = .undeclaredField name := by
  rw [contains_eq_false, modify]
  cases c.index[name]? <;> simp [eq_comm]

/-- Changing the field of a name is changing all fields of that name. -/
theorem Declares.modify_eq_ok (h : c.Declares names) {name : String} (hname : c.contains name = true)
    (change : Field → Field) :
    c.modify name change = .ok { c with fields := c.fields.map fun f => if name = f.name then change f else f } := by
  cases hi : c.index[name]? with
  | none => rw [contains_eq_false.2 hi] at hname; cases hname
  | some i =>
    have hfields : c.fields.modify i change = c.fields.map fun f => if name = f.name then change f else f := by
      refine List.ext_getElem? fun j => ?_
      rw [List.getElem?_modify, List.getElem?_map]
      cases hj : c.fields[j]? with
      | none => rfl
      | some f =>
        have hplace : names[j]? = some f.name := by rw [← h.fields, List.getElem?_map, hj, Option.map_some]
        have hsame : i = j ↔ name = f.name := by
          rw [← Option.some_inj, ← hi, h.index, hplace, Option.some_inj, eq_comm]
        simp [hsame]
    simp only [modify, hi, hfields]

/-! ## Several fields -/

/-- Options are applied up to the first name that is no field's. -/
theorem Declares.customizeAll_eq (h : c.Declares names) (options : List (String × FieldOptions)) :
    c.customizeAll options = (c.customized (options.takeWhile fun o => c.contains o.1),
      match c.firstUndeclared? (options.map Prod.fst) with
      | some name => .error (.undeclaredField name)
      | none => .ok ()) := by
  induction options generalizing c with
  | nil => rw [customizeAll, List.takeWhile_nil, customized_nil]; rfl
  | cons o rest ih =>
    obtain ⟨name, o⟩ := o
    rw [customizeAll, customize]
    cases hname : c.contains name with
    | false =>
      rw [modify_eq_error.2 ⟨hname, rfl⟩]
      simp [firstUndeclared?, hname, customized_nil]
    | true =>
      rw [h.modify_eq_ok hname]
      have hkeeps : KeepsNames fun f => if name = f.name then o.apply f else f := by
        intro f
        dsimp only
        split <;> exact ⟨rfl, rfl⟩
      have hrest := ih (h.of_sameNames (c.sameNames_map hkeeps))
      have hcustomized : ∀ options, Catalog.customized
          { c with fields := c.fields.map fun f => if name = f.name then o.apply f else f } options =
            c.customized ((name, o) :: options) := by
        intro options
        rw [customized, customized, List.map_map]
        rfl
      rw [hcustomized] at hrest
      simp only [firstUndeclared?, List.map_cons, List.takeWhile_cons, List.find?_cons, hname, Bool.not_true, if_true]
      exact hrest

/-! ## Changes -/

/-- A step that leaves the catalog alone when it is refused for a name. -/
theorem settle_refused {x : Except Error Catalog} {names : List String}
    (hx : ∀ e, x = .error e ↔ ∃ name, c.firstUndeclared? names = some name ∧ e = .undeclaredField name) {e : Error}
    (h : (c.settle x).2 = .error e) :
    (∃ name, c.firstUndeclared? names = some name ∧ e = .undeclaredField name) ∧ (c.settle x).1 = c := by
  cases x with
  | ok c' => cases h
  | error _ =>
    cases h
    exact ⟨(hx e).1 rfl, rfl⟩

theorem modify_refused (c : Catalog) (name : String) (change : Field → Field) (e : Error) :
    c.modify name change = .error e ↔ ∃ n, c.firstUndeclared? [name] = some n ∧ e = .undeclaredField n := by
  rw [modify_eq_error, firstUndeclared?]
  cases hname : c.contains name <;> simp [hname]

theorem restrict_refused (c : Catalog) (names : List String) (change : Field → Field) (e : Error) :
    (match c.firstUndeclared? names with
      | some n => .error (.undeclaredField n)
      | none => .ok { c with fields := c.fields.map change } : Except Error Catalog) = .error e ↔
      ∃ n, c.firstUndeclared? names = some n ∧ e = .undeclaredField n := by
  cases c.firstUndeclared? names <;> simp [eq_comm]

/-- A change is refused for the first of its names that is no field's. The catalog is left with the options that were
applied early. Those are options for several fields: every other refused change leaves the catalog as it was. -/
theorem apply_refused (hc : c.Reachable) {change : Change} {e : Error} (h : (c.apply change).2 = .error e) :
    (∃ name, c.firstUndeclared? change.names = some name ∧ e = .undeclaredField name) ∧
    (c.apply change).1 = c.customized (change.early c) ∧
    ((c.apply change).1 = c ↔ ∀ f ∈ c.fields, f.customizedBy (change.early c) = f) ∧
    ((∀ options, change ≠ .customizeAll options) → (c.apply change).1 = c) := by
  obtain ⟨columns, hcolumns⟩ := reachable_iff.1 hc
  have hrefused : (∃ name, c.firstUndeclared? change.names = some name ∧ e = .undeclaredField name) ∧
      (c.apply change).1 = c.customized (change.early c) := by
    cases change with
    | customizeAll options =>
      rw [apply, hcolumns.declares.customizeAll_eq] at h ⊢
      refine ⟨?_, rfl⟩
      simp only [Change.names]
      split at h
      · next name hname => exact ⟨name, hname, (Except.error.inj h).symm⟩
      · cases h
    | customize name o =>
      rw [Change.early, customized_nil]
      exact settle_refused (c.modify_refused name _) h
    | restrictFilters names =>
      rw [Change.early, customized_nil]
      exact settle_refused (c.restrict_refused names _) h
    | restrictSorts names =>
      rw [Change.early, customized_nil]
      exact settle_refused (c.restrict_refused names _) h
    | setRenderer name r =>
      rw [Change.early, customized_nil]
      exact settle_refused (c.modify_refused name _) h
    | setTransform name t =>
      rw [Change.early, customized_nil]
      exact settle_refused (c.modify_refused name _) h
  obtain ⟨hname, hleft⟩ := hrefused
  refine ⟨hname, hleft, by rw [hleft, customized_eq_self], fun hone => ?_⟩
  have hearly : change.early c = [] := by
    cases change with
    | customizeAll options => exact absurd rfl (hone options)
    | _ => rfl
  rw [hleft, hearly, customized_nil]

/-- Quarries by name and depth. -/
def quarries : Catalog := ofColumns [⟨"name", "q.name"⟩, ⟨"depth", "q.depth"⟩]

/-- Closes the depth to filters, and something that is not declared. -/
def closeDepthAndLake : Change :=
  .customizeAll [("depth", { filterable := some false }), ("lake", { filterable := some false })]

theorem apply_refused_quarries :
    (quarries.apply closeDepthAndLake).2 = .error (.undeclaredField "lake") ∧
    (quarries.apply closeDepthAndLake).1 = quarries.customized [("depth", { filterable := some false })] ∧
    (quarries.apply (.restrictSorts ["name", "lake"])).2 = .error (.undeclaredField "lake") ∧
    (quarries.apply (.restrictSorts ["name", "lake"])).1 = quarries := by
  have hreachable : quarries.Reachable := .ofColumns _
  have hrefused : (quarries.apply closeDepthAndLake).2 = .error (.undeclaredField "lake") := by cbv
  have hrestricts : (quarries.apply (.restrictSorts ["name", "lake"])).2 = .error (.undeclaredField "lake") := by cbv
  have hearly : closeDepthAndLake.early quarries = [("depth", { filterable := some false })] := by cbv
  obtain ⟨-, hleft, -, -⟩ := apply_refused hreachable hrefused
  obtain ⟨-, -, -, hkept⟩ := apply_refused hreachable hrestricts
  rw [hearly] at hleft
  exact ⟨hrefused, hleft, hrestricts, hkept (by simp)⟩

/-- A refused change has closed a field. -/
theorem apply_leaves_depth_closed :
    (quarries.apply closeDepthAndLake).2 = .error (.undeclaredField "lake") ∧
    quarries.allowsFilter "depth" = true ∧ (quarries.apply closeDepthAndLake).1.allowsFilter "depth" = false ∧
    (quarries.apply closeDepthAndLake).1 ≠ quarries := by
  have hrefused : (quarries.apply closeDepthAndLake).2 = .error (.undeclaredField "lake") := by cbv
  have hopen : quarries.allowsFilter "depth" = true := by cbv
  have hclosed : (quarries.apply closeDepthAndLake).1.allowsFilter "depth" = false := by cbv
  refine ⟨hrefused, hopen, hclosed, fun hsame => ?_⟩
  rw [hsame, hopen] at hclosed
  cases hclosed

end Catalog
end Listing
