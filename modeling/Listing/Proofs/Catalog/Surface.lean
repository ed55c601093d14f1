import Mathlib
import Listing.Proofs.Catalog.Derived
import Listing.Proofs.Catalog.Refused
/-!
# The surface of a definition

Two parts of a definition say whether a field may be filtered or sorted by: the options of the field, and a list of
the fields that may be. They are applied one after the other and set the same flag, so where there is a list it alone
decides (`surface_ofDefinition`). It closes what it does not name, and opens again what it names and the options
closed (`list_reopens`).
-/
namespace Listing

namespace FieldOptions

/-- What options say about a flag of a field; the last ones that say something count. -/
def said (own : FieldOptions → Option Bool) (options : List (String × FieldOptions)) (name : String) : Option Bool :=
  ((options.filter (·.1 == name)).filterMap fun o => own o.2).getLast?

theorem said_cons (own : FieldOptions → Option Bool) (o : String × FieldOptions)
    (options : List (String × FieldOptions)) (name : String) :
    said own (o :: options) name = (said own options name).or (if o.1 = name then own o.2 else none) := by
  unfold said
  by_cases hname : o.1 = name
  · cases hown : own o.2 with
    | none => simp [hname, hown]
    | some b =>
      simp only [List.filter_cons, hname, beq_self_eq_true, if_true, List.filterMap_cons, hown, List.getLast?_cons]
      cases ((options.filter (·.1 == name)).filterMap fun o => own o.2).getLast? <;> rfl
  · simp [hname]

end FieldOptions

/-- A flag that options set, if they say something about it. -/
theorem Field.flag_customizedBy {flag : Field → Bool} {own : FieldOptions → Option Bool}
    (hown : ∀ o f, flag (FieldOptions.apply o f) = (own o).getD (flag f)) (options : List (String × FieldOptions))
    (f : Field) : flag (f.customizedBy options) = (FieldOptions.said own options f.name).getD (flag f) := by
  induction options generalizing f with
  | nil => rfl
  | cons o rest ih =>
    rw [customizedBy_cons, FieldOptions.said_cons]
    by_cases hname : o.1 = f.name
    · rw [if_pos hname, if_pos hname, ih, FieldOptions.apply_name, hown]
      cases FieldOptions.said own rest f.name <;> rfl
    · rw [if_neg hname, if_neg hname, ih, Option.or_none]

namespace Catalog

/-! ## Changes of all fields -/

theorem get?_map (c : Catalog) (change : Field → Field) (name : String) :
    get? { c with fields := c.fields.map change } name = (c.get? name).map change := by
  simp only [get?, List.getElem?_map]
  cases c.index[name]? <;> rfl

theorem require_eq_ok {c c' : Catalog} {change : Change} :
    c.require change = .ok c' ↔ c.apply change = (c', .ok ()) := by
  unfold require
  obtain ⟨c'', result⟩ := c.apply change
  cases result <;> simp [Except.map]

theorem settle_eq_ok {c c' : Catalog} {x : Except Error Catalog} (h : c.settle x = (c', .ok ())) : x = .ok c' := by
  cases x with
  | ok c'' => rw [settle, Prod.mk.injEq] at h; rw [h.1]
  | error e => cases h

/-- All options are applied if no name is unknown. -/
theorem customized_of_require {c c' : Catalog} {names : List String} (h : c.Declares names)
    {options : List (String × FieldOptions)} (hc : c.require (.customizeAll options) = .ok c') :
    c' = c.customized options := by
  rw [require_eq_ok, apply, h.customizeAll_eq, Prod.mk.injEq] at hc
  obtain ⟨rfl, hresult⟩ := hc
  split at hresult
  · cases hresult
  · next hnone =>
    simp only [firstUndeclared?, List.find?_eq_none, List.mem_map, Bool.not_eq_true', Bool.not_eq_false] at hnone
    rw [List.takeWhile_eq_self_iff.2 fun o ho => hnone o.1 ⟨o, ho, rfl⟩]

end Catalog

/-! ## Lists of fields -/

/-- A flag that a field has, under a list of the fields that may have it. -/
def listed (list : Option (List String)) (name : String) (flag : Bool) : Bool :=
  match list with
  | some names => names.contains name
  | none => flag

namespace Field

/-- The field under a list of the fields that may be filtered by. -/
def underFilters (list : Option (List String)) (f : Field) : Field :=
  { f with filterable := listed list f.name f.filterable }

/-- The field under a list of the fields that may be sorted by. -/
def underSorts (list : Option (List String)) (f : Field) : Field :=
  { f with sortable := listed list f.name f.sortable }

end Field

namespace ListQuery

variable {c c' : Catalog} {list : Option (List String)}

/-- A restriction changes every field, or none without a list. -/
theorem get?_restrict (change : Option (List String) → Field → Field) {toChange : List String → Catalog.Change}
    (hnone : change none = id)
    (hsome : ∀ names, c.apply (toChange names) = c.settle (match c.firstUndeclared? names with
      | some n => .error (.undeclaredField n)
      | none => .ok { c with fields := c.fields.map (change (some names)) }))
    (h : restrict c toChange list = .ok c') (name : String) : c'.get? name = (c.get? name).map (change list) := by
  cases list with
  | none =>
    cases h
    rw [hnone, Option.map_id]
    rfl
  | some names =>
    have hrequired : c.require (toChange names) = .ok c' := h
    have hc := Catalog.settle_eq_ok ((hsome names).symm.trans (Catalog.require_eq_ok.1 hrequired))
    split at hc
    · cases hc
    · cases hc
      exact c.get?_map _ name

theorem get?_restrictFilters (h : restrict c .restrictFilters list = .ok c') (name : String) :
    c'.get? name = (c.get? name).map (Field.underFilters list) :=
  get?_restrict Field.underFilters rfl (fun _ => rfl) h name

theorem get?_restrictSorts (h : restrict c .restrictSorts list = .ok c') (name : String) :
    c'.get? name = (c.get? name).map (Field.underSorts list) :=
  get?_restrict Field.underSorts rfl (fun _ => rfl) h name

end ListQuery

/-! ## Definitions -/

/-- How a list of fields and the options of a field govern a flag of it. -/
structure Governs (list : Option (List String)) (said : Option Bool) (name : String) (flag : Bool) : Prop where
  unlisted : list = none → (flag = true ↔ said ≠ some false)
  listed : ∀ names, list = some names → (flag = true ↔ name ∈ names)
  /-- Both have to agree exactly if the list does not name what the options close. -/
  both : (flag = true ↔ (∀ names, list = some names → name ∈ names) ∧ said ≠ some false) ↔
    ∀ names, list = some names → name ∈ names → said ≠ some false

theorem governs_listed (list : Option (List String)) (said : Option Bool) (name : String) :
    Governs list said name (listed list name (said.getD true)) := by
  have hsaid : said.getD true = true ↔ said ≠ some false := by rcases said with _ | _ | _ <;> simp
  cases list with
  | none => exact ⟨fun _ => hsaid, by simp, by simp [listed, hsaid]⟩
  | some names =>
    refine ⟨by simp, by simp [listed], ?_⟩
    simp only [listed, List.contains_iff_mem, Option.some.injEq, forall_eq', iff_self_and]

/-- The field that a definition makes of a declared one. -/
def Definition.fieldOf (d : Definition) (f : Field) : Field :=
  ((f.customizedBy d.fields).underFilters d.filterable).underSorts d.sortable

namespace ListQuery

theorem get?_ofDefinition {d : Definition} {q : ListQuery} {c₀ c₁ c₂ : Catalog} (h : Steps d q c₀ c₁ c₂)
    {names : List String} (hc₀ : c₀.Declares names) (name : String) :
    q.catalog.get? name = (c₀.get? name).map d.fieldOf := by
  have hcustomized : c₁.get? name = (c₀.get? name).map (Field.customizedBy d.fields) := by
    rw [Catalog.customized_of_require hc₀ h.customized]
    exact c₀.get?_map _ name
  rw [get?_restrictSorts h.sorts, get?_restrictFilters h.filters, hcustomized, Option.map_map, Option.map_map]
  rfl

/-- A declared field is found, with everything allowed. -/
theorem exists_declared {s : Skeleton} {p : Platform} {c : Catalog} {columns : List Column}
    (hcolumns : s.columns = .ok columns) (hc : Catalog.ofSkeleton s p = .ok c) {name : String}
    (hname : name ∈ columns.map Column.name) :
    ∃ f, c.get? name = some f ∧ f.name = name ∧ f.filterable = true ∧ f.sortable = true := by
  have hdeclares := (Catalog.DerivedFrom.ofSkeleton hcolumns hc).declares
  have hmem : name ∈ c.fields.map Field.name := by
    rw [hdeclares.fields, Catalog.declaredNames, List.mem_eraseDups]
    exact hname
  obtain ⟨f, hf, hfname⟩ := List.mem_map.1 hmem
  refine ⟨f, hdeclares.get?_eq_some.2 ⟨hf, hfname⟩, hfname, ?_⟩
  obtain ⟨_, _, hc⟩ := bind_eq_ok.1 hc
  cases hc
  obtain ⟨g, hg, rfl⟩ := List.mem_map.1 hf
  obtain ⟨col, _, rfl⟩ := Catalog.mem_fields_ofColumns hg
  exact ⟨rfl, rfl⟩

/-- Each field that a definition declares may be filtered and sorted by as the definition's two lists say, where there
are such lists, and as the options of the field say, where there are none. -/
theorem surface_ofDefinition {d : Definition} {default : Platform} {q : ListQuery}
    (hq : ofDefinition d default = .ok q) :
    ∃ columns, d.skeleton.columns = .ok columns ∧ ∀ name ∈ columns.map Column.name, ∃ f, q.catalog.get? name = some f ∧
      Governs d.filterable (FieldOptions.said (·.filterable) d.fields name) name f.filterable ∧
      Governs d.sortable (FieldOptions.said (·.sortable) d.fields name) name f.sortable := by
  obtain ⟨c₀, c₁, c₂, h⟩ := exists_steps hq
  obtain ⟨columns, hcolumns, -⟩ := bind_eq_ok.1 h.declared
  refine ⟨columns, hcolumns, fun name hname => ?_⟩
  obtain ⟨f, hf, rfl, hfilterable, hsortable⟩ := exists_declared hcolumns h.declared hname
  refine ⟨d.fieldOf f, ?_, ?_, ?_⟩
  · rw [get?_ofDefinition h (Catalog.DerivedFrom.ofSkeleton hcolumns h.declared).declares, hf, Option.map_some]
  · have hflag : (d.fieldOf f).filterable = listed d.filterable f.name
        ((FieldOptions.said (·.filterable) d.fields f.name).getD true) := by
      rw [← hfilterable, ← Field.flag_customizedBy (fun _ _ => rfl), ← Field.name_customizedBy f]
      rfl
    rw [hflag]
    exact governs_listed _ _ _
  · have hflag : (d.fieldOf f).sortable = listed d.sortable f.name
        ((FieldOptions.said (·.sortable) d.fields f.name).getD true) := by
      rw [← hsortable, ← Field.flag_customizedBy (fun _ _ => rfl), ← Field.name_customizedBy f]
      rfl
    rw [hflag]
    exact governs_listed _ _ _

/-- Employees, whose salary is closed to filters by its options; sorts go by the name only. -/
def employees (filterable : Option (List String)) : Definition :=
  { skeleton := { select := ["e.name AS name", "e.salary AS salary"], table := "employee", tableAlias := some "e" }
    fields := [("salary", { filterable := some false })]
    filterable
    sortable := some ["name"] }

theorem surface_ofDefinition_employees :
    ∃ q, ofDefinition (employees none) .sqlite = .ok q ∧
      ∃ columns, (employees none).skeleton.columns = .ok columns ∧
        ∀ name ∈ columns.map Column.name, ∃ f, q.catalog.get? name = some f ∧
          Governs none (FieldOptions.said (·.filterable) [("salary", { filterable := some false })] name) name f.filterable ∧
          Governs (some ["name"]) (FieldOptions.said (·.sortable) [("salary", { filterable := some false })] name) name
            f.sortable := by
  have hok : (ofDefinition (employees none) .sqlite).isOk = true := by cbv
  obtain ⟨q, hq⟩ := exists_of_isOk hok
  exact ⟨q, hq, surface_ofDefinition hq⟩

/-- A list that names the salary opens it again, although its options close it. -/
theorem list_reopens :
    ((ofDefinition (employees (some ["name", "salary"])) .sqlite).toOption.map fun q =>
      q.catalog.allowsFilter "salary") = some true ∧
    FieldOptions.said (·.filterable) (employees (some ["name", "salary"])).fields "salary" = some false ∧
    ((ofDefinition (employees none) .sqlite).toOption.map fun q => q.catalog.allowsFilter "salary") = some false := by
  refine ⟨by cbv, by cbv, by cbv⟩

end ListQuery
end Listing
