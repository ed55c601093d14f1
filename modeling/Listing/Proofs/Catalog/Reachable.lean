import Listing.Catalog.Change
import Listing.Proofs.Outcome
/-!
# Reachable catalogs

A catalog hands out a field under a name if the field allows the use (`resolve_eq_ok`, `checkFilter_eq_ok`,
`sortField_eq_ok`). It comes from columns or from a skeleton and is changed step by step. In all catalogs
that are reached so the index leads from a name to the field of that name (`indexed_of_reachable`), so
what clients ask for by name is checked against that field and no other.
-/
namespace Listing.Catalog

/-! ## Looking fields up -/

/-- A field that is handed out if it allows a use. -/
theorem allowed_eq_ok {found : Option Field} {allows : Field → Bool} {e : Error} {f : Field} :
    (match found with
      | some f => if allows f then .ok f else .error e
      | none => .error e : Except Error Field) = .ok f ↔ found = some f ∧ allows f = true := by
  cases found with
  | none => simp
  | some g =>
    cases hg : allows g with
    | true =>
      constructor
      · intro h
        simp only [hg, if_true, Except.ok.injEq] at h
        exact ⟨congrArg some h, h ▸ hg⟩
      · rintro ⟨h, _⟩
        cases h
        simp only [hg, if_true]
    | false =>
      constructor
      · intro h
        simp [hg] at h
      · rintro ⟨h, hf⟩
        cases h
        rw [hg] at hf
        cases hf

theorem resolve_eq_ok {c : Catalog} {name : String} {f : Field} :
    c.resolve name = .ok f ↔ c.get? name = some f ∧ f.filterable = true := allowed_eq_ok

theorem sortField_eq_ok {c : Catalog} {name : String} {f : Field} :
    c.sortField name = .ok f ↔ c.get? name = some f ∧ f.sortable = true := allowed_eq_ok

theorem checkFilter_eq_ok {c : Catalog} {name : String} {op : Operator} {f : Field} :
    c.checkFilter name op = .ok f ↔ c.resolve name = .ok f ∧ f.allows op = true := by
  constructor
  · intro h
    obtain ⟨g, hg, h⟩ := bind_eq_ok.1 h
    split at h
    · next hop =>
      cases h
      exact ⟨hg, hop⟩
    · cases h
  · rintro ⟨hf, hop⟩
    refine bind_eq_ok.2 ⟨f, hf, ?_⟩
    rw [if_pos hop]
    rfl

/-! ## Names and the index -/

/-- The catalogs that changes lead to; a refused change may have been made in part. -/
inductive Reachable : Catalog → Prop
  | ofColumns (columns : List Column) : Reachable (ofColumns columns)
  | ofSkeleton {s : Skeleton} {p : Platform} {c : Catalog} (h : ofSkeleton s p = .ok c) : Reachable c
  | apply {c : Catalog} (h : Reachable c) (change : Change) : Reachable (c.apply change).1

/-- The index leads from every name in it to the field of that name. -/
def Indexed (c : Catalog) : Prop :=
  ∀ name i, c.index[name]? = some i → ∃ f : Field, c.fields[i]? = some f ∧ f.name = name

theorem Indexed.name_of_get? {c : Catalog} (h : c.Indexed) {name : String} {f : Field}
    (hf : c.get? name = some f) : f.name = name := by
  obtain ⟨i, hi, hfield⟩ := Option.bind_eq_some_iff.1 hf
  obtain ⟨g, hg, hname⟩ := h name i hi
  rw [hfield, Option.some.injEq] at hg
  rw [hg, hname]

theorem indexed_empty : empty.Indexed := by
  intro name i h
  simp [empty] at h

theorem mem_fields_of_get? {c : Catalog} {name : String} {f : Field} (h : c.get? name = some f) : f ∈ c.fields := by
  obtain ⟨i, _, hfield⟩ := Option.bind_eq_some_iff.1 h
  exact List.mem_of_getElem? hfield

theorem mem_fields_declare {c : Catalog} {f g : Field} (h : g ∈ (c.declare f).fields) : g = f ∨ g ∈ c.fields := by
  unfold declare at h
  split at h
  · exact (List.mem_or_eq_of_mem_set h).symm
  · simpa [or_comm] using h

/-- Every field of columns is that of a column. -/
theorem mem_fields_ofColumns {columns : List Column} {f : Field} (h : f ∈ (ofColumns columns).fields) :
    ∃ col ∈ columns, f = .ofColumn col.name col.expression := by
  have hfold : ∀ c : Catalog,
      f ∈ (columns.foldl (fun c col => c.declare (.ofColumn col.name col.expression)) c).fields →
      f ∈ c.fields ∨ ∃ col ∈ columns, f = .ofColumn col.name col.expression := by
    clear h
    induction columns with
    | nil => exact fun c h => .inl h
    | cons col rest ih =>
      intro c h
      rcases ih _ h with h | ⟨col', hcol', hf⟩
      · rcases mem_fields_declare h with hf | h
        · exact .inr ⟨col, List.mem_cons_self, hf⟩
        · exact .inl h
      · exact .inr ⟨col', List.mem_cons_of_mem col hcol', hf⟩
  rcases hfold empty h with h | h
  · cases h
  · exact h

/-- Both have fields of the same names in the same order, under the same index. -/
structure SameNames (c c' : Catalog) : Prop where
  index : c'.index = c.index
  names : c'.fields.map Field.name = c.fields.map Field.name

theorem SameNames.trans {c c' c'' : Catalog} (h : c.SameNames c') (h' : c'.SameNames c'') : c.SameNames c'' :=
  ⟨h'.index.trans h.index, h'.names.trans h.names⟩

/-- Changes of the fields that leave their names do not disturb the index. -/
theorem Indexed.of_sameNames {c c' : Catalog} (h : c.Indexed) (hsame : c.SameNames c') : c'.Indexed := by
  intro name i hi
  rw [hsame.index] at hi
  obtain ⟨f, hf, hname⟩ := h name i hi
  have hnames : (c'.fields.map Field.name)[i]? = some name := by
    rw [hsame.names, List.getElem?_map, hf, Option.map_some, hname]
  rw [List.getElem?_map] at hnames
  exact Option.map_eq_some_iff.1 hnames

theorem indexed_declare {c : Catalog} (h : c.Indexed) (f : Field) : (c.declare f).Indexed := by
  unfold declare
  cases hi : c.index[f.name]? with
  | some i =>
    obtain ⟨g, hg, hname⟩ := h f.name i hi
    refine h.of_sameNames ⟨rfl, ?_⟩
    have hplace : (c.fields.map Field.name)[i]? = some f.name := by
      rw [List.getElem?_map, hg, Option.map_some, hname]
    obtain ⟨hlt, hget⟩ := List.getElem?_eq_some_iff.1 hplace
    rw [List.map_set, ← hget, List.set_getElem_self]
  | none =>
    intro name j hj
    rw [Std.HashMap.getElem?_insert] at hj
    split at hj
    · next hname =>
      rw [← Option.some.inj hj]
      exact ⟨f, by simp, by simpa using hname⟩
    · obtain ⟨g, hg, hgname⟩ := h name j hj
      refine ⟨g, ?_, hgname⟩
      rw [List.getElem?_append_left (List.getElem?_eq_some_iff.1 hg).1, hg]

theorem indexed_ofColumns (columns : List Column) : (ofColumns columns).Indexed := by
  have hfold : ∀ c : Catalog, c.Indexed →
      (columns.foldl (fun c col => c.declare (.ofColumn col.name col.expression)) c).Indexed := by
    induction columns with
    | nil => exact fun c h => h
    | cons col rest ih => exact fun c h => ih _ (indexed_declare h _)
  exact hfold empty indexed_empty

/-! ## Changes -/

/-- The change of a field leaves its names. -/
def KeepsNames (change : Field → Field) : Prop :=
  ∀ f, (change f).name = f.name ∧ (change f).outputName = f.outputName

section
variable {P : Catalog → Prop}

theorem settle_induction {c : Catalog} (h : P c) {x : Except Error Catalog} (hx : ∀ c', x = .ok c' → P c') :
    P (c.settle x).1 := by
  cases x with
  | ok c' => exact hx c' rfl
  | error e => exact h

/-- A restriction looks for its names first and then changes every field. -/
theorem restrict_induction
    (hmap : ∀ {c change}, KeepsNames change → P c → P { c with fields := c.fields.map change })
    {c c' : Catalog} (h : P c) {names : List String} {change : Field → Field} (hchange : KeepsNames change)
    (hc : (match c.firstUndeclared? names with
      | some n => .error (.undeclaredField n)
      | none => .ok { c with fields := c.fields.map change } : Except Error Catalog) = .ok c') : P c' := by
  cases hn : c.firstUndeclared? names with
  | some n => rw [hn] at hc; cases hc
  | none =>
    rw [hn] at hc
    cases hc
    exact hmap hchange h

/-- What changes of one field and of all fields preserve, if they leave the names, every change preserves,
even if it is refused on the way. -/
theorem apply_induction
    (hmodify : ∀ {c c' name change}, KeepsNames change → P c → c.modify name change = .ok c' → P c')
    (hmap : ∀ {c change}, KeepsNames change → P c → P { c with fields := c.fields.map change })
    {c : Catalog} (h : P c) (change : Change) : P (c.apply change).1 := by
  have hkeeps : ∀ o : FieldOptions, KeepsNames o.apply := fun _ _ => ⟨rfl, rfl⟩
  cases change with
  | customize name o => exact settle_induction h fun c' hc => hmodify (hkeeps o) h hc
  | customizeAll options =>
    rw [apply]
    induction options generalizing c with
    | nil => exact h
    | cons o rest ih =>
      obtain ⟨name, o⟩ := o
      rw [customizeAll]
      cases hc : c.customize name o with
      | ok c' => exact ih (hmodify (hkeeps o) h hc)
      | error e => exact h
  | restrictFilters names =>
    refine settle_induction h fun c' hc => restrict_induction hmap h ?_ hc
    exact fun _ => ⟨rfl, rfl⟩
  | restrictSorts names =>
    refine settle_induction h fun c' hc => restrict_induction hmap h ?_ hc
    exact fun _ => ⟨rfl, rfl⟩
  | setRenderer name r =>
    refine settle_induction h fun c' hc => hmodify ?_ h hc
    exact fun _ => ⟨rfl, rfl⟩
  | setTransform name t =>
    refine settle_induction h fun c' hc => hmodify ?_ h hc
    exact fun _ => ⟨rfl, rfl⟩

end

theorem sameNames_map (c : Catalog) {change : Field → Field} (hchange : KeepsNames change) :
    c.SameNames { c with fields := c.fields.map change } := by
  refine ⟨rfl, ?_⟩
  rw [List.map_map]
  exact List.map_congr_left fun f _ => (hchange f).1

theorem sameNames_modify {c c' : Catalog} {name : String} {change : Field → Field} (hchange : KeepsNames change)
    (hc : c.modify name change = .ok c') : c.SameNames c' := by
  unfold modify at hc
  cases hi : c.index[name]? with
  | none => rw [hi] at hc; cases hc
  | some i =>
    rw [hi] at hc
    cases hc
    refine ⟨rfl, List.ext_getElem? fun j => ?_⟩
    rw [List.getElem?_map, List.getElem?_map, List.getElem?_modify]
    cases c.fields[j]? with
    | none => rfl
    | some f =>
      by_cases hij : i = j
      · simp [hij, (hchange f).1]
      · simp [hij]

/-- No change touches a name, the order of the names or their index, even if it is refused on the way. -/
theorem sameNames_apply (c : Catalog) (change : Change) : c.SameNames (c.apply change).1 :=
  apply_induction (fun hchange h hc => h.trans (sameNames_modify hchange hc))
    (fun hchange h => h.trans (sameNames_map _ hchange)) ⟨rfl, rfl⟩ change

theorem indexed_of_reachable {c : Catalog} (h : c.Reachable) : c.Indexed := by
  induction h with
  | ofColumns columns => exact indexed_ofColumns columns
  | @ofSkeleton s p c h =>
    obtain ⟨columns, _, hc⟩ := bind_eq_ok.1 h
    cases hc
    refine (indexed_ofColumns columns).of_sameNames ⟨rfl, ?_⟩
    rw [List.map_map]
    rfl
  | @apply c _ change ih => exact ih.of_sameNames (c.sameNames_apply change)

end Listing.Catalog
