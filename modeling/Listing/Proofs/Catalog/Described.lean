import Listing.Proofs.Catalog.Reachable
import Listing.Proofs.Filter.Walk
import Listing.Proofs.LastOfEach
import Listing.Query
/-!
# What clients are told

A catalog tells its clients which fields they may filter and sort by. It reads this off its fields in order,
while requests are checked through the index from names to positions. Both know the same names: the index has
each declared name once, at the place of its first declaration (`Declares`), and no change touches that. So
a condition or a sort is accepted if and only if the catalog tells of it (`describe_truthful`).
-/
namespace Listing

namespace Keyed

variable {α : Type}

theorem perm_place {key : String} {value : α} {es : List (String × α)} (h : key ∉ es.map Prod.fst) :
    (place key value es).Perm ((key, value) :: es) := by
  induction es with
  | nil => exact .refl _
  | cons e es ih =>
    obtain ⟨k, v⟩ := e
    simp only [List.map_cons, List.mem_cons, not_or] at h
    rw [place, if_neg h.1]
    split
    · exact .refl _
    · exact ((ih h.2).cons _).trans (.swap ..)

/-- Entries of different keys are all kept. -/
theorem perm_ofList {es : List (String × α)} (h : (es.map Prod.fst).Nodup) : (ofList es).Perm es := by
  have hfold : ∀ done : List (String × α), ((done ++ es).map Prod.fst).Nodup →
      (es.foldl (fun done (k, v) => place k v done) done).Perm (done ++ es) := by
    clear h
    induction es with
    | nil => simp
    | cons e es ih =>
      intro done h
      have hfresh : e.1 ∉ done.map Prod.fst := by
        rw [List.map_append, List.map_cons, List.nodup_append] at h
        exact fun hmem => h.2.2 e.1 hmem e.1 List.mem_cons_self rfl
      have hplace : (place e.1 e.2 done).Perm (e :: done) := perm_place hfresh
      have hmoved : (place e.1 e.2 done ++ es).Perm (done ++ e :: es) :=
        (hplace.append_right es).trans List.perm_middle.symm
      rw [List.foldl_cons]
      exact (ih _ ((hmoved.map Prod.fst).nodup_iff.2 h)).trans hmoved
  exact hfold [] h

end Keyed

namespace Catalog

/-! ## Declared names -/

/-- The names of columns in the order of their first declaration. -/
def declaredNames (columns : List Column) : List String := (columns.map Column.name).eraseDups

theorem getElem?_concat_eq_some {names : List String} {new name : String} {i : Nat} :
    (names ++ [new])[i]? = some name ↔ names[i]? = some name ∨ i = names.length ∧ new = name := by
  rw [List.getElem?_append]
  split
  · next hlt => simp [Nat.ne_of_lt hlt]
  · next hle =>
    rw [List.getElem?_eq_none (Nat.le_of_not_lt hle), List.getElem?_singleton]
    split <;> simp <;> omega

/-- The fields have the names, each once, and the index has the place of each. -/
structure Declares (c : Catalog) (names : List String) : Prop where
  fields : c.fields.map Field.name = names
  nodup : names.Nodup
  index : ∀ name (i : Nat), c.index[name]? = some i ↔ names[i]? = some name

variable {c c' : Catalog} {names : List String}

theorem Declares.of_sameNames (h : c.Declares names) (hsame : c.SameNames c') : c'.Declares names :=
  ⟨hsame.names.trans h.fields, h.nodup, by rw [hsame.index]; exact h.index⟩

theorem Declares.index_eq_none (h : c.Declares names) {name : String} : c.index[name]? = none ↔ name ∉ names := by
  constructor
  · intro hnone hmem
    obtain ⟨i, hi⟩ := List.getElem?_of_mem hmem
    rw [(h.index name i).2 hi] at hnone
    cases hnone
  · intro hmem
    rw [Option.eq_none_iff_forall_ne_some]
    exact fun i hi => hmem (List.mem_of_getElem? ((h.index name i).1 hi))

theorem declares_empty : empty.Declares [] := ⟨rfl, .nil, fun name i => by simp [empty]⟩

/-- A name that is declared again stays where it is, a new one comes last. -/
theorem Declares.declare (h : c.Declares names) (f : Field) :
    (c.declare f).Declares (if f.name ∈ names then names else names ++ [f.name]) := by
  unfold Catalog.declare
  cases hi : c.index[f.name]? with
  | some i =>
    have hplace := (h.index f.name i).1 hi
    rw [if_pos (List.mem_of_getElem? hplace)]
    refine h.of_sameNames ⟨rfl, ?_⟩
    obtain ⟨hlt, hget⟩ := List.getElem?_eq_some_iff.1 hplace
    simp only [← h.fields] at hlt hget
    rw [List.map_set, ← hget, List.set_getElem_self]
  | none =>
    have hfresh := h.index_eq_none.1 hi
    have hlength : c.fields.length = names.length := by rw [← h.fields, List.length_map]
    rw [if_neg hfresh]
    refine ⟨by simp [h.fields], List.nodup_append.2 ⟨h.nodup, by simp, fun a ha b hb hab => hfresh ?_⟩, fun name i => ?_⟩
    · rw [← List.mem_singleton.1 hb, ← hab]
      exact ha
    · rw [Std.HashMap.getElem?_insert, getElem?_concat_eq_some, hlength]
      by_cases hname : f.name = name
      · have hnone : names[i]? ≠ some name := fun hi => hfresh (hname ▸ List.mem_of_getElem? hi)
        simp [hname, hnone, eq_comm]
      · simp [hname, h.index]

theorem declares_ofColumns (columns : List Column) : (ofColumns columns).Declares (declaredNames columns) := by
  -- columns are declared from the front, so the last one is declared in the catalog of all before it
  induction columns using List.reverseRecOn with
  | nil => exact declares_empty
  | append_singleton columns col ih =>
    have hdeclare := ih.declare (.ofColumn col.name col.expression)
    have hnames : declaredNames (columns ++ [col]) =
        if col.name ∈ declaredNames columns then declaredNames columns
        else declaredNames columns ++ [col.name] := by
      simp only [declaredNames, List.map_append, List.map_singleton, eraseDups_concat, List.mem_eraseDups]
    rw [hnames, ofColumns, List.foldl_append]
    exact hdeclare

/-- The catalogs that changes of a catalog of columns lead to; a refused change may have been made in part. -/
inductive DerivedFrom (columns : List Column) : Catalog → Prop
  | ofColumns : DerivedFrom columns (ofColumns columns)
  | ofSkeleton {s : Skeleton} {p : Platform} {c : Catalog} (hcolumns : s.columns = .ok columns)
      (h : ofSkeleton s p = .ok c) : DerivedFrom columns c
  | apply {c : Catalog} (h : DerivedFrom columns c) (change : Change) : DerivedFrom columns (c.apply change).1

/-- All reachable catalogs come from some columns. -/
theorem reachable_iff {c : Catalog} : c.Reachable ↔ ∃ columns, c.DerivedFrom columns := by
  constructor
  · intro h
    induction h with
    | ofColumns columns => exact ⟨columns, .ofColumns⟩
    | ofSkeleton h =>
      obtain ⟨columns, hcolumns, _⟩ := bind_eq_ok.1 h
      exact ⟨columns, .ofSkeleton hcolumns h⟩
    | apply _ change ih =>
      obtain ⟨columns, h⟩ := ih
      exact ⟨columns, h.apply change⟩
  · rintro ⟨columns, h⟩
    induction h with
    | ofColumns => exact .ofColumns columns
    | ofSkeleton _ h => exact .ofSkeleton h
    | apply _ change ih => exact ih.apply change

theorem DerivedFrom.declares {columns : List Column} (h : c.DerivedFrom columns) :
    c.Declares (declaredNames columns) := by
  induction h with
  | ofColumns => exact declares_ofColumns columns
  | @ofSkeleton s p c hcolumns h =>
    obtain ⟨columns', hcolumns', hc⟩ := bind_eq_ok.1 h
    obtain rfl := Except.ok.inj (hcolumns.symm.trans hcolumns')
    cases hc
    refine (declares_ofColumns columns).of_sameNames ⟨rfl, ?_⟩
    rw [List.map_map]
    rfl
  | @apply c _ change ih => exact ih.of_sameNames (c.sameNames_apply change)

/-- Looking a name up finds the field of that name. -/
theorem Declares.get?_eq_some (h : c.Declares names) {name : String} {f : Field} :
    c.get? name = some f ↔ f ∈ c.fields ∧ f.name = name := by
  have hnames : ∀ i : Nat, names[i]? = some name ↔ ∃ g, c.fields[i]? = some g ∧ g.name = name := by
    intro i
    rw [← h.fields, List.getElem?_map, Option.map_eq_some_iff]
  rw [get?, Option.bind_eq_some_iff]
  constructor
  · rintro ⟨i, hi, hf⟩
    obtain ⟨g, hg, hname⟩ := (hnames i).1 ((h.index name i).1 hi)
    obtain rfl := Option.some.inj (hf.symm.trans hg)
    exact ⟨List.mem_of_getElem? hf, hname⟩
  · rintro ⟨hf, hname⟩
    obtain ⟨i, hi⟩ := List.getElem?_of_mem hf
    exact ⟨i, (h.index name i).2 ((hnames i).2 ⟨f, hi, hname⟩), hi⟩

/-! ## What is told -/

theorem Declares.nodup_names (h : c.Declares names) (allowed : Field → Bool) :
    ((c.fields.filter allowed).map Field.name).Nodup :=
  (h.fields ▸ h.nodup).sublist (List.filter_sublist.map Field.name)

/-- The filters that are told of are those of the fields that may be filtered by. -/
theorem perm_filters (h : c.Declares names) :
    c.describe.filters.Perm ((c.fields.filter (·.filterable)).map fun f => (f.name, f.operators)) := by
  refine Keyed.perm_ofList ?_
  rw [List.map_map]
  exact h.nodup_names _

theorem mem_filters (h : c.Declares names) {name : String} {ops : List Operator} :
    (name, ops) ∈ c.describe.filters ↔ ∃ f, c.get? name = some f ∧ f.filterable = true ∧ f.operators = ops := by
  rw [(perm_filters h).mem_iff, List.mem_map]
  constructor
  · rintro ⟨f, hf, hpair⟩
    obtain ⟨hf, hfilterable⟩ := List.mem_filter.1 hf
    cases hpair
    exact ⟨f, h.get?_eq_some.2 ⟨hf, rfl⟩, hfilterable, rfl⟩
  · rintro ⟨f, hf, hfilterable, rfl⟩
    obtain ⟨hmem, hname⟩ := h.get?_eq_some.1 hf
    exact ⟨f, List.mem_filter.2 ⟨hmem, hfilterable⟩, by rw [hname]⟩

theorem mem_sorts (h : c.Declares names) {name : String} :
    name ∈ c.describe.sorts ↔ ∃ f, c.get? name = some f ∧ f.sortable = true := by
  rw [describe, List.mem_map]
  constructor
  · rintro ⟨f, hf, rfl⟩
    obtain ⟨hf, hsortable⟩ := List.mem_filter.1 hf
    exact ⟨f, h.get?_eq_some.2 ⟨hf, rfl⟩, hsortable⟩
  · rintro ⟨f, hf, hsortable⟩
    obtain ⟨hf, hname⟩ := h.get?_eq_some.1 hf
    exact ⟨f, List.mem_filter.2 ⟨hf, hsortable⟩, hname⟩

theorem exists_checkFilter (h : c.Declares names) {name : String} {op : Operator} :
    (∃ f, c.checkFilter name op = .ok f) ↔ ∃ ops, (name, ops) ∈ c.describe.filters ∧ op ∈ ops := by
  constructor
  · rintro ⟨f, hf⟩
    obtain ⟨hf, hop⟩ := checkFilter_eq_ok.1 hf
    obtain ⟨hf, hfilterable⟩ := resolve_eq_ok.1 hf
    exact ⟨f.operators, (mem_filters h).2 ⟨f, hf, hfilterable, rfl⟩, List.contains_iff_mem.1 hop⟩
  · rintro ⟨ops, hops, hop⟩
    obtain ⟨f, hf, hfilterable, rfl⟩ := (mem_filters h).1 hops
    exact ⟨f, checkFilter_eq_ok.2 ⟨resolve_eq_ok.2 ⟨hf, hfilterable⟩, List.contains_iff_mem.2 hop⟩⟩

theorem exists_sortField (h : c.Declares names) {name : String} :
    (∃ f, c.sortField name = .ok f) ↔ name ∈ c.describe.sorts := by
  simp only [sortField_eq_ok, mem_sorts h]

end Catalog

/-! ## What is accepted -/

namespace Spec

open Json (Members)

/-- A filter with one condition: on its own, in an array or in a group. -/
inductive Single (name : String) (op : Operator) : Json → Prop
  | condition {ms : Members} (value : Json) (hplain : Json.member? "collection" ms = none)
      (hleaf : leafOf ms = .ok ⟨name, op, value⟩) : Single name op (.obj ms)
  | array {j : Json} (h : Single name op j) : Single name op (.arr [j])
  | group {ms : Members} {j : Json} (hgroup : Json.member? "collection" ms = some (.arr [j]))
      (h : Single name op j) : Single name op (.obj ms)

variable {c : Catalog} {name : String} {op : Operator} {j : Json}

theorem Single.isEntry (h : Single name op j) : isEntry j = true := by cases h <;> rfl

theorem validateItems_single (h : Single name op j) : validateItems c [j] = validate c j := by
  rw [validateItems_cons c h.isEntry, validateItems_nil]
  cases validate c j <;> rfl

/-- Its condition is checked, and nothing else. -/
theorem validate_single (h : Single name op j) : validate c j = (c.checkFilter name op).map fun _ => 1 := by
  induction h with
  | @condition ms value hplain hleaf =>
    have hne : ms ≠ [] := by
      rintro rfl
      cases hleaf
    rw [validate_condition c hne hplain, hleaf]
    cases hcheck : c.checkFilter name op <;> simp [hcheck] <;> rfl
  | array h ih => rw [validate_array, validateItems_single h, ih]
  | group hgroup h ih => rw [validate_group c hgroup, validateItems_single h, ih]

end Spec

namespace ListQuery

/-- A sort with a direction is accepted if its field may be sorted by. -/
theorem exists_sortKeys {c : Catalog} {wrapped : Bool} {s : SortBy} {d : Direction}
    (hdirection : Direction.parse s.field s.direction = .ok d) :
    (∃ order, sortKeys c wrapped [s] = .ok order) ↔ ∃ f, c.sortField s.field = .ok f := by
  constructor
  · rintro ⟨order, horder⟩
    obtain ⟨key, hkey, _⟩ := bind_eq_ok.1 horder
    obtain ⟨f, hf, _⟩ := bind_eq_ok.1 hkey
    exact ⟨f, hf⟩
  · rintro ⟨f, hf⟩
    have hkey : keyOf c wrapped s = .ok ⟨f.sortExpression wrapped, d⟩ := by
      rw [keyOf, hf, ok_bind, hdirection]
      rfl
    exact ⟨[⟨f.sortExpression wrapped, d⟩], by rw [sortKeys, keysFrom, hkey]; rfl⟩

end ListQuery

namespace Catalog

/-- What a catalog of columns tells its clients is what it accepts, name by name. -/
structure Truthful (c : Catalog) (columns : List Column) : Prop where
  filters : ∀ name op spec, Spec.Single name op spec →
    ((∃ count, Spec.validate c spec = .ok count) ↔ ∃ ops, (name, ops) ∈ c.describe.filters ∧ op ∈ ops)
  /-- No name has two lists of operators. -/
  keys : (c.describe.filters.map Prod.fst).Nodup
  sorts : ∀ s : SortBy, (∃ d, Direction.parse s.field s.direction = .ok d) → ∀ wrapped,
    ((∃ order, ListQuery.sortKeys c wrapped [s] = .ok order) ↔ s.field ∈ c.describe.sorts)
  nodup : c.describe.sorts.Nodup
  ordered : c.describe.sorts.Sublist (declaredNames columns)

/-- Whatever changes were made or refused, clients are told of exactly what is accepted. -/
theorem describe_truthful {c : Catalog} {columns : List Column} (h : c.DerivedFrom columns) : c.Truthful columns where
  filters := by
    intro name op spec hspec
    rw [← exists_checkFilter h.declares, Spec.validate_single hspec]
    simp only [map_eq_ok]
    constructor
    · rintro ⟨_, f, hf, _⟩
      exact ⟨f, hf⟩
    · rintro ⟨f, hf⟩
      exact ⟨1, f, hf, rfl⟩
  keys := by
    rw [((perm_filters h.declares).map Prod.fst).nodup_iff, List.map_map]
    exact h.declares.nodup_names _
  sorts := by
    rintro s ⟨d, hdirection⟩ wrapped
    rw [ListQuery.exists_sortKeys hdirection, exists_sortField h.declares]
  nodup := h.declares.nodup_names _
  ordered := by
    rw [← h.declares.fields]
    exact List.filter_sublist.map Field.name

/-- Columns of harbours, the name declared twice. -/
def harbourColumns : List Column := [⟨"name", "h.name"⟩, ⟨"depth", "h.depth"⟩, ⟨"name", "upper(h.name)"⟩]

/-- Harbours by depth: two changes are refused, one of them after its first field was changed. -/
def harbours : Catalog :=
  let changes : List Change := [
    .customize "depth" { operators := some [.greaterThan, .between], sortable := some false },
    .restrictSorts ["name", "pier"],
    .customizeAll [("name", { filterable := some false }), ("pier", {})]]
  changes.foldl (fun c change => (c.apply change).1) (ofColumns harbourColumns)

theorem describe_truthful_harbours : harbours.DerivedFrom harbourColumns ∧ harbours.Truthful harbourColumns := by
  have h : harbours.DerivedFrom harbourColumns := .apply (.apply (.apply .ofColumns _) _) _
  exact ⟨h, describe_truthful h⟩

example : harbours.describe.filters = [("depth", [.greaterThan, .between])] := by cbv

example : harbours.describe.sorts = ["name"] := by cbv

end Catalog
end Listing
