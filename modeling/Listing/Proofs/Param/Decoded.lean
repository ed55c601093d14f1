import Listing.Param.Value
import Listing.Proofs.Outcome
import Mathlib
/-!
# Two ways of reading a value

A filter reads its values by `ofFilter`, everything else by `ofJson?`, which tries one kind of value after the
other (`ofJson?_eq_findSome?`) and lets lists stand in lists. The two agree on all values without such lists, and both
read what is written for a value as that value (`ofFilter_iff_ofJson?`).
-/
namespace Listing.Value

/-- A scalar or a list of scalars. -/
def Flat (v : Value) : Prop := v.isList = false ∨ ∃ items, v = .list items ∧ ∀ w ∈ items, w.isList = false

/-! ## Scalars and lists of them -/

theorem ofInt_of_fits {n : Int} (h : Int64.minValue.toInt ≤ n ∧ n ≤ Int64.maxValue.toInt) :
    ofInt n = .int (.ofInt n) := if_pos h

theorem ofInt_of_not_fits {n : Int} (h : ¬ (Int64.minValue.toInt ≤ n ∧ n ≤ Int64.maxValue.toInt)) :
    ofInt n = .float (.ofInt n) := if_neg h

theorem isList_ofInt (n : Int) : (ofInt n).isList = false := by
  unfold ofInt
  split <;> rfl

/-- Only lists are read as lists. -/
theorem isList_of_ofJson? {j : Json} {v : Value} (hj : ∀ items, j ≠ .arr items) (h : ofJson? j = some v) :
    v.isList = false := by
  cases j with
  | arr items => exact absurd rfl (hj items)
  | int n =>
    cases h
    exact isList_ofInt n
  | _ => cases h <;> rfl

/-- Outside of lists both ways read the same. -/
theorem scalar?_eq {j : Json} (hj : ∀ items, j ≠ .arr items) : scalar? j = ofJson? j := by
  cases j with
  | arr items => exact absurd rfl (hj items)
  | _ => rfl

theorem scalar?_eq_some {j : Json} {v : Value} : scalar? j = some v ↔ ofJson? j = some v ∧ v.isList = false := by
  by_cases hj : ∀ items, j ≠ .arr items
  · rw [scalar?_eq hj]
    exact (and_iff_left_of_imp (isList_of_ofJson? hj)).symm
  · obtain ⟨items, rfl⟩ := Classical.not_forall_not.1 hj
    refine iff_of_false nofun ?_
    rintro ⟨h, hlist⟩
    rw [ofJson?, Option.map_eq_some_iff] at h
    obtain ⟨items, -, rfl⟩ := h
    cases hlist

theorem isList_of_scalar? {j : Json} {v : Value} (h : scalar? j = some v) : v.isList = false := (scalar?_eq_some.1 h).2

theorem ofItems?_cons {j : Json} {js : List Json} {vs : List Value} :
    ofItems? (j :: js) = some vs ↔ ∃ v ws, ofJson? j = some v ∧ ofItems? js = some ws ∧ vs = v :: ws := by
  rw [ofItems?]
  cases ofJson? j with
  | none => simp
  | some v =>
    cases ofItems? js with
    | none => simp
    | some ws => simp [eq_comm]

theorem scalars_cons {j : Json} {js : List Json} {vs : List Value} :
    scalars (j :: js) = .ok vs ↔ ∃ v ws, scalar? j = some v ∧ scalars js = .ok ws ∧ vs = v :: ws := by
  rw [scalars]
  cases scalar? j with
  | none => simp
  | some v => simp only [map_eq_ok, Option.some.injEq, exists_and_left, exists_eq_left', @eq_comm _ vs]

theorem scalars_eq_ok {js : List Json} {vs : List Value} :
    scalars js = .ok vs ↔ ofItems? js = some vs ∧ ∀ v ∈ vs, v.isList = false := by
  induction js generalizing vs with
  | nil =>
    constructor
    · rintro ⟨⟩
      exact ⟨rfl, nofun⟩
    · rintro ⟨⟨⟩, -⟩
      rfl
  | cons j js ih =>
    rw [scalars_cons, ofItems?_cons]
    constructor
    · rintro ⟨v, ws, hv, hws, rfl⟩
      obtain ⟨hread, hlist⟩ := scalar?_eq_some.1 hv
      obtain ⟨hrest, hlists⟩ := ih.1 hws
      exact ⟨⟨v, ws, hread, hrest, rfl⟩, List.forall_mem_cons.2 ⟨hlist, hlists⟩⟩
    · rintro ⟨⟨v, ws, hread, hrest, rfl⟩, hlists⟩
      obtain ⟨hlist, hlists⟩ := List.forall_mem_cons.1 hlists
      exact ⟨v, ws, scalar?_eq_some.2 ⟨hread, hlist⟩, ih.2 ⟨hrest, hlists⟩, rfl⟩

theorem ofFilter_array {items : List Json} {v : Value} :
    ofFilter (.arr items) = .ok v ↔ ofJson? (.arr items) = some v ∧ v.Flat := by
  rw [ofFilter, map_eq_ok, ofJson?, Option.map_eq_some_iff]
  constructor
  · rintro ⟨vs, hvs, rfl⟩
    obtain ⟨hread, hlists⟩ := scalars_eq_ok.1 hvs
    exact ⟨⟨vs, hread, rfl⟩, .inr ⟨vs, rfl, hlists⟩⟩
  · rintro ⟨⟨vs, hread, rfl⟩, hflat⟩
    obtain ⟨ws, hws, hlists⟩ := hflat.resolve_left nofun
    cases hws
    exact ⟨vs, scalars_eq_ok.2 ⟨hread, hlists⟩, rfl⟩

/-- Outside of lists a filter takes scalars alone. -/
theorem ofFilter_scalar {j : Json} {v : Value} (hj : ∀ items, j ≠ .arr items) :
    ofFilter j = .ok v ↔ scalar? j = some v := by
  cases j with
  | arr items => exact absurd rfl (hj items)
  | obj => exact iff_of_false nofun nofun
  | null | bool | int | float | str => exact (Except.ok.injEq _ _).to_iff.trans (Option.some.injEq _ _).to_iff.symm

/-- A filter takes the values that are read without lists in lists. -/
theorem ofFilter_eq_ok {j : Json} {v : Value} : ofFilter j = .ok v ↔ ofJson? j = some v ∧ v.Flat := by
  by_cases hj : ∀ items, j ≠ .arr items
  · rw [ofFilter_scalar hj, scalar?_eq hj]
    refine (and_iff_left_of_imp fun hread => ?_).symm
    exact .inl (isList_of_ofJson? hj hread)
  · obtain ⟨items, rfl⟩ := Classical.not_forall_not.1 hj
    exact ofFilter_array

theorem flat_ofFilter {j : Json} {v : Value} (h : ofFilter j = .ok v) : v.Flat := (ofFilter_eq_ok.1 h).2

/-! ## One kind after the other -/

def nullOf? : Json → Option Value
  | .null => some .null
  | _ => none

def boolOf? : Json → Option Value
  | .bool b => some (.bool b)
  | _ => none

/-- A whole number that 64 signed bits hold. -/
def integerOf? : Json → Option Value
  | .int n => if Int64.minValue.toInt ≤ n ∧ n ≤ Int64.maxValue.toInt then some (.int (.ofInt n)) else none
  | _ => none

/-- Any number, whole or not. -/
def doubleOf? : Json → Option Value
  | .int n => some (.float (.ofInt n))
  | .float x => some (.float x)
  | _ => none

def textOf? : Json → Option Value
  | .str s => some (.str s)
  | _ => none

def listOf? : Json → Option Value
  | .arr items => (items.mapM ofJson?).map .list
  | _ => none

/-- The readers of the kinds of value in the order in which they are tried. -/
def readers : List (Json → Option Value) := [nullOf?, boolOf?, integerOf?, doubleOf?, textOf?, listOf?]

theorem ofItems?_eq_mapM (js : List Json) : ofItems? js = js.mapM ofJson? := by
  induction js with
  | nil => rfl
  | cons j js ih =>
    rw [ofItems?, ih, List.mapM_cons]
    cases ofJson? j <;> cases js.mapM ofJson? <;> rfl

/-- The value of a document is that of the first reader that takes it. -/
theorem ofJson?_eq_findSome? (j : Json) : ofJson? j = readers.findSome? (· j) := by
  cases j with
  | int n =>
    by_cases h : Int64.minValue.toInt ≤ n ∧ n ≤ Int64.maxValue.toInt
    · have hinteger : integerOf? (.int n) = some (.int (.ofInt n)) := if_pos h
      rw [ofJson?, ofInt_of_fits h]
      simp only [readers, List.findSome?_cons, nullOf?, boolOf?, hinteger]
    · have hinteger : integerOf? (.int n) = none := if_neg h
      rw [ofJson?, ofInt_of_not_fits h]
      simp only [readers, List.findSome?_cons, nullOf?, boolOf?, hinteger, doubleOf?]
  | arr items =>
    have hlist : listOf? (.arr items) = ofJson? (.arr items) := by rw [listOf?, ofJson?, ofItems?_eq_mapM]
    simp only [readers, List.findSome?_cons, nullOf?, boolOf?, integerOf?, doubleOf?, textOf?, hlist]
    cases ofJson? (.arr items) <;> rfl
  | _ => rfl

/-! ## Writing and reading back -/

mutual

/-- Every double in the value is a number. -/
def Finite : Value → Prop
  | .float x => x.isFinite = true
  | .list items => AllFinite items
  | _ => True

def AllFinite : List Value → Prop
  | [] => True
  | v :: rest => v.Finite ∧ AllFinite rest

end

theorem ofInt_toInt (n : Int64) : ofInt n.toInt = .int n := by
  rw [ofInt_of_fits ⟨Int64.minValue_le_toInt n, n.toInt_le⟩, Int64.ofInt_toInt]

mutual

/-- What is written for a value is read as that value. -/
theorem ofJson?_toJson : ∀ v : Value, v.Finite → ofJson? v.toJson = some v
  | .null, _ | .bool _, _ | .str _, _ => rfl
  | .int n, _ => by rw [toJson, ofJson?, ofInt_toInt]
  | .float x, h => by rw [toJson, if_pos (show x.isFinite = true from h), ofJson?]
  | .list items, h => by rw [toJson, ofJson?, ofItems?_toItems items h, Option.map_some]

theorem ofItems?_toItems : ∀ vs : List Value, AllFinite vs → ofItems? (toItems vs) = some vs
  | [], _ => rfl
  | v :: rest, h => ofItems?_cons.2 ⟨v, rest, ofJson?_toJson v h.1, ofItems?_toItems rest h.2, rfl⟩

end

/-- Both ways read the same values but for lists in lists, which a filter refuses, and what is written for a value
is read as that value by both. A whole number is read as that integer if 64 signed bits hold it, and else as a double
like any other number. -/
theorem ofFilter_iff_ofJson? :
    (∀ j v, ofFilter j = .ok v ↔ ofJson? j = some v ∧ v.Flat) ∧
    (∀ j, ofJson? j = readers.findSome? (· j)) ∧
    (∀ v : Value, v.Flat → v.Finite → ofFilter v.toJson = .ok v ∧ ofJson? v.toJson = some v) ∧
    (∀ n : Int, Int64.minValue.toInt ≤ n ∧ n ≤ Int64.maxValue.toInt → (Int64.ofInt n).toInt = n ∧
      ofFilter (.int n) = .ok (.int (.ofInt n)) ∧ ofJson? (.int n) = some (.int (.ofInt n))) ∧
    (∀ n : Int, ¬ (Int64.minValue.toInt ≤ n ∧ n ≤ Int64.maxValue.toInt) →
      ofFilter (.int n) = .ok (.float (.ofInt n)) ∧ ofJson? (.int n) = some (.float (.ofInt n))) ∧
    ∀ x, ofFilter (.float x) = .ok (.float x) ∧ ofJson? (.float x) = some (.float x) := by
  -- scalars pass the filter as they are read
  have hscalar : ∀ {j v}, ofJson? j = some v → v.isList = false → ofFilter j = .ok v := fun hread hlist =>
    ofFilter_eq_ok.2 ⟨hread, .inl hlist⟩
  refine ⟨fun j v => ofFilter_eq_ok, ofJson?_eq_findSome?, fun v hflat hfinite => ?_, fun n hn => ?_, fun n hn => ?_,
    fun x => ⟨rfl, rfl⟩⟩
  · have hread := ofJson?_toJson v hfinite
    exact ⟨ofFilter_eq_ok.2 ⟨hread, hflat⟩, hread⟩
  · have hread : ofJson? (.int n) = some (.int (.ofInt n)) := congrArg some (ofInt_of_fits hn)
    exact ⟨Int64.toInt_ofInt_of_le hn.1 (Int.lt_add_one_of_le hn.2), hscalar hread rfl, hread⟩
  · have hread : ofJson? (.int n) = some (.float (.ofInt n)) := congrArg some (ofInt_of_not_fits hn)
    exact ⟨hscalar hread rfl, hread⟩

/-- Integers at both ends of their range, the first whole number beyond it, a double that is whole, and a list in a
list. -/
theorem ofFilter_iff_ofJson?_limits :
    let ends : Value := .list [.int Int64.minValue, .int Int64.maxValue, .float ⟨0x4008000000000000⟩]
    ends.Flat ∧ ends.Finite ∧ ofFilter ends.toJson = .ok ends ∧ ofJson? ends.toJson = some ends ∧
    ¬ ((2 : Int) ^ 63 ≤ Int64.maxValue.toInt) ∧ ofFilter (.int (2 ^ 63)) = .ok (.float ⟨0x43e0000000000000⟩) ∧
    ofJson? (.arr [.arr []]) = some (.list [.list []]) ∧ ∀ v, ofFilter (.arr [.arr []]) ≠ .ok v := by
  intro ends
  have hflat : ends.Flat := .inr ⟨_, rfl, by simp [isList]⟩
  have hfinite : ends.Finite := ⟨trivial, trivial, rfl, trivial⟩
  obtain ⟨hiff, -, hback, -, hbeyond, -⟩ := ofFilter_iff_ofJson?
  obtain ⟨hfilter, hread⟩ := hback ends hflat hfinite
  have htoo : ¬ ((2 : Int) ^ 63 ≤ Int64.maxValue.toInt) := by decide
  refine ⟨hflat, hfinite, hfilter, hread, htoo, ?_, rfl, fun v hv => ?_⟩
  · have hdouble : Double.ofInt (2 ^ 63) = ⟨0x43e0000000000000⟩ := by decide +kernel
    rw [← hdouble]
    exact (hbeyond _ fun h => htoo h.2).1
  · obtain ⟨hv, hflat⟩ := (hiff _ v).1 hv
    cases hv
    rcases hflat with hlist | ⟨items, hitems, hlists⟩
    · cases hlist
    · cases hitems
      cases hlists _ List.mem_cons_self

end Listing.Value
