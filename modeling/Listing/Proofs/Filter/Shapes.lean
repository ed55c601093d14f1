import Listing.Proofs.Filter.Numbers
import Listing.Proofs.Filter.Placeholders
/-!
# Shapes of values

A range takes two values, a membership a list and every other operator a scalar. A value is checked for that
once its field has transformed it, and only from outside: a transform that makes lists of single items leaves
lists in the list (`shaped_of_ofField`), and each of them takes more than its one place in a statement.
-/
namespace Listing

namespace Operator

/-- What a value is for an operator when it is looked at from outside. -/
def Shaped (op : Operator) (v : Value) : Prop :=
  if op.isRange then ∃ low high, v = .list [low, high]
  else if op.isSetMembership then ∃ items, v = .list items
  else v.isList = false

/-- What an operator compares with: two scalars for a range, a list of scalars for a membership, and a scalar for
every other operator. -/
def Fits (op : Operator) (v : Value) : Prop :=
  if op.isRange then ∃ low high, v = .list [low, high] ∧ low.isList = false ∧ high.isList = false
  else if op.isSetMembership then ∃ items, v = .list items ∧ ∀ w ∈ items, w.isList = false
  else v.isList = false

section
variable {op : Operator} {v : Value}

theorem shaped_of_checkShape {field : String} (h : Predicate.checkShape field op v = .ok ()) : op.Shaped v := by
  unfold Shaped
  cases hrange : op.isRange with
  | true =>
    cases v with
    | list items =>
      simp only [Predicate.checkShape, hrange, if_true] at h
      split at h
      · next hlength =>
        obtain ⟨low, high, rfl⟩ := List.length_eq_two.1 hlength
        exact ⟨low, high, rfl⟩
      · cases h
    | null | bool | int | float | str => simp [Predicate.checkShape, hrange] at h
  | false =>
    cases hset : op.isSetMembership with
    | true =>
      cases v with
      | list items => exact ⟨items, rfl⟩
      | null | bool | int | float | str => simp [Predicate.checkShape, hrange, hset] at h
    | false =>
      cases v with
      | list items => simp [Predicate.checkShape, hrange, hset] at h
      | null | bool | int | float | str => rfl

/-- A value of the right shape fits if there is no list in it. -/
theorem fits_iff (h : op.Shaped v) : op.Fits v ↔ ∀ w ∈ Bound.slots v, w.isList = false := by
  unfold Fits
  unfold Shaped at h
  cases hrange : op.isRange with
  | true =>
    rw [if_pos hrange] at h
    obtain ⟨low, high, rfl⟩ := h
    simp [Bound.slots]
  | false =>
    rw [hrange, if_neg Bool.false_ne_true] at h
    cases hset : op.isSetMembership with
    | true =>
      rw [if_pos hset] at h
      obtain ⟨items, rfl⟩ := h
      simp [Bound.slots]
    | false =>
      rw [hset, if_neg Bool.false_ne_true] at h
      simp [Predicate.slots_of_isList h, h]

end

end Operator

theorem Value.isList_of_mem_slots {v w : Value} (hv : v.Flat) (hw : w ∈ Bound.slots v) : w.isList = false := by
  rcases hv with hscalar | ⟨items, rfl, hitems⟩
  · rw [Predicate.slots_of_isList hscalar, List.mem_singleton] at hw
    rw [hw, hscalar]
  · exact hitems w hw

namespace Predicate

variable {number : UInt32} {connective : Connective} {f : Field} {op : Operator} {raw : Json} {p : Predicate} {v : Value}

/-- A value is the one of the specification, or what the field's transform makes of it. -/
theorem value_cases (h : ofField number connective f op raw = .ok p) (hvalue : p.value = some v) :
    p.operator = op ∧ op.isNullCheck = false ∧ checkShape f.name op v = .ok () ∧
      ∃ u, Value.ofFilter raw = .ok u ∧
        (f.transform? = none ∧ v = u ∨ ∃ t, f.transform? = some t ∧ transformValue f.name t u = .ok v) := by
  obtain ⟨u, hu, h⟩ := bind_eq_ok.1 h
  obtain ⟨value, hfor, h⟩ := bind_eq_ok.1 h
  cases h
  obtain rfl : value = some v := hvalue
  unfold valueFor at hfor
  split at hfor
  · cases hfor
  · next hspeaks =>
    simp only [Bool.or_eq_true, not_or, Bool.not_eq_true] at hspeaks
    cases ht : f.transform? with
    | none =>
      rw [ht] at hfor
      obtain ⟨w, hw, hfor⟩ := bind_eq_ok.1 hfor
      obtain ⟨⟨⟩, hcheck, hfor⟩ := bind_eq_ok.1 hfor
      obtain rfl : u = w := Except.ok.inj hw
      obtain rfl : u = v := Option.some.inj (Except.ok.inj hfor)
      exact ⟨rfl, hspeaks.1, hcheck, u, hu, .inl ⟨rfl, rfl⟩⟩
    | some t =>
      rw [ht] at hfor
      obtain ⟨w, hw, hfor⟩ := bind_eq_ok.1 hfor
      obtain ⟨⟨⟩, hcheck, hfor⟩ := bind_eq_ok.1 hfor
      obtain rfl : w = v := Option.some.inj (Except.ok.inj hfor)
      exact ⟨rfl, hspeaks.1, hcheck, u, hu, .inr ⟨t, rfl, hw⟩⟩

theorem flat_of_ofField (h : ofField number connective f op raw = .ok p) (hvalue : p.value = some v)
    (hf : f.KeepsScalars) : v.Flat := by
  obtain ⟨-, -, -, u, hu, hv⟩ := value_cases h hvalue
  have hflat := Value.flat_ofFilter hu
  rcases hv with ⟨-, rfl⟩ | ⟨t, ht, hv⟩
  · exact hflat
  · exact flat_transformValue (hf.transform? ht) hflat hv

/-- A value that fits is bound place by place: both bounds of a range and a scalar in one place each. -/
theorem fills_of_fits (hfield : p.OnField f) (hvalue : p.value = some v) (hnull : p.operator.isNullCheck = false)
    (hfits : p.operator.Fits v) (q : Platform) {bag : Bag}
    (hentries : ∀ e ∈ p.parameters.entries, bag.get? e.1 = some e.2) :
    Bound.Fills q bag p.rendered.toList (fun before => (p.renderedAt q before).toList) p.values := by
  unfold Operator.Fits at hfits
  cases hrange : p.operator.isRange with
  | true =>
    rw [if_pos hrange] at hfits
    obtain ⟨low, high, rfl, hlow, hhigh⟩ := hfits
    exact fills_bounds hfield hentries hrange hvalue hlow hhigh
  | false =>
    rw [hrange, if_neg Bool.false_ne_true] at hfits
    cases hset : p.operator.isSetMembership with
    | true =>
      rw [if_pos hset] at hfits
      obtain ⟨items, rfl, -⟩ := hfits
      exact fills_items hfield hentries hset hvalue
    | false =>
      rw [hset, if_neg Bool.false_ne_true] at hfits
      exact fills_scalar hfield hentries hnull hrange hset hvalue hfits

/-- A parameter takes as many places as its value has items, and one if it is no list. -/
theorem fills_entry (hfield : p.OnField f) (hvalue : p.value = some v) (hnull : p.operator.isNullCheck = false)
    (hshaped : p.operator.Shaped v) (q : Platform) {bag : Bag} {name : String} {w : Value}
    (hmem : (name, w) ∈ p.parameters.entries) (hget : bag.get? name = some w) :
    Bound.Fills q bag name.toList (fun before => (Bound.placeholders q before (Bound.slots w).length).toList)
      (Bound.slots w) := by
  -- behind the base stands the number of a bound, or nothing
  suffices hsuffix : ∃ suffix : String, name = p.base ++ suffix ∧ suffix.toList.all Bound.isNameChar = true by
    obtain ⟨suffix, rfl, hchars⟩ := hsuffix
    exact fills_base hfield hchars hget
  unfold Operator.Shaped at hshaped
  cases hrange : p.operator.isRange with
  | true =>
    rw [if_pos hrange] at hshaped
    obtain ⟨low, high, rfl⟩ := hshaped
    rw [parameters_bounds hrange hvalue, List.mem_cons, List.mem_singleton] at hmem
    rcases hmem with hmem | hmem
    · exact ⟨"_0", congrArg Prod.fst hmem, by decide⟩
    · exact ⟨"_1", congrArg Prod.fst hmem, by decide⟩
  | false =>
    rw [parameters_scalar hnull hrange hvalue, List.mem_singleton] at hmem
    exact ⟨"", (congrArg Prod.fst hmem).trans String.append_empty.symm, rfl⟩

/-- The value of a predicate has the shape that its operator needs, and it fits if there is no list in it, as
when the field's transform answers scalars with scalars. Each parameter takes the places of its own value; if the
value fits, a range has two of them and a scalar one. -/
theorem shaped_of_ofField (h : ofField number connective f op raw = .ok p) (hvalue : p.value = some v) :
    op.Shaped v ∧ (op.Fits v ↔ ∀ w ∈ Bound.slots v, w.isList = false) ∧ (f.KeepsScalars → op.Fits v) ∧
    ∀ (q : Platform) (bag : Bag), (∀ e ∈ p.parameters.entries, bag.get? e.1 = some e.2) →
      (∀ e ∈ p.parameters.entries, Bound.Fills q bag e.1.toList
        (fun before => (Bound.placeholders q before (Bound.slots e.2).length).toList) (Bound.slots e.2)) ∧
      (op.Fits v →
        Bound.Fills q bag p.rendered.toList (fun before => (p.renderedAt q before).toList) p.values ∧
        (op.isSetMembership = false → p.values.length = if op.isRange then 2 else 1)) := by
  obtain ⟨rfl, hnull, hcheck, -⟩ := value_cases h hvalue
  have hshaped := Operator.shaped_of_checkShape hcheck
  have hfield := onField_of_ofField h
  refine ⟨hshaped, Operator.fits_iff hshaped, fun hf => ?_, fun q bag hentries => ⟨fun e he => ?_, fun hfits =>
    ⟨?_, fun hset => ?_⟩⟩⟩
  · exact (Operator.fits_iff hshaped).2 fun w hw => Value.isList_of_mem_slots (flat_of_ofField h hvalue hf) hw
  · exact fills_entry hfield hvalue hnull hshaped q he (hentries e he)
  · exact fills_of_fits hfield hvalue hnull hfits q hentries
  · unfold Operator.Shaped at hshaped
    unfold values
    split at hshaped
    · next hrange =>
      obtain ⟨low, high, rfl⟩ := hshaped
      simp [hvalue, hrange, Bound.slots]
    · next hrange => simp [hvalue, hrange, hset]

/-- Wines between two years. -/
def between (low high : Value) : Predicate :=
  ⟨1, .and, "w.year", "year", .between, some (.list [low, high]), false, ":year_1", none⟩

theorem parameters_between (low high : Value) :
    (between low high).parameters = ⟨[(":year_1_0", low), (":year_1_1", high)]⟩ :=
  parameters_bounds rfl rfl

/-- Two years are bound in two places. -/
theorem shaped_of_ofField_between :
    ofField 1 .and (.ofColumn "year" "w.year") .between (.arr [.int 1990, .int 1999]) =
      .ok (between (.int 1990) (.int 1999)) ∧
    (between (.int 1990) (.int 1999)).value = some (.list [.int 1990, .int 1999]) ∧
    Operator.between.Fits (.list [.int 1990, .int 1999]) ∧
    Platform.postgres.bind (between (.int 1990) (.int 1999)).rendered (between (.int 1990) (.int 1999)).parameters =
      ⟨"BETWEEN $1 AND $2", [.int 1990, .int 1999]⟩ := by
  have hmade : ofField 1 .and (.ofColumn "year" "w.year") .between (.arr [.int 1990, .int 1999]) =
      .ok (between (.int 1990) (.int 1999)) := rfl
  have hkeeps : (Field.ofColumn "year" "w.year").KeepsScalars := by
    intro t ht
    cases ht
  obtain ⟨-, -, hfits, hplaces⟩ := shaped_of_ofField hmade rfl
  have hentries : ∀ e ∈ (between (.int 1990) (.int 1999)).parameters.entries,
      (between (.int 1990) (.int 1999)).parameters.get? e.1 = some e.2 := by
    rw [parameters_between, List.forall_mem_cons, List.forall_mem_singleton]
    exact ⟨rfl, rfl⟩
  have hfills := ((hplaces .postgres _ hentries).2 (hfits hkeeps)).1
  refine ⟨hmade, rfl, hfits hkeeps, ?_⟩
  rw [Platform.bind, hfills.fill_eq]
  rfl

/-- A year that stands for its decade. -/
def decade : Field :=
  { Field.ofColumn "year" "w.year" with transform := some (Transform.const (.list [.int 1990, .int 1999])) }

/-- The bounds of a range are lists then. They are bound in four places, and no query has such a range. -/
theorem between_decades :
    ofField 1 .and decade .between (.arr [.int 1990, .int 1991]) =
      .ok (between (.list [.int 1990, .int 1999]) (.list [.int 1990, .int 1999])) ∧
    ¬ Operator.between.Fits (.list [.list [.int 1990, .int 1999], .list [.int 1990, .int 1999]]) ∧
    Platform.postgres.bind "w.year BETWEEN :year_1_0 AND :year_1_1"
      (between (.list [.int 1990, .int 1999]) (.list [.int 1990, .int 1999])).parameters =
      ⟨"w.year BETWEEN $1, $2 AND $3, $4", [.int 1990, .int 1999, .int 1990, .int 1999]⟩ := by
  refine ⟨rfl, ?_, ?_⟩
  · rintro ⟨low, high, hvalue, hlow, -⟩
    cases hvalue
    cases hlow
  · rw [parameters_between]
    rfl

end Predicate
end Listing
