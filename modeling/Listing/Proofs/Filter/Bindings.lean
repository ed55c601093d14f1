import Listing.Proofs.Filter.Comparison
import Listing.Proofs.Param.Decoded
/-!
# What predicates bind

A predicate whose field makes no lists of scalars has the two bounds of a range to compare with, the items
of a list, one scalar or nothing (`takes_of_ofField`). These are its values, and each way of comparing has
its parameters.
-/
namespace Listing

/-! ## Scalars -/

/-- A transform makes no lists of scalars. -/
def Transform.KeepsScalars (t : Transform) : Prop :=
  ∀ v w, v.isList = false → t v = .ok w → w.isList = false

theorem Transform.keepsScalars_lowercase : Transform.lowercase.KeepsScalars := by
  intro v w hv hw
  cases v <;> cases hw <;> first | rfl | exact hv

/-- The field's values stay scalars, whatever else is done to them. -/
def Field.KeepsScalars (f : Field) : Prop := ∀ t, f.transform = some t → t.KeepsScalars

theorem Field.KeepsScalars.transform? {f : Field} (h : f.KeepsScalars) {t : Transform} (ht : f.transform? = some t) :
    t.KeepsScalars := by
  unfold Field.transform? at ht
  cases hown : f.transform with
  | some own =>
    rw [hown, Option.some_or, Option.some.injEq] at ht
    exact ht ▸ h own hown
  | none =>
    rw [hown, Option.none_or] at ht
    split at ht
    · cases ht; exact Transform.keepsScalars_lowercase
    · cases ht

namespace Operator

theorem isNullCheck_of_isRange {op : Operator} (h : op.isRange = true) : op.isNullCheck = false := by
  cases op <;> first | rfl | cases h

theorem isNullCheck_of_isSetMembership {op : Operator} (h : op.isSetMembership = true) :
    op.isNullCheck = false ∧ op.isRange = false := by
  cases op <;> first | exact ⟨rfl, rfl⟩ | cases h

end Operator

namespace Predicate

section
variable {field : String} {t : Transform} {P Q : Value → Prop} (ht : ∀ v w, P v → t v = .ok w → Q w)
include ht

theorem of_transformScalar {v w : Value} (hv : P v) (h : transformScalar field t v = .ok w) : Q w := by
  unfold transformScalar at h
  split at h
  · next hw => cases h; exact ht v w hv hw
  · cases h

/-- What a transform answers item by item. -/
theorem forall_of_transformAll {vs ws : List Value} (hvs : ∀ v ∈ vs, P v) (h : transformAll field t vs = .ok ws) :
    ∀ w ∈ ws, Q w := by
  induction vs generalizing ws with
  | nil => cases h; simp
  | cons v vs ih =>
    obtain ⟨hv, hvs⟩ := List.forall_mem_cons.1 hvs
    obtain ⟨w, hw, h⟩ := bind_eq_ok.1 h
    obtain ⟨ws', hws', h⟩ := bind_eq_ok.1 h
    cases h
    exact List.forall_mem_cons.2 ⟨of_transformScalar ht hv hw, ih hvs hws'⟩

end

theorem transformValue_scalar {field : String} {t : Transform} {v : Value} (hv : v.isList = false) :
    transformValue field t v = transformScalar field t v := by
  cases v with
  | list items => cases hv
  | _ => rfl

theorem flat_transformValue {field : String} {t : Transform} (ht : t.KeepsScalars) {v w : Value} (hv : v.Flat)
    (h : transformValue field t v = .ok w) : w.Flat := by
  rcases hv with hv | ⟨items, rfl, hitems⟩
  · rw [transformValue_scalar hv] at h
    exact .inl (of_transformScalar ht hv h)
  · obtain ⟨ws, hws, rfl⟩ := map_eq_ok.1 h
    exact .inr ⟨ws, rfl, forall_of_transformAll ht hitems hws⟩

/-! ## Values of a predicate -/

/-- What a predicate has to compare with, by its operator. -/
inductive Takes (p : Predicate) : Prop
  | nothing (hvalue : p.value = none)
  | bounds (low high : Value) (hrange : p.operator.isRange = true) (hvalue : p.value = some (.list [low, high]))
      (hlow : low.isList = false) (hhigh : high.isList = false)
  | items (items : List Value) (hset : p.operator.isSetMembership = true) (hvalue : p.value = some (.list items))
  | scalar (v : Value) (hnull : p.operator.isNullCheck = false) (hrange : p.operator.isRange = false)
      (hset : p.operator.isSetMembership = false) (hvalue : p.value = some v) (hscalar : v.isList = false)

/-- The values that a predicate binds: bounds and items one by one, any other value as a pattern of the LIKE
family or as it is. -/
def values (p : Predicate) : List Value :=
  match p.value with
  | none => []
  | some v =>
    if p.operator.isRange || p.operator.isSetMembership then Bound.slots v else [bindable p.operator v]

theorem takes_of_checkShape {p : Predicate} {field : String} {v : Value} (hvalue : p.value = some v) (hv : v.Flat)
    (hnull : p.operator.isNullCheck = false) (h : checkShape field p.operator v = .ok ()) : p.Takes := by
  rcases hv with hv | ⟨items, rfl, hitems⟩
  · have hshape : p.operator.isRange = false ∧ p.operator.isSetMembership = false := by
      unfold checkShape at h
      split at h
      · cases hv
      · split at h
        · cases h
        · next hrange =>
          split at h
          · cases h
          · next hset => exact ⟨by simpa using hrange, by simpa using hset⟩
    exact .scalar v hnull hshape.1 hshape.2 hvalue hv
  · simp only [checkShape] at h
    split at h
    · next hrange =>
      split at h
      · next hlength =>
        match items, hlength with
        | [low, high], _ => exact .bounds low high hrange hvalue (hitems low (by simp)) (hitems high (by simp))
      · cases h
    · split at h
      · next hset => exact .items items hset hvalue
      · cases h

theorem takes_of_ofField {number : UInt32} {connective : Connective} {f : Field} {op : Operator} {raw : Json}
    {p : Predicate} (hf : f.KeepsScalars) (h : ofField number connective f op raw = .ok p) : p.Takes := by
  obtain ⟨v, hv, h⟩ := bind_eq_ok.1 h
  obtain ⟨value, hvalue, h⟩ := bind_eq_ok.1 h
  cases h
  unfold valueFor at hvalue
  split at hvalue
  · cases hvalue
    exact .nothing rfl
  · next hspeaks =>
    have hnull : op.isNullCheck = false := by
      simp only [Bool.or_eq_true, not_or, Bool.not_eq_true] at hspeaks
      exact hspeaks.1
    have hflat := Value.flat_ofFilter hv
    have htakes : ∀ w : Value, w.Flat → (do checkShape f.name op w; return some w) = Except.ok value →
        Takes { number, connective, operator := op, value, inner := f.expression, outer := f.outputName,
                aggregated := f.aggregated, base := baseName f.name number, renderer := f.renderer? } := by
      intro w hw hvalue
      obtain ⟨⟨⟩, hshape, hvalue⟩ := bind_eq_ok.1 hvalue
      cases hvalue
      exact takes_of_checkShape rfl hw hnull hshape
    cases ht : f.transform? with
    | some t =>
      rw [ht] at hvalue
      obtain ⟨w, hw, hvalue⟩ := bind_eq_ok.1 hvalue
      exact htakes w (flat_transformValue (hf.transform? ht) hflat hw) hvalue
    | none =>
      rw [ht] at hvalue
      exact htakes v hflat hvalue

theorem slots_of_isList {v : Value} (h : v.isList = false) : Bound.slots v = [v] := by
  cases v with
  | list items => cases h
  | _ => rfl

theorem isList_bindable {op : Operator} {v : Value} (h : v.isList = false) : (bindable op v).isList = false := by
  unfold bindable
  split
  · rfl
  · exact h

/-! ## Parameters of a predicate -/

theorem parameters_bounds {p : Predicate} {low high : Value} (hrange : p.operator.isRange = true)
    (hvalue : p.value = some (.list [low, high])) :
    p.parameters = ⟨[(p.base ++ "_0", low), (p.base ++ "_1", high)]⟩ := by
  have hzero : p.base ++ "_" ++ toString 0 = p.base ++ "_0" := by rw [String.append_assoc]; rfl
  have hone : p.base ++ "_" ++ toString 1 = p.base ++ "_1" := by rw [String.append_assoc]; rfl
  have hother : p.base ++ "_0" ≠ p.base ++ "_1" := by
    intro h
    have h' := congrArg String.toList h
    simp at h'
  have hentries : boundEntries p.base [low, high] = [(p.base ++ "_0", low), (p.base ++ "_1", high)] := by
    rw [← hzero, ← hone]
    rfl
  rw [parameters, hvalue]
  simp only [Operator.isNullCheck_of_isRange hrange, hrange, hentries, if_true, Bool.false_eq_true, if_false]
  simp [Bag.insertAll, Bag.insert, Bag.empty, Bag.put, hother]

theorem parameters_items {p : Predicate} {items : List Value} (hset : p.operator.isSetMembership = true)
    (hvalue : p.value = some (.list items)) : p.parameters = ⟨[(p.base, .list items)]⟩ := by
  obtain ⟨hnull, hrange⟩ := Operator.isNullCheck_of_isSetMembership hset
  rw [parameters, hvalue]
  simp only [hnull, hrange, Bool.false_eq_true, if_false]
  rfl

theorem parameters_scalar {p : Predicate} {v : Value} (hnull : p.operator.isNullCheck = false)
    (hrange : p.operator.isRange = false) (hvalue : p.value = some v) :
    p.parameters = ⟨[(p.base, bindable p.operator v)]⟩ := by
  rw [parameters, hvalue]
  simp only [hnull, hrange, Bool.false_eq_true, if_false]
  rfl

theorem parameters_nothing {p : Predicate} (hvalue : p.value = none) : p.parameters = ⟨[]⟩ := by
  rw [parameters, hvalue]
  rfl

end Predicate
end Listing
