import Mathlib
import Listing.Proofs.Filter.Clause
import Listing.Proofs.Filter.Traced
import Listing.Proofs.Text.Trim
import Listing.Statement.Bound
/-!
# Comparisons

A predicate on a field has what it is about from the field (`OnField`). Its comparison, written as it
stands or in lower case, is that, a space, and the operator with its placeholders (`comparisonWith_eq`),
and the name of a placeholder is a colon and name characters (`toList_baseName`).
-/
namespace Listing

/-! ## Parts of a predicate -/

/-- The field's conditions are written as they stand or in lower case. -/
def Field.PlainOrLower (f : Field) : Prop := f.renderer = none ∨ f.renderer = some Renderer.lower

/-- A predicate that was built is allowed by one of the fields. -/
theorem Spec.Matched.exists_allowed {c : Catalog} {calls : List (String × Operator)} {count : Nat}
    {ps : List Predicate} (h : Matched c calls count ps) {p : Predicate} (hp : p ∈ ps) : ∃ f, Allowed c f p := by
  obtain ⟨built, -, rfl, -, hallowed⟩ := h
  obtain ⟨x, hx, rfl⟩ := List.mem_map.mp hp
  exact ⟨x.1, hallowed x hx⟩

namespace Predicate

/-- The comparison is written as it stands or in lower case. -/
def PlainOrLower (p : Predicate) : Prop := p.renderer = none ∨ p.renderer = some Renderer.lower

/-- What a predicate has from its field. -/
structure OnField (p : Predicate) (f : Field) : Prop where
  inner : p.inner = f.expression
  outer : p.outer = f.outputName
  aggregated : p.aggregated = f.aggregated
  base : p.base = baseName f.name p.number
  renderer : p.renderer = f.renderer?

theorem onField_of_ofField {number : UInt32} {connective : Connective} {f : Field} {op : Operator} {raw : Json}
    {p : Predicate} (h : ofField number connective f op raw = .ok p) : p.OnField f := by
  obtain ⟨v, _, h⟩ := bind_eq_ok.1 h
  obtain ⟨value, _, h⟩ := bind_eq_ok.1 h
  cases h
  exact ⟨rfl, rfl, rfl, rfl, rfl⟩

theorem onField_of_allowed {c : Catalog} {f : Field} {p : Predicate} (h : Spec.Allowed c f p) : p.OnField f := by
  obtain ⟨raw, hraw⟩ := h.built
  exact onField_of_ofField hraw

theorem OnField.plainOrLower {p : Predicate} {f : Field} (h : p.OnField f) (hf : f.PlainOrLower) :
    p.PlainOrLower := by
  rw [PlainOrLower, h.renderer, Field.renderer?]
  rcases hf with hf | hf
  · rw [hf]
    cases f.lowerCased with
    | true => exact .inr rfl
    | false => exact .inl rfl
  · rw [hf]
    exact .inr rfl

/-! ## Rendering -/

/-- The comparison with a text for the operator and its placeholders. -/
def comparisonWith (p : Predicate) (scope : Scope) (rendered : String) : String :=
  Text.trim ((p.renderer.getD Renderer.plain) ⟨p.expression scope, p.operator, rendered⟩)

theorem comparison_eq (p : Predicate) (scope : Scope) : p.comparison scope = p.comparisonWith scope p.rendered := rfl

/-- What the comparison is about. -/
def subject (p : Predicate) (scope : Scope) : String :=
  if p.renderer.isSome then "lower(" ++ p.expression scope ++ ")"
  else .ofList (Text.trimFront (p.expression scope).toList)

theorem comparisonWith_eq {p : Predicate} {scope : Scope} (hp : p.contributes scope = true)
    (hrenderer : p.PlainOrLower) {rendered : String} (hends : Text.Ends rendered.toList) :
    p.comparisonWith scope rendered = p.subject scope ++ " " ++ rendered := by
  have hexpression : Text.isBlankText (p.expression scope) = false := by
    simp only [contributes, Bool.and_eq_true, Bool.not_eq_true'] at hp
    exact hp.1.2
  rcases hrenderer with hnone | hlower
  · have hends' : Text.Ends (" " ++ rendered).toList := by
      rw [String.toList_append]
      exact hends.append _
    simp only [comparisonWith, subject, hnone, Option.getD_none, Renderer.plain, Option.isSome_none,
      Bool.false_eq_true, if_false, String.append_assoc]
    exact Text.trim_append hexpression hends'
  · have hends' : Text.Ends (p.expression scope ++ (") " ++ rendered)).toList := by
      rw [String.toList_append, String.toList_append]
      exact (hends.append _).append _
    have hopening : Text.isBlankText "lower(" = false := rfl
    have hclosing : ") " ++ rendered = ")" ++ (" " ++ rendered) := by rw [← String.append_assoc]; rfl
    simp only [comparisonWith, subject, hlower, Option.getD_some, Renderer.lower, Option.isSome_some, if_true,
      String.append_assoc]
    rw [Text.trim_append hopening hends', hclosing]
    rfl

/-- Comparisons that are written as they stand or in lower case can be read. -/
theorem PlainOrLower.legible {p : Predicate} (h : p.PlainOrLower) (scope : Scope) : p.Legible scope := by
  rcases h with hnone | hlower
  · intro r hr
    rw [hnone] at hr
    cases hr
  · exact legible_of_lower scope hlower

/-! ## Names of placeholders -/

theorem toNat_lt_of_isAlphanum {c : Char} (h : c.isAlphanum = true) : c.toNat < 128 := by
  simp only [Char.isAlphanum, Char.isAlpha, Char.isUpper, Char.isLower, Char.isDigit, Bool.or_eq_true,
    Bool.and_eq_true, decide_eq_true_eq, ge_iff_le, UInt32.le_iff_toNat_le] at h
  have hupper : 'Z'.val.toNat = 90 := rfl
  have hlower : 'z'.val.toNat = 122 := rfl
  have hdigit : '9'.val.toNat = 57 := rfl
  have hval : c.toNat = c.val.toNat := rfl
  omega

/-- What can be checked of the characters of names one by one. -/
theorem forall_isNameChar (good : Char → Bool)
    (h : ∀ n : Fin 128, Bound.isNameChar (.ofNat n) = true → good (.ofNat n) = true) {c : Char}
    (hc : Bound.isNameChar c = true) : good c = true := by
  have hlt : c.toNat < 128 := by
    simp only [Bound.isNameChar, Bool.or_eq_true, beq_iff_eq] at hc
    rcases hc with hc | rfl
    · exact toNat_lt_of_isAlphanum hc
    · decide
  have hn := h ⟨c.toNat, hlt⟩
  rw [Char.ofNat_toNat] at hn
  exact hn hc

theorem isNameChar_toLower {c : Char} (h : Bound.isNameChar c = true) : Bound.isNameChar c.toLower = true :=
  forall_isNameChar (fun c => Bound.isNameChar c.toLower) (by decide) h

theorem isBlank_of_isNameChar {c : Char} (h : Bound.isNameChar c = true) : Text.isBlank c = false := by
  have hblank : (!Text.isBlank c) = true := forall_isNameChar (fun c => !Text.isBlank c) (by decide) h
  simpa using hblank

/-- What stands behind the colon in the name of a parameter. -/
def nameOf (field : String) (number : UInt32) : List Char :=
  (field.toList.filter Text.isAsciiAlnum).map Char.toLower ++ '_' :: Nat.toDigits 10 number.toNat

theorem toList_baseName (field : String) (number : UInt32) :
    (baseName field number).toList = ':' :: nameOf field number := by
  simp [baseName, nameOf]

theorem isNameChar_nameOf {field : String} {number : UInt32} :
    ∀ c ∈ nameOf field number, Bound.isNameChar c = true := by
  intro c hc
  simp only [nameOf, List.mem_append, List.mem_map, List.mem_filter, List.mem_cons] at hc
  rcases hc with ⟨d, ⟨-, hd⟩, rfl⟩ | rfl | hc
  · exact isNameChar_toLower (by simpa [Bound.isNameChar, Text.isAsciiAlnum] using .inl hd)
  · rfl
  · simp [Bound.isNameChar, Char.isAlphanum, Nat.isDigit_of_mem_toDigits (by decide) (by decide) hc]

theorem ends_sql (op : Operator) : Text.Ends op.sql.toList := by
  cases op <;> exact Text.ends_of_getLast? rfl rfl

theorem ends_baseName (field : String) (number : UInt32) : Text.Ends (baseName field number).toList := by
  rw [toList_baseName]
  exact (Text.ends_of_forall (by simp [nameOf]) fun c hc => isBlank_of_isNameChar (isNameChar_nameOf c hc)).append [':']

theorem ends_rendered {p : Predicate} {f : Field} (h : p.OnField f) : Text.Ends p.rendered.toList := by
  unfold rendered
  split
  · exact ends_sql p.operator
  · split
    · rw [String.toList_append]
      exact Text.Ends.append ⟨['_'], '1', rfl, rfl⟩ _
    · split
      · rw [String.toList_append]
        exact Text.Ends.append ⟨[], ')', rfl, rfl⟩ _
      · rw [String.toList_append, h.base]
        exact (ends_baseName f.name p.number).append _

end Predicate
end Listing
