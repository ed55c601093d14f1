import Listing.Proofs.Catalog.Reachable
import Listing.Proofs.Filter.Shapes
import Listing.Proofs.Text.Lowered
/-!
# Comparisons in lower case

A lower-cased field has its expression compared in lower case and, unless it has a transform of its own, its
values lowered. A transform of its own takes the place of the lowering one: then the values are in lower case
if the answers are (`lowered_of_ofField`), and need not be otherwise (`ofField_half_lowered`).
-/
namespace Listing

open Text (InLowerCase inLowerCase_iff inLowerCase_int inLowerCase_write inLowerCase_lowercase)

/-- What a field is called in a query. -/
def Field.nameIn (f : Field) : Scope → String
  | .inner => f.expression
  | .outer => f.outputName

/-! ## Values -/

theorem Double.magnitudeBits_ofInt (n : Int) : (Double.ofInt n).magnitudeBits ≤ infinityBits := by
  have hround : roundRatio n.natAbs 1 ≤ infinityBits := by
    unfold roundRatio
    split
    · exact Nat.zero_le _
    · exact Nat.min_le_right _ _
  unfold Double.ofInt ofMagnitude magnitudeBits
  simp only [UInt64.toNat_ofNat', signBit, infinityBits] at hround ⊢
  split <;> omega

namespace Value

/-- The texts that are made of the value, or of the items of a list, are in lower case. -/
inductive Lowered : Value → Prop
  | scalar {v : Value} (hscalar : v.isList = false) (h : ∀ s, v.text? = some s → InLowerCase s) : Lowered v
  | list {items : List Value} (h : ∀ v ∈ items, Lowered v) : Lowered (.list items)

/-- A scalar that a document has, where all numbers are numbers. -/
def Written (v : Value) : Prop := ∃ j : Json, j.normal = j ∧ scalar? j = some v

theorem lowered_str {s : String} : (Value.str s).Lowered ↔ InLowerCase s := by
  constructor
  · intro h
    cases h with
    | scalar hscalar h => exact h s rfl
  · intro h
    refine .scalar rfl fun s' hs' => ?_
    cases hs'
    exact h

theorem lowered_items {items : List Value} (h : (Value.list items).Lowered) : ∀ v ∈ items, v.Lowered := by
  cases h with
  | scalar hscalar => cases hscalar
  | list h => exact h

theorem Written.isList {v : Value} (h : v.Written) : v.isList = false := by
  obtain ⟨j, -, hj⟩ := h
  exact isList_of_scalar? hj

/-- Of what documents have, only strings have upper-case letters. -/
theorem Written.lowered {v : Value} (h : v.Written) (hstr : ∀ s, v ≠ .str s) : v.Lowered := by
  refine .scalar h.isList fun s hs => ?_
  obtain ⟨j, hnormal, hj⟩ := h
  cases j with
  | null => cases hj; cases hs
  | bool b => cases hj; cases hs; cases b <;> rfl
  | int n =>
    obtain rfl := Option.some.inj hj
    unfold ofInt at hs
    split at hs
    · cases hs
      exact inLowerCase_int _
    · cases hs
      exact inLowerCase_write (Double.magnitudeBits_ofInt n)
  | float x =>
    cases hj
    cases hs
    have hfinite : x.isFinite = true := by
      by_contra hx
      rw [Json.normal, if_neg hx] at hnormal
      cases hnormal
    simp only [Double.isFinite, decide_eq_true_eq] at hfinite
    exact inLowerCase_write hfinite.le
  | str s => cases hj; exact absurd rfl (hstr s)
  | arr items => cases hj
  | obj ms => cases hj

theorem written_of_scalars {js : List Json} {vs : List Value} (hjs : Json.normalItems js = js)
    (h : scalars js = .ok vs) : ∀ v ∈ vs, v.Written := by
  induction js generalizing vs with
  | nil => cases h; simp
  | cons j js ih =>
    obtain ⟨hj, hjs⟩ := List.cons.inj hjs
    unfold scalars at h
    split at h
    · cases h
    · next v hv =>
      obtain ⟨ws, hws, rfl⟩ := map_eq_ok.1 h
      exact List.forall_mem_cons.2 ⟨⟨j, hj, hv⟩, ih hjs hws⟩

/-- A filter's value is one scalar of the document or a list of them. -/
theorem written_of_ofFilter {j : Json} {v : Value} (hj : j.normal = j) (h : ofFilter j = .ok v) :
    v.Written ∨ ∃ items, v = .list items ∧ ∀ w ∈ items, w.Written := by
  unfold ofFilter at h
  split at h
  · next js =>
    obtain ⟨items, hitems, rfl⟩ := map_eq_ok.1 h
    exact .inr ⟨items, rfl, written_of_scalars (Json.arr.inj hj) hitems⟩
  · split at h
    · cases h
    · next v hv =>
      cases h
      exact .inl ⟨j, hj, hv⟩

end Value

/-! ## Transforms -/

/-- What the transform answers to the scalars of documents is in lower case. -/
def Transform.Lowers (t : Transform) : Prop := ∀ v w, v.Written → t v = .ok w → w.Lowered

theorem Transform.lowers_lowercase : Transform.lowercase.Lowers := by
  intro v w hv hw
  cases v with
  | str s =>
    cases hw
    exact Value.lowered_str.2 (inLowerCase_lowercase s)
  | null | bool | int | float | list =>
    cases hw
    exact hv.lowered (by simp)

/-- The transform of a lower-cased field lowers, unless it is one of its own that does not. -/
theorem Field.lowers_transform? {f : Field} (hlower : f.lowerCased = true)
    (hown : ∀ t, f.transform = some t → t.Lowers) : ∃ t, f.transform? = some t ∧ t.Lowers := by
  unfold Field.transform?
  cases ht : f.transform with
  | some t => exact ⟨t, rfl, hown t ht⟩
  | none => exact ⟨Transform.lowercase, by rw [hlower]; rfl, Transform.lowers_lowercase⟩

namespace Predicate

/-- What a lowering transform makes of a filter's value. -/
theorem lowered_transformValue {field : String} {t : Transform} (ht : t.Lowers) {raw : Json}
    (hraw : raw.normal = raw) {u v : Value} (hu : Value.ofFilter raw = .ok u)
    (h : transformValue field t u = .ok v) : v.Lowered := by
  rcases Value.written_of_ofFilter hraw hu with hwritten | ⟨items, rfl, hitems⟩
  · rw [transformValue_scalar hwritten.isList] at h
    exact of_transformScalar ht hwritten h
  · obtain ⟨ws, hws, rfl⟩ := map_eq_ok.1 h
    exact .list (forall_of_transformAll ht hitems hws)

/-! ## Parameters -/

variable {p : Predicate} {v : Value}

theorem inLowerCase_pattern {op : Operator} {s pattern : String} (hs : InLowerCase s)
    (h : op.pattern? s = some pattern) : InLowerCase pattern := by
  have hpercent : InLowerCase "%" := rfl
  cases op
  case beginsWith | notBeginsWith =>
    cases h
    exact hs.append hpercent
  case endsWith | notEndsWith =>
    cases h
    exact hpercent.append hs
  case contains | notContains =>
    cases h
    exact (hpercent.append hs).append hpercent
  all_goals cases h

theorem lowered_bindable {op : Operator} (hv : v.Lowered) : (bindable op v).Lowered := by
  unfold bindable
  split
  · next pattern hpattern =>
    obtain ⟨s, hs, hpattern⟩ := Option.bind_eq_some_iff.1 hpattern
    cases hv with
    | scalar hscalar h => exact Value.lowered_str.2 (inLowerCase_pattern (h s hs) hpattern)
    | list => cases hs
  · exact hv

theorem lowered_parameters (hvalue : p.value = some v) (hnull : p.operator.isNullCheck = false)
    (hshaped : p.operator.Shaped v) (hv : v.Lowered) : ∀ e ∈ p.parameters.entries, e.2.Lowered := by
  unfold Operator.Shaped at hshaped
  cases hrange : p.operator.isRange with
  | true =>
    rw [if_pos hrange] at hshaped
    obtain ⟨low, high, rfl⟩ := hshaped
    have hitems := Value.lowered_items hv
    rw [parameters_bounds hrange hvalue, List.forall_mem_cons, List.forall_mem_singleton]
    exact ⟨hitems low (by simp), hitems high (by simp)⟩
  | false =>
    rw [parameters_scalar hnull hrange hvalue, List.forall_mem_singleton]
    exact lowered_bindable hv

/-! ## Both sides -/

/-- The fragment that compares something. -/
def fragmentOn (p : Predicate) (subject : String) : String :=
  p.connective.sql ++ " " ++ subject ++ " " ++ p.rendered

theorem fragmentOn_inj {s s' : String} : p.fragmentOn s = p.fragmentOn s' ↔ s = s' := by
  constructor
  · intro h
    have h' := congrArg String.toList h
    simp only [fragmentOn, String.toList_append, List.append_cancel_right_eq, List.append_cancel_left_eq] at h'
    exact String.toList_inj.1 h'
  · rintro rfl
    rfl

/-- The expression, without blanks in front, is not the call of a function on it. -/
theorem lower_ne_trimFront (expression : String) :
    "lower(" ++ expression ++ ")" ≠ .ofList (Text.trimFront expression.toList) := by
  intro h
  have hlength := congrArg (fun s => s.toList.length) h
  simp only [String.toList_append, String.toList_ofList, List.length_append] at hlength
  have htrim : (Text.trimFront expression.toList).length ≤ expression.toList.length :=
    List.length_dropWhile_le _ _
  have hlower : "lower(".toList.length = 6 := rfl
  omega

theorem compile_eq_fragmentOn {scope : Scope} {fragment : String} (hp : p.PlainOrLower)
    {f : Field} (hfield : p.OnField f) (h : p.compile scope = some fragment) :
    fragment = p.fragmentOn (p.subject scope) := by
  unfold compile at h
  split at h
  · next hspeaks =>
    obtain rfl := Option.some.inj h
    rw [comparison_eq, comparisonWith_eq hspeaks hp (ends_rendered hfield), fragmentOn]
    simp only [String.append_assoc]
  · cases h

theorem OnField.subject {f : Field} (hfield : p.OnField f) (hf : f.renderer = none) (scope : Scope) :
    p.subject scope = if f.lowerCased then "lower(" ++ f.nameIn scope ++ ")"
      else .ofList (Text.trimFront (f.nameIn scope).toList) := by
  have hname : p.expression scope = f.nameIn scope := by
    cases scope with
    | inner => exact hfield.inner
    | outer => exact hfield.outer
  have hrenderer : p.renderer.isSome = f.lowerCased := by
    rw [hfield.renderer, Field.renderer?, hf]
    cases f.lowerCased <;> rfl
  rw [Predicate.subject, hname, hrenderer]

section
variable {number : UInt32} {connective : Connective} {f : Field} {op : Operator} {raw : Json}
  (h : ofField number connective f op raw = .ok p) (hvalue : p.value = some v)
include h hvalue

theorem lowered_value (hraw : raw.normal = raw) (hlower : f.lowerCased = true)
    (hown : ∀ t, f.transform = some t → t.Lowers) : v.Lowered := by
  obtain ⟨t, ht, hlowers⟩ := Field.lowers_transform? hlower hown
  obtain ⟨-, -, -, u, hu, ⟨hnone, -⟩ | ⟨t', ht', hv⟩⟩ := value_cases h hvalue
  · rw [ht] at hnone
    cases hnone
  · obtain rfl := Option.some.inj (ht.symm.trans ht')
    exact lowered_transformValue hlowers hraw hu hv

theorem value_untouched (hlower : f.lowerCased = false) (hown : f.transform = none) :
    Value.ofFilter raw = .ok v := by
  have hnone : f.transform? = none := by
    rw [Field.transform?, hown, hlower]
    rfl
  obtain ⟨-, -, -, u, hu, ⟨-, rfl⟩ | ⟨t, ht, -⟩⟩ := value_cases h hvalue
  · exact hu
  · rw [hnone] at ht
    cases ht

end

/-- The expression is compared in lower case just when the field is lower-cased. Then all that is bound is in lower
case too, provided that a transform of the field's own, which stands in for the lowering one, answers in lower case.
Where neither is asked for, the value is the client's. -/
theorem lowered_of_ofField {number : UInt32} {connective : Connective} {f : Field} {op : Operator} {raw : Json}
    (h : ofField number connective f op raw = .ok p) (hf : f.renderer = none) (hraw : raw.normal = raw) :
    (∀ scope fragment, p.compile scope = some fragment →
      (fragment = p.fragmentOn ("lower(" ++ f.nameIn scope ++ ")") ↔ f.lowerCased = true) ∧
      (fragment = p.fragmentOn (.ofList (Text.trimFront (f.nameIn scope).toList)) ↔ f.lowerCased = false)) ∧
    (f.lowerCased = true → (∀ t, f.transform = some t → t.Lowers) → ∀ e ∈ p.parameters.entries, e.2.Lowered) ∧
    (f.lowerCased = false → f.transform = none → ∀ v, p.value = some v → Value.ofFilter raw = .ok v) := by
  have hfield := onField_of_ofField h
  refine ⟨fun scope fragment hfragment => ?_, fun hlower hown => ?_, fun hlower hown v hvalue => ?_⟩
  · have hplain := hfield.plainOrLower (.inl hf)
    rw [compile_eq_fragmentOn hplain hfield hfragment, fragmentOn_inj, fragmentOn_inj, hfield.subject hf]
    have hne := lower_ne_trimFront (f.nameIn scope)
    cases f.lowerCased with
    | true => simp [hne]
    | false => simp [hne.symm]
  · cases hvalue : p.value with
    | none => simp [parameters_nothing hvalue]
    | some v =>
      obtain ⟨rfl, hnull, hcheck, -⟩ := value_cases h hvalue
      exact lowered_parameters hvalue hnull (Operator.shaped_of_checkShape hcheck)
        (lowered_value h hvalue hraw hlower hown)
  · exact value_untouched h hvalue hlower hown

/-- Records by singer, whatever the case. -/
def records : Catalog :=
  ((Catalog.ofColumns [⟨"singer", "r.singer"⟩]).apply (.customize "singer" { lowerCased := true })).1

/-- The singer is always written with the article. -/
def recordsWithArticle : Catalog := (records.apply (.setTransform "singer" (.prepend "The "))).1

/-- The singers that a client looks for. -/
def bySinger (op : Operator) (value : Value) : Predicate :=
  ⟨1, .and, "r.singer", "singer", op, some value, false, ":singer_1", some Renderer.lower⟩

def singer : Field :=
  { Field.ofColumn "singer" "r.singer" with lowerCased := true }

theorem lowered_of_ofField_singers :
    records.get? "singer" = some singer ∧ singer.renderer = none ∧ (Json.str "BEATles").normal = .str "BEATles" ∧
    ofField 1 .and singer .contains (.str "BEATles") = .ok (bySinger .contains (.str "beatles")) ∧
    (bySinger .contains (.str "beatles")).compile .inner = some "AND lower(r.singer) LIKE :singer_1" ∧
    ∀ e ∈ (bySinger .contains (.str "beatles")).parameters.entries, e.2.Lowered := by
  have hmade : ofField 1 .and singer .contains (.str "BEATles") = .ok (bySinger .contains (.str "beatles")) := rfl
  obtain ⟨-, hlowered, -⟩ := lowered_of_ofField hmade rfl rfl
  refine ⟨by cbv, rfl, rfl, hmade, rfl, hlowered rfl ?_⟩
  intro t ht
  cases ht

/-- With the article in front the expression alone is in lower case, and no record is found. -/
theorem ofField_half_lowered :
    recordsWithArticle.Reachable ∧
    ∃ f, recordsWithArticle.get? "singer" = some f ∧ f.renderer = none ∧ f.lowerCased = true ∧
      ofField 1 .and f .equals (.str "Beatles") = .ok (bySinger .equals (.str "The Beatles")) ∧
      (bySinger .equals (.str "The Beatles")).compile .inner = some "AND lower(r.singer) = :singer_1" ∧
      (bySinger .equals (.str "The Beatles")).parameters = ⟨[(":singer_1", .str "The Beatles")]⟩ ∧
      ¬ InLowerCase "The Beatles" := by
  refine ⟨.apply (.apply (.ofColumns _) _) _, { singer with transform := some (.prepend "The ") }, by cbv, rfl, rfl,
    rfl, rfl, rfl, ?_⟩
  rw [inLowerCase_iff]
  intro h
  exact absurd (h 'T' (by decide)) (by decide +kernel)

end Predicate
end Listing
