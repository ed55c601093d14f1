import Listing.Proofs.Filter.Bindings
import Listing.Proofs.Statement.Filled
import Listing.Proofs.Text.Words
/-!
# Comparisons with placeholders

A comparison is written with its parameters' names. In a bag that has them, binding puts placeholders in
their place, counted on from the values that came before, and takes the predicate's values
(`fills_comparison`). What is left has no name in it (`inert_comparisonAt`).
-/
open Listing.Bound (Inert Fills Breaks isPlain placeholders)

namespace Listing

variable {q : Platform} {bag : Bag}

/-! ## Placeholders -/

namespace Platform

theorem inert_placeholder (position : Nat) : Inert (q.placeholder position).toList := by
  cases q with
  | postgres =>
    have hdigits : Inert (toString position).toList := .plain (by simpa using fun c hc => Bound.isPlain_toDigits c hc)
    rw [placeholder]
    exact Bound.inert_append (Bound.inert_of_all (by decide)) hdigits
  | mysql => exact .plain (by simp [placeholder, isPlain, Bound.isQuote])
  | sqlite => exact .plain (by simp [placeholder, isPlain, Bound.isQuote])

theorem ends_placeholder (position : Nat) : Text.Ends (q.placeholder position).toList := by
  cases q with
  | postgres =>
    rw [placeholder, String.toList_append]
    refine Text.Ends.append (Text.ends_of_forall ?_ fun c hc => ?_) _
    · simp
    · exact (Text.isWord_toDigits position).2 c (by simpa using hc)
  | mysql => exact ⟨[], '?', by simp [placeholder], rfl⟩
  | sqlite => exact ⟨[], '?', by simp [placeholder], rfl⟩

theorem inert_placeholders (before count : Nat) : Inert (placeholders q before count).toList := by
  unfold placeholders
  split
  · exact Bound.inert_of_all (by decide)
  · refine Bound.inert_intercalate (Bound.inert_of_all (by decide)) fun s hs => ?_
    obtain ⟨i, _, rfl⟩ := List.mem_map.mp hs
    exact inert_placeholder _

end Platform

/-! ## Texts of a predicate -/

namespace Predicate

/-- The operator with placeholders for the predicate's values, behind `before` others. -/
def renderedAt (p : Predicate) (q : Platform) (before : Nat) : String :=
  if p.operator.isNullCheck then p.operator.sql
  else if p.operator.isRange then
    p.operator.sql ++ " " ++ q.placeholder (before + 1) ++ " AND " ++ q.placeholder (before + 2)
  else if p.operator.isSetMembership then p.operator.sql ++ "(" ++ placeholders q before p.values.length ++ ")"
  else p.operator.sql ++ " " ++ q.placeholder (before + 1)

/-- The comparison with placeholders for the predicate's values, behind `before` others. -/
def comparisonAt (p : Predicate) (q : Platform) (before : Nat) (scope : Scope) : String :=
  p.comparisonWith scope (p.renderedAt q before)

theorem inert_sql (op : Operator) : Inert op.sql.toList :=
  .plain (List.all_eq_true.mp (by cases op <;> rfl))

theorem inert_renderedAt (p : Predicate) (before : Nat) : Inert (p.renderedAt q before).toList := by
  have hsql := inert_sql p.operator
  have hspace : Inert " ".toList := Bound.inert_of_all (by decide)
  unfold renderedAt
  split
  · exact hsql
  · split
    · have hand : Inert " AND ".toList := Bound.inert_of_all (by decide)
      have hlow : Inert (p.operator.sql ++ " " ++ q.placeholder (before + 1)).toList :=
        Bound.inert_append (Bound.inert_append hsql hspace) (Platform.inert_placeholder _)
      exact Bound.inert_append (Bound.inert_append hlow hand) (Platform.inert_placeholder _)
    · split
      · have hopening : Inert "(".toList := Bound.inert_of_all (by decide)
        have hclosing : Inert ")".toList := Bound.inert_of_all (by decide)
        exact Bound.inert_append
          (Bound.inert_append (Bound.inert_append hsql hopening) (Platform.inert_placeholders _ _)) hclosing
      · exact Bound.inert_append (Bound.inert_append hsql hspace) (Platform.inert_placeholder _)

theorem ends_renderedAt (p : Predicate) (before : Nat) : Text.Ends (p.renderedAt q before).toList := by
  unfold renderedAt
  split
  · exact ends_sql p.operator
  · split
    · rw [String.toList_append]
      exact (Platform.ends_placeholder _).append _
    · split
      · rw [String.toList_append]
        exact Text.Ends.append ⟨[], ')', rfl, rfl⟩ _
      · rw [String.toList_append]
        exact (Platform.ends_placeholder _).append _

theorem inert_trimFront {cs : List Char} (h : Inert cs) : Inert (Text.trimFront cs) := by
  induction h with
  | nil => exact .nil
  | @char c cs hcolon hquote h ih =>
    cases hc : Text.isBlank c with
    | true =>
      rw [Text.trimFront, List.dropWhile_cons_of_pos hc]
      exact ih
    | false =>
      rw [Text.trimFront_of_begins ⟨c, cs, rfl, hc⟩]
      exact .char hcolon hquote h
  | colons h =>
    rw [Text.trimFront_of_begins ⟨':', _, rfl, rfl⟩]
    exact .colons h
  | @quoted c body cs hquote hbody h ih =>
    rw [List.cons_append, Text.trimFront_of_begins ⟨c, _, rfl, Bound.isBlank_of_isQuote hquote⟩]
    exact .quoted hquote hbody h

theorem inert_subject {p : Predicate} {scope : Scope} (h : Inert (p.expression scope).toList) :
    Inert (p.subject scope).toList := by
  unfold subject
  split
  · have hopening : Inert "lower(".toList := Bound.inert_of_all (by decide)
    have hclosing : Inert ")".toList := Bound.inert_of_all (by decide)
    exact Bound.inert_append (Bound.inert_append hopening h) hclosing
  · rw [String.toList_ofList]
    exact inert_trimFront h

/-! ## Filling a comparison -/

/-- What binding asks of a predicate: that it says something, and that its expression has no names. -/
structure Placeable (p : Predicate) (bag : Bag) (scope : Scope) : Prop where
  speaks : p.contributes scope = true
  field : ∃ f, p.OnField f
  takes : p.Takes
  renderer : p.PlainOrLower
  expression : Inert (p.expression scope).toList
  /-- The bag has its parameters. -/
  entries : ∀ e ∈ p.parameters.entries, bag.get? e.1 = some e.2

/-- A parameter is written as a colon and a name, perhaps with an underscore and more behind the name. -/
theorem exists_isName {p : Predicate} {f : Field} (hfield : p.OnField f) {suffix : String}
    (hsuffix : suffix.toList.all Bound.isNameChar = true) :
    ∃ name, Bound.IsName name ∧ (p.base ++ suffix).toList = ':' :: name := by
  refine ⟨nameOf f.name p.number ++ suffix.toList, ⟨by simp [nameOf], fun c hc => ?_⟩, ?_⟩
  · rcases List.mem_append.mp hc with hc | hc
    · exact isNameChar_nameOf c hc
    · exact List.all_eq_true.mp hsuffix c hc
  · rw [String.toList_append, hfield.base, toList_baseName, List.cons_append]

theorem fills_base {p : Predicate} {f : Field} (hfield : p.OnField f) {suffix : String}
    (hsuffix : suffix.toList.all Bound.isNameChar = true) {v : Value} (h : bag.get? (p.base ++ suffix) = some v) :
    Fills q bag (p.base ++ suffix).toList (fun before => (placeholders q before (Bound.slots v).length).toList)
      (Bound.slots v) := by
  obtain ⟨name, hname, htext⟩ := exists_isName hfield hsuffix
  rw [← String.ofList_toList (s := p.base ++ suffix), htext] at h
  rw [htext]
  exact Bound.fills_name hname h

section
variable {p : Predicate} {f : Field} (hfield : p.OnField f)
  (hentries : ∀ e ∈ p.parameters.entries, bag.get? e.1 = some e.2)
include hfield hentries

theorem fills_bounds {low high : Value} (hrange : p.operator.isRange = true)
    (hvalue : p.value = some (.list [low, high])) (hlow : low.isList = false) (hhigh : high.isList = false) :
    Fills q bag p.rendered.toList (fun before => (p.renderedAt q before).toList) p.values := by
  have hnull := Operator.isNullCheck_of_isRange hrange
  have hvalues : p.values = [low] ++ [high] := by simp [values, hvalue, hrange, Bound.slots]
  simp only [parameters_bounds hrange hvalue, List.mem_cons, List.not_mem_nil, or_false, forall_eq_or_imp,
    forall_eq] at hentries
  have hfirst := fills_base (q := q) hfield (by decide) hentries.1
  have hsecond := fills_base (q := q) hfield (by decide) hentries.2
  simp only [slots_of_isList hlow, slots_of_isList hhigh, List.length_singleton, Bound.placeholders_one]
    at hfirst hsecond
  have hfront : Inert (p.operator.sql ++ " ").toList :=
    Bound.inert_append (inert_sql p.operator) (Bound.inert_of_all (by decide))
  have hand : Inert " AND ".toList := Bound.inert_of_all (by decide)
  have hfills := (hfirst.append (hsecond.inert_append hand) (Bound.breaks_cons rfl _)).inert_append hfront
  have hrendered : p.rendered.toList = (p.operator.sql ++ " ").toList ++
      ((p.base ++ "_0").toList ++ (" AND ".toList ++ (p.base ++ "_1").toList)) := by
    simp [rendered, hnull, hrange]
  have hrenderedAt : (fun before => (p.renderedAt q before).toList) = fun before =>
      (p.operator.sql ++ " ").toList ++ ((q.placeholder (before + 1)).toList ++
        (" AND ".toList ++ (q.placeholder (before + 1 + 1)).toList)) := by
    funext before
    simp [renderedAt, hnull, hrange]
  rw [hrendered, hrenderedAt, hvalues]
  exact hfills

theorem fills_items {items : List Value} (hset : p.operator.isSetMembership = true)
    (hvalue : p.value = some (.list items)) :
    Fills q bag p.rendered.toList (fun before => (p.renderedAt q before).toList) p.values := by
  obtain ⟨hnull, hrange⟩ := Operator.isNullCheck_of_isSetMembership hset
  have hvalues : p.values = items := by simp [values, hvalue, hset, Bound.slots]
  have hentry := hentries (p.base ++ "", .list items) (by simp [parameters_items hset hvalue])
  have hname := fills_base (q := q) hfield (by decide) hentry
  have hslots : Bound.slots (.list items) = items := rfl
  simp only [hslots] at hname
  have hfront : Inert (p.operator.sql ++ "(").toList :=
    Bound.inert_append (inert_sql p.operator) (Bound.inert_of_all (by decide))
  have hclosing : Inert ")".toList := Bound.inert_of_all (by decide)
  have hfills := (hname.append (Bound.fills_inert hclosing) (Bound.breaks_cons rfl _)).inert_append hfront
  have hrendered : p.rendered.toList = (p.operator.sql ++ "(").toList ++ ((p.base ++ "").toList ++ ")".toList) := by
    simp [rendered, hnull, hrange, hset]
  have hrenderedAt : (fun before => (p.renderedAt q before).toList) = fun before =>
      (p.operator.sql ++ "(").toList ++ ((placeholders q before items.length).toList ++ ")".toList) := by
    funext before
    simp [renderedAt, hnull, hrange, hset, hvalues]
  rw [hrendered, hrenderedAt, hvalues]
  simpa only [List.append_nil] using hfills

theorem fills_scalar {v : Value} (hnull : p.operator.isNullCheck = false) (hrange : p.operator.isRange = false)
    (hset : p.operator.isSetMembership = false) (hvalue : p.value = some v) (hscalar : v.isList = false) :
    Fills q bag p.rendered.toList (fun before => (p.renderedAt q before).toList) p.values := by
  have hvalues : p.values = [bindable p.operator v] := by simp [values, hvalue, hrange, hset]
  have hentry := hentries (p.base ++ "", bindable p.operator v) (by simp [parameters_scalar hnull hrange hvalue])
  have hname := fills_base (q := q) hfield (by decide) hentry
  simp only [slots_of_isList (isList_bindable hscalar), List.length_singleton, Bound.placeholders_one] at hname
  have hfront : Inert (p.operator.sql ++ " ").toList :=
    Bound.inert_append (inert_sql p.operator) (Bound.inert_of_all (by decide))
  have hrendered : p.rendered.toList = (p.operator.sql ++ " ").toList ++ (p.base ++ "").toList := by
    simp [rendered, hnull, hrange, hset]
  have hrenderedAt : (fun before => (p.renderedAt q before).toList) = fun before =>
      (p.operator.sql ++ " ").toList ++ (q.placeholder (before + 1)).toList := by
    funext before
    simp [renderedAt, hnull, hrange, hset]
  rw [hrendered, hrenderedAt, hvalues]
  exact hname.inert_append hfront

end

theorem fills_rendered {p : Predicate} {scope : Scope} (h : p.Placeable bag scope) :
    Fills q bag p.rendered.toList (fun before => (p.renderedAt q before).toList) p.values := by
  obtain ⟨f, hfield⟩ := h.field
  cases h.takes with
  | nothing hvalue =>
    -- a predicate without a value says something only if it checks for null
    have hnull : p.operator.isNullCheck = true := by
      have hspeaks := h.speaks
      simp only [contributes, hvalue, Option.isSome_none, Bool.false_or, Bool.and_eq_true] at hspeaks
      exact hspeaks.2
    have hrendered : p.rendered = p.operator.sql := by simp [rendered, hnull]
    have hrenderedAt : ∀ before, p.renderedAt q before = p.operator.sql := by simp [renderedAt, hnull]
    have hvalues : p.values = [] := by simp [values, hvalue]
    simp only [hrendered, hrenderedAt, hvalues]
    exact Bound.fills_inert (inert_sql p.operator)
  | bounds low high hrange hvalue hlow hhigh => exact fills_bounds hfield h.entries hrange hvalue hlow hhigh
  | items items hset hvalue => exact fills_items hfield h.entries hset hvalue
  | scalar v hnull hrange hset hvalue hscalar => exact fills_scalar hfield h.entries hnull hrange hset hvalue hscalar

theorem fills_comparison {p : Predicate} {scope : Scope} (h : p.Placeable bag scope) :
    Fills q bag (p.comparison scope).toList (fun before => (p.comparisonAt q before scope).toList) p.values := by
  obtain ⟨f, hfield⟩ := h.field
  have hfront : Inert (p.subject scope ++ " ").toList :=
    Bound.inert_append (inert_subject h.expression) (Bound.inert_of_all (by decide))
  have hfills := (fills_rendered (q := q) h).inert_append hfront
  have hcomparison := comparisonWith_eq h.speaks h.renderer (ends_rendered hfield)
  have hcomparisonAt : ∀ before, p.comparisonAt q before scope = p.subject scope ++ " " ++ p.renderedAt q before :=
    fun before => comparisonWith_eq h.speaks h.renderer (ends_renderedAt p before)
  simp only [comparison_eq, hcomparison, hcomparisonAt, String.toList_append] at hfills ⊢
  exact hfills

theorem inert_comparisonAt {p : Predicate} {scope : Scope} (h : p.Placeable bag scope) (before : Nat) :
    Inert (p.comparisonAt q before scope).toList := by
  rw [comparisonAt, comparisonWith_eq h.speaks h.renderer (ends_renderedAt p before)]
  exact Bound.inert_append (Bound.inert_append (inert_subject h.expression) (Bound.inert_of_all (by decide)))
    (inert_renderedAt p before)

end Predicate
end Listing
