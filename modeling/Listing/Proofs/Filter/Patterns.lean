import Listing.Proofs.Filter.Bindings
import Listing.Proofs.Sql.Like
/-!
# Patterns

The operators of the `LIKE` family look for a text in front, at the back or anywhere in another one, or refuse
what they find. The text is put into the pattern as it is, so a wildcard in it stands for other characters: a
comparison looks for any text that the value matches as a pattern itself (`parameters_like`).
-/
namespace Listing

open Sql (Place like isWildcard)

namespace Sql

/-- Whether a text passes a comparison with a pattern; not all words make one. -/
def passes? (words : String) (pattern cs : List Char) : Option Bool :=
  if words = "LIKE" then some (like pattern cs)
  else if words = "NOT LIKE" then some (!like pattern cs)
  else none

end Sql

namespace Operator

/-- Where the `LIKE` family looks for a text. -/
def place? : Operator → Option Place
  | beginsWith | notBeginsWith => some .front
  | endsWith | notEndsWith => some .back
  | contains | notContains => some .anywhere
  | _ => none

/-- Whether what is found is refused. -/
def isNegated : Operator → Bool
  | notBeginsWith | notEndsWith | notContains => true
  | _ => false

/-- Whether the operator accepts a text, by whether it finds there what it looks for. -/
def Accepts (op : Operator) (found : Prop) : Prop := if op.isNegated then ¬ found else found

theorem accepts_iff {op : Operator} {found found' : Prop} :
    (op.Accepts found ↔ op.Accepts found') ↔ (found ↔ found') := by
  unfold Accepts
  split
  · exact not_iff_not
  · exact Iff.rfl

theorem xor_isNegated {op : Operator} {found : Bool} :
    (found ^^ op.isNegated) = true ↔ op.Accepts (found = true) := by
  unfold Accepts
  cases op.isNegated <;> simp

section
variable {op : Operator} {place : Place} (h : op.place? = some place)
include h

theorem category_of_place? : op.category = .stringOnly := by
  cases op <;> first | rfl | cases h

theorem isRange_of_place? : op.isRange = false := by
  cases op <;> first | rfl | cases h

theorem passes?_sql (pattern cs : List Char) :
    Sql.passes? op.sql pattern cs = some (like pattern cs ^^ op.isNegated) := by
  cases op
  case beginsWith | endsWith | contains => simp [Sql.passes?, sql, isNegated]
  case notBeginsWith | notEndsWith | notContains => simp [Sql.passes?, sql, isNegated]
  all_goals cases h

/-- The pattern matches a text if the value, as a pattern, matches a part of it in the operator's place. -/
theorem exists_pattern (s : String) :
    ∃ pattern, op.pattern? s = some pattern ∧
      ∀ cs, like pattern.toList cs = true ↔ ∃ part, place.Holds part cs ∧ like s.toList part = true := by
  cases op
  case beginsWith | notBeginsWith =>
    obtain rfl : Place.front = place := Option.some.inj h
    refine ⟨s ++ "%", rfl, fun cs => ?_⟩
    rw [String.toList_append]
    exact Sql.like_front
  case endsWith | notEndsWith =>
    obtain rfl : Place.back = place := Option.some.inj h
    refine ⟨"%" ++ s, rfl, fun cs => ?_⟩
    rw [String.toList_append]
    exact Sql.like_back
  case contains | notContains =>
    obtain rfl : Place.anywhere = place := Option.some.inj h
    refine ⟨"%" ++ s ++ "%", rfl, fun cs => ?_⟩
    rw [String.toList_append, String.toList_append]
    exact Sql.like_anywhere
  all_goals cases h

end

end Operator

namespace Predicate

/-- A text is bound between percent signs as it is. So the comparison looks for a part that the text matches as
a pattern, and it looks for the text itself if no wildcard is in it, and only then. -/
theorem parameters_like (p : Predicate) {v : Value} {s : String} {place : Place} (hvalue : p.value = some v)
    (htext : v.text? = some s) (hplace : p.operator.place? = some place) :
    ∃ pattern : String,
      p.rendered = p.operator.sql ++ " " ++ p.base ∧ p.parameters = ⟨[(p.base, .str pattern)]⟩ ∧
      (∀ cs, Sql.passes? p.operator.sql pattern.toList cs = some true ↔
        p.operator.Accepts (∃ part, place.Holds part cs ∧ like s.toList part = true)) ∧
      ((∀ cs, Sql.passes? p.operator.sql pattern.toList cs = some true ↔
        p.operator.Accepts (place.Holds s.toList cs)) ↔ ∀ c ∈ s.toList, isWildcard c = false) := by
  have hcategory := Operator.category_of_place? hplace
  have hnull : p.operator.isNullCheck = false := by rw [Operator.isNullCheck, hcategory]; rfl
  have hset : p.operator.isSetMembership = false := by rw [Operator.isSetMembership, hcategory]; rfl
  have hrange := Operator.isRange_of_place? hplace
  obtain ⟨pattern, hpattern, hmatches⟩ := Operator.exists_pattern hplace s
  have hpasses : ∀ cs, Sql.passes? p.operator.sql pattern.toList cs = some true ↔
      p.operator.Accepts (∃ part, place.Holds part cs ∧ like s.toList part = true) := by
    intro cs
    rw [Operator.passes?_sql hplace, Option.some_inj, Operator.xor_isNegated, hmatches]
  refine ⟨pattern, ?_, ?_, hpasses, ?_⟩
  · simp [rendered, hnull, hrange, hset]
  · rw [parameters_scalar hnull hrange hvalue, bindable, htext, Option.bind_some, hpattern]
  · simp only [hpasses, Operator.accepts_iff]
    exact place.literal_iff s.toList

/-- Offers by what their label says. -/
def byLabel (op : Operator) (value : String) : Predicate :=
  ⟨1, .and, "o.label", "label", op, some (.str value), false, ":label_1", none⟩

/-- Without wildcards the label is looked for as it is. -/
theorem parameters_like_byLabel :
    (byLabel .notContains "5 off").value = some (.str "5 off") ∧ (Value.str "5 off").text? = some "5 off" ∧
    (byLabel .notContains "5 off").operator.place? = some .anywhere ∧
    ∃ pattern : String,
      (byLabel .notContains "5 off").rendered = "NOT LIKE :label_1" ∧
      (byLabel .notContains "5 off").parameters = ⟨[(":label_1", .str pattern)]⟩ ∧
      ∀ cs, Sql.passes? "NOT LIKE" pattern.toList cs = some true ↔ ¬ "5 off".toList <:+: cs := by
  obtain ⟨pattern, hrendered, hparameters, -, hliteral⟩ :=
    @parameters_like (byLabel .notContains "5 off") (.str "5 off") "5 off" .anywhere rfl rfl rfl
  exact ⟨rfl, rfl, rfl, pattern, hrendered, hparameters, hliteral.2 (by simp [isWildcard])⟩

/-- Who asks for offers that say 5% gets one that says nothing of the kind. -/
theorem contains_matches_more :
    ofField 1 .and (.ofColumn "label" "o.label") .contains (.str "5%") = .ok (byLabel .contains "5%") ∧
    (byLabel .contains "5%").parameters = ⟨[(":label_1", .str "%5%%")]⟩ ∧
    (byLabel .contains "5%").rendered = "LIKE :label_1" ∧
    Sql.passes? "LIKE" "%5%%".toList "15 left".toList = some true ∧ ¬ "5%".toList <:+: "15 left".toList :=
  ⟨rfl, rfl, rfl, by decide, by decide⟩

end Predicate
end Listing
