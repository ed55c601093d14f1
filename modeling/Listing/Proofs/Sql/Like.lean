import Mathlib.Data.List.Infix
/-!
# LIKE

Which texts a pattern of `LIKE` matches: a percent sign stands for any run of characters, an underscore for
any one character, and every other character for itself. A percent sign at the end, in front or on both sides
leaves open what stands there (`like_front`, `like_back`, `like_anywhere`). A pattern matches no text but itself
if it has no wildcards, and only then (`exists_other_of_isWildcard`, `eq_of_like`).
-/
namespace Listing.Sql

def isWildcard (c : Char) : Bool := c == '%' || c == '_'

/-- Whether a text matches a pattern. -/
def like : List Char → List Char → Bool
  | [], cs => cs.isEmpty
  | p :: pattern, cs =>
    if p = '%' then cs.tails.any (like pattern)
    else
      match cs with
      | [] => false
      | c :: cs => (p == '_' || p == c) && like pattern cs

/-! ## Patterns in parts -/

theorem like_nil {cs : List Char} : like [] cs = true ↔ cs = [] := by simp [like]

theorem like_run {pattern cs : List Char} :
    like ('%' :: pattern) cs = true ↔ ∃ front back, cs = front ++ back ∧ like pattern back = true := by
  simp only [like, if_true, List.any_eq_true, List.mem_tails]
  constructor
  · rintro ⟨back, ⟨front, rfl⟩, hback⟩
    exact ⟨front, back, rfl, hback⟩
  · rintro ⟨front, back, rfl, hback⟩
    exact ⟨back, ⟨front, rfl⟩, hback⟩

theorem like_cons {p : Char} (hp : p ≠ '%') {pattern cs : List Char} :
    like (p :: pattern) cs = true ↔
      ∃ c rest, cs = c :: rest ∧ (p = '_' ∨ p = c) ∧ like pattern rest = true := by
  cases cs with
  | nil => simp [like, hp]
  | cons c cs => simp [like, hp]

/-- A pattern in two parts matches the texts in two parts that these match. -/
theorem like_append {pattern pattern' cs : List Char} :
    like (pattern ++ pattern') cs = true ↔
      ∃ front back, cs = front ++ back ∧ like pattern front = true ∧ like pattern' back = true := by
  induction pattern generalizing cs with
  | nil => simp [like_nil]
  | cons p pattern ih =>
    by_cases hp : p = '%'
    · subst hp
      simp only [List.cons_append, like_run, ih]
      constructor
      · rintro ⟨run, _, rfl, front, back, rfl, hfront, hback⟩
        exact ⟨run ++ front, back, (List.append_assoc ..).symm, ⟨run, front, rfl, hfront⟩, hback⟩
      · rintro ⟨_, back, rfl, ⟨run, front, rfl, hfront⟩, hback⟩
        exact ⟨run, front ++ back, List.append_assoc .., front, back, rfl, hfront, hback⟩
    · simp only [List.cons_append, like_cons hp, ih]
      constructor
      · rintro ⟨c, _, rfl, hc, front, back, rfl, hfront, hback⟩
        exact ⟨c :: front, back, rfl, ⟨c, front, rfl, hc, hfront⟩, hback⟩
      · rintro ⟨_, back, rfl, ⟨c, front, rfl, hc, hfront⟩, hback⟩
        exact ⟨c, front ++ back, rfl, hc, front, back, rfl, hfront, hback⟩

/-- A percent sign alone matches everything. -/
theorem like_percent (cs : List Char) : like ['%'] cs = true :=
  like_run.2 ⟨cs, [], (List.append_nil cs).symm, rfl⟩

theorem like_front {pattern cs : List Char} :
    like (pattern ++ ['%']) cs = true ↔ ∃ part, part <+: cs ∧ like pattern part = true := by
  rw [like_append]
  constructor
  · rintro ⟨front, back, rfl, hfront, -⟩
    exact ⟨front, List.prefix_append front back, hfront⟩
  · rintro ⟨part, ⟨back, rfl⟩, hpart⟩
    exact ⟨part, back, rfl, hpart, like_percent back⟩

theorem like_back {pattern cs : List Char} :
    like ('%' :: pattern) cs = true ↔ ∃ part, part <:+ cs ∧ like pattern part = true := by
  rw [like_run]
  constructor
  · rintro ⟨front, back, rfl, hback⟩
    exact ⟨back, List.suffix_append front back, hback⟩
  · rintro ⟨part, ⟨front, rfl⟩, hpart⟩
    exact ⟨front, part, rfl, hpart⟩

theorem like_anywhere {pattern cs : List Char} :
    like ('%' :: (pattern ++ ['%'])) cs = true ↔ ∃ part, part <:+: cs ∧ like pattern part = true := by
  rw [like_back]
  constructor
  · rintro ⟨back, hback, hlike⟩
    obtain ⟨part, hpart, hlike⟩ := like_front.1 hlike
    exact ⟨part, hpart.isInfix.trans hback.isInfix, hlike⟩
  · rintro ⟨part, ⟨front, back, rfl⟩, hlike⟩
    refine ⟨part ++ back, ⟨front, (List.append_assoc ..).symm⟩, ?_⟩
    exact like_front.2 ⟨part, List.prefix_append part back, hlike⟩

/-! ## Texts that stand for themselves -/

theorem like_self (pattern : List Char) : like pattern pattern = true := by
  induction pattern with
  | nil => rfl
  | cons p pattern ih =>
    by_cases hp : p = '%'
    · subst hp
      exact like_run.2 ⟨['%'], pattern, rfl, ih⟩
    · exact (like_cons hp).2 ⟨p, pattern, rfl, .inr rfl, ih⟩

theorem eq_of_like {pattern cs : List Char} (h : ∀ c ∈ pattern, isWildcard c = false)
    (hlike : like pattern cs = true) : cs = pattern := by
  induction pattern generalizing cs with
  | nil => exact like_nil.1 hlike
  | cons p pattern ih =>
    rw [List.forall_mem_cons] at h
    have hp : p ≠ '%' ∧ p ≠ '_' := by simpa [isWildcard] using h.1
    obtain ⟨c, rest, rfl, hc, hrest⟩ := (like_cons hp.1).1 hlike
    rw [ih h.2 hrest, hc.resolve_left hp.2]

/-- A pattern with a wildcard matches another text of its own length. -/
theorem exists_other_of_isWildcard {pattern : List Char} {w : Char} (hmem : w ∈ pattern)
    (hw : isWildcard w = true) : ∃ cs, cs.length = pattern.length ∧ cs ≠ pattern ∧ like pattern cs = true := by
  obtain ⟨front, back, rfl⟩ := List.append_of_mem hmem
  have hother : w ≠ '0' := by
    rintro rfl
    cases hw
  have hwild : like [w] ['0'] = true := by
    simp only [isWildcard, Bool.or_eq_true, beq_iff_eq] at hw
    rcases hw with rfl | rfl <;> rfl
  refine ⟨front ++ '0' :: back, by simp, by simp [Ne.symm hother], ?_⟩
  have hback : like (w :: back) ('0' :: back) = true :=
    like_append.2 ⟨['0'], back, rfl, hwild, like_self back⟩
  exact like_append.2 ⟨front, '0' :: back, rfl, like_self front, hback⟩

/-! ## Places -/

/-- Where one text lies in another. -/
inductive Place where
  | front
  | back
  | anywhere
deriving DecidableEq, Repr

namespace Place

/-- Whether a part lies there in a text. -/
def Holds : Place → List Char → List Char → Prop
  | front, part, cs => part <+: cs
  | back, part, cs => part <:+ cs
  | anywhere, part, cs => part <:+: cs

theorem holds_refl (place : Place) (cs : List Char) : place.Holds cs cs := by
  cases place with
  | front => exact List.prefix_rfl
  | back => exact List.suffix_rfl
  | anywhere => exact List.infix_rfl

theorem eq_of_holds {place : Place} {part cs : List Char} (h : place.Holds part cs)
    (hlength : cs.length = part.length) : cs = part := by
  cases place with
  | front => exact (List.IsPrefix.eq_of_length h hlength.symm).symm
  | back => exact (List.IsSuffix.eq_of_length h hlength.symm).symm
  | anywhere => exact (List.IsInfix.eq_of_length h hlength.symm).symm

/-- Looking for what a pattern matches is looking for the pattern itself if it has no wildcards, and only
then. -/
theorem literal_iff (place : Place) (pattern : List Char) :
    (∀ cs, (∃ part, place.Holds part cs ∧ like pattern part = true) ↔ place.Holds pattern cs) ↔
      ∀ c ∈ pattern, isWildcard c = false := by
  constructor
  · intro h c hc
    by_contra hwild
    obtain ⟨cs, hlength, hother, hlike⟩ := exists_other_of_isWildcard hc (by simpa using hwild)
    exact hother (eq_of_holds ((h cs).1 ⟨cs, place.holds_refl cs, hlike⟩) hlength)
  · intro h cs
    constructor
    · rintro ⟨part, hpart, hlike⟩
      rwa [eq_of_like h hlike] at hpart
    · intro hpattern
      exact ⟨pattern, hpattern, like_self pattern⟩

end Place
end Listing.Sql
