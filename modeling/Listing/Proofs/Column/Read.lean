import Mathlib
import Listing.Catalog.Column
/-!
# Reading an entry of a select list

An entry is cut at ` as ` in any letter case, from the left, and only if that does not occur at its spaces. When both
ways are followed to their ends, an entry that is accepted has been read in one of three ways (`Reading`), and each of
the three is accepted (`ofDeclaration_eq_ok`).
-/
namespace Listing.Column

open Text (collapse)

/-- What stands between an expression and its name, in any letter case. -/
def IsAs (sep : List Char) : Prop := sep.map Char.toLower = " as ".toList

/-- Such a separator is somewhere in the text. -/
def HasAs (cs : List Char) : Prop := ∃ front sep back, cs = front ++ sep ++ back ∧ IsAs sep

/-- The ways in which a text with single spaces is read as an expression and a name. -/
inductive Reading : List Char → List Char → List Char → Prop
  /-- The text has one separator; the name may begin and the expression may end with an `as` of its own. -/
  | separated {expression sep name : List Char} (hsep : IsAs sep) (hexpression : expression ≠ []) (hname : name ≠ [])
      (hfirst : ¬ HasAs (expression ++ [' '])) (hlast : ¬ HasAs name) : Reading (expression ++ sep ++ name) expression name
  /-- The text has one space. -/
  | spaced {expression name : List Char} (hexpression : expression ≠ []) (hname : name ≠ [])
      (hfirst : ' ' ∉ expression) (hlast : ' ' ∉ name) : Reading (expression ++ ' ' :: name) expression name
  /-- The text is an expression alone. -/
  | bare {expression : List Char} (hexpression : expression ≠ []) (hspace : ' ' ∉ expression) :
      Reading expression expression (afterLastDot expression)

/-! ## Separators -/

theorem toLower_eq_space {c : Char} : c.toLower = ' ' ↔ c = ' ' := by
  constructor
  · intro h
    by_cases hupper : c.isUpper = true
    · have hlower := c.isLower_toLower_eq_isAlpha
      rw [h, Char.isAlpha, hupper] at hlower
      cases hlower
    · rwa [Char.toLower_eq_of_not_isUpper hupper] at h
  · rintro rfl
    rfl

theorem isAs_iff {sep : List Char} :
    IsAs sep ↔ ∃ a s, sep = [' ', a, s, ' '] ∧ a.toLower = 'a' ∧ s.toLower = 's' := by
  have hletters : " as ".toList = [' ', 'a', 's', ' '] := rfl
  rw [IsAs, hletters]
  simp only [List.map_eq_cons_iff, List.map_eq_nil_iff, toLower_eq_space]
  constructor
  · rintro ⟨_, _, rfl, rfl, a, _, rfl, ha, s, _, rfl, hs, _, _, rfl, rfl, rfl⟩
    exact ⟨a, s, rfl, ha, hs⟩
  · rintro ⟨a, s, rfl, ha, hs⟩
    exact ⟨' ', _, rfl, rfl, a, _, rfl, ha, s, _, rfl, hs, ' ', _, rfl, rfl, rfl⟩

theorem IsAs.length_eq {sep : List Char} (h : IsAs sep) : sep.length = 4 := by
  have hlength := congrArg List.length h
  rwa [List.length_map] at hlength

variable {c : Char} {cs front sep back : List Char}

theorem hasAs_cons : HasAs (c :: cs) ↔ IsAs ((c :: cs).take 4) ∨ HasAs cs := by
  constructor
  · rintro ⟨front, sep, back, htext, hsep⟩
    cases front with
    | nil =>
      left
      rwa [htext, List.nil_append, ← hsep.length_eq, List.take_left]
    | cons d front => exact .inr ⟨front, sep, back, (List.cons.inj htext).2, hsep⟩
  · rintro (h | ⟨front, sep, back, rfl, hsep⟩)
    · exact ⟨[], _, (c :: cs).drop 4, (List.take_append_drop 4 _).symm, h⟩
    · exact ⟨c :: front, sep, back, rfl, hsep⟩

/-- Without spaces in two places there is no separator. -/
theorem HasAs.two_spaces (h : HasAs cs) : ∃ front mid back, cs = front ++ ' ' :: mid ++ ' ' :: back := by
  obtain ⟨front, sep, back, rfl, hsep⟩ := h
  obtain ⟨a, s, rfl, -⟩ := isAs_iff.1 hsep
  exact ⟨front, [a, s], back, by simp⟩

theorem not_hasAs_spaced (hfirst : ' ' ∉ front) (hlast : ' ' ∉ back) : ¬ HasAs (front ++ ' ' :: back) := by
  intro has
  obtain ⟨front', mid, back', htext⟩ := has.two_spaces
  have hcount := congrArg (List.count ' ') htext
  simp [List.count_eq_zero.2 hfirst, List.count_eq_zero.2 hlast] at hcount
  omega

theorem not_hasAs_bare (h : ' ' ∉ cs) : ¬ HasAs cs := by
  intro has
  obtain ⟨front, mid, back, rfl⟩ := has.two_spaces
  simp at h

/-- The leftmost of the separators in a text. -/
theorem exists_first (h : HasAs cs) :
    ∃ front sep back, cs = front ++ sep ++ back ∧ IsAs sep ∧ ¬ HasAs (front ++ [' ']) := by
  obtain ⟨front, sep, back, rfl, hsep⟩ := h
  induction hlength : front.length using Nat.strongRecOn generalizing front sep back with
  | ind n ih =>
    by_cases hearlier : HasAs (front ++ [' '])
    · obtain ⟨front', sep', back', hfront, hsep'⟩ := hearlier
      obtain ⟨a, s, rfl, -⟩ := isAs_iff.1 hsep
      have hlt : front'.length < n := by
        have hboth := congrArg List.length hfront
        simp only [List.length_append, hsep'.length_eq, List.length_singleton] at hboth
        omega
      have htext : front ++ [' ', a, s, ' '] ++ back = front' ++ sep' ++ (back' ++ [a, s, ' '] ++ back) := by
        have hsplit : front ++ [' ', a, s, ' '] ++ back = (front ++ [' ']) ++ ([a, s, ' '] ++ back) := by simp
        rw [hsplit, hfront]
        simp
      rw [htext]
      exact ih _ hlt front' sep' _ hsep' rfl
    · exact ⟨front, sep, back, rfl, hsep, hearlier⟩

/-! ## Cutting -/

theorem cutAtAs_cons (h : ¬ IsAs ((c :: cs).take 4)) : cutAtAs (c :: cs) = cutAtAs.keep c (cutAtAs cs) := by
  rw [cutAtAs.eq_def]
  split
  · next a s rest htext =>
    rw [htext] at h
    obtain ⟨rfl, rfl⟩ := List.cons.inj htext
    rw [if_neg fun hletters => h (isAs_iff.2 ⟨a, s, rfl, hletters⟩)]
  · next htext =>
    obtain ⟨rfl, rfl⟩ := List.cons.inj htext
    rfl
  · next htext => cases htext

theorem cutAtAs_of_not_hasAs (h : ¬ HasAs cs) : cutAtAs cs = [cs] := by
  induction cs with
  | nil => rfl
  | cons c cs ih =>
    rw [hasAs_cons, not_or] at h
    rw [cutAtAs_cons h.1, ih h.2]
    rfl

/-- The first separator ends the first piece. -/
theorem cutAtAs_first (hsep : IsAs sep) (hfirst : ¬ HasAs (front ++ [' '])) :
    cutAtAs (front ++ sep ++ back) = front :: cutAtAs back := by
  obtain ⟨a, s, rfl, hletters⟩ := isAs_iff.1 hsep
  induction front with
  | nil =>
    show cutAtAs (' ' :: a :: s :: ' ' :: back) = _
    rw [cutAtAs, if_pos hletters]
  | cons c front ih =>
    rw [List.cons_append, hasAs_cons, not_or] at hfirst
    have hnone : ¬ IsAs ((c :: (front ++ [' ', a, s, ' '] ++ back)).take 4) := by
      -- the separator that begins later shares no more than its first space with one that begins here
      intro hhere
      rcases front with _ | ⟨x, _ | ⟨y, _ | ⟨z, front⟩⟩⟩
      · simp [IsAs] at hhere
      · simp [IsAs] at hhere
      · exact hfirst.1 hhere
      · exact hfirst.1 hhere
    rw [List.cons_append, List.cons_append, cutAtAs_cons hnone, ih hfirst.2]
    rfl

theorem cutAtAs_ne_nil (cs : List Char) : cutAtAs cs ≠ [] := by
  by_cases h : HasAs cs
  · obtain ⟨front, sep, back, rfl, hsep, hfirst⟩ := exists_first h
    rw [cutAtAs_first hsep hfirst]
    simp
  · rw [cutAtAs_of_not_hasAs h]
    simp

theorem exists_two_pieces (h : HasAs cs) : ∃ p q ps, cutAtAs cs = p :: q :: ps := by
  obtain ⟨front, sep, back, rfl, hsep, hfirst⟩ := exists_first h
  obtain ⟨q, ps, hback⟩ := List.exists_cons_of_ne_nil (cutAtAs_ne_nil back)
  exact ⟨front, q, ps, by rw [cutAtAs_first hsep hfirst, hback]⟩

theorem parts_first (hsep : IsAs sep) (hfirst : ¬ HasAs (front ++ [' '])) :
    parts (front ++ sep ++ back) = front :: cutAtAs back := by
  obtain ⟨p, ps, hback⟩ := List.exists_cons_of_ne_nil (cutAtAs_ne_nil back)
  rw [parts, cutAtAs_first hsep hfirst, hback]

theorem parts_of_not_hasAs (h : ¬ HasAs cs) : parts cs = cs.splitOn ' ' := by
  rw [parts, cutAtAs_of_not_hasAs h]

theorem parts_separated (hsep : IsAs sep) (hfirst : ¬ HasAs (front ++ [' '])) (hlast : ¬ HasAs back) :
    parts (front ++ sep ++ back) = [front, back] := by
  rw [parts_first hsep hfirst, cutAtAs_of_not_hasAs hlast]

theorem parts_spaced (hfirst : ' ' ∉ front) (hlast : ' ' ∉ back) : parts (front ++ ' ' :: back) = [front, back] := by
  rw [parts_of_not_hasAs (not_hasAs_spaced hfirst hlast), List.splitOn_append_cons_self_of_not_mem hfirst,
    List.splitOn_eq_singleton hlast]

theorem parts_bare (h : ' ' ∉ cs) : parts cs = [cs] := by
  rw [parts_of_not_hasAs (not_hasAs_bare h), List.splitOn_eq_singleton h]

/-! ## Entries -/

section
variable {declaration : String} {col : Column} {expression name : List Char}

theorem ofDeclaration_of_two (h : parts (collapse declaration).toList = [expression, name]) :
    ofDeclaration declaration = .ok col ↔
      expression ≠ [] ∧ name ≠ [] ∧ col = ⟨.ofList name, .ofList expression⟩ := by
  rw [ofDeclaration, h]
  by_cases hexpression : expression = [] <;> by_cases hname : name = [] <;> simp [hexpression, hname, @eq_comm _ col]

theorem ofDeclaration_of_one (h : parts (collapse declaration).toList = [expression]) :
    ofDeclaration declaration = .ok col ↔
      expression ≠ [] ∧ col = ⟨.ofList (afterLastDot expression), .ofList expression⟩ := by
  rw [ofDeclaration, h]
  by_cases hexpression : expression = [] <;> simp [hexpression, @eq_comm _ col]

theorem ofDeclaration_of_more {p q r : List Char} {ps : List (List Char)}
    (h : parts (collapse declaration).toList = p :: q :: r :: ps) : ofDeclaration declaration ≠ .ok col := by
  rw [ofDeclaration, h]
  simp

/-- Every entry that is accepted reads in one of the ways. -/
theorem reading_of_ofDeclaration (h : ofDeclaration declaration = .ok col) :
    Reading (collapse declaration).toList col.expression.toList col.name.toList := by
  by_cases has : HasAs (collapse declaration).toList
  · obtain ⟨expression, sep, name, htext, hsep, hfirst⟩ := exists_first has
    by_cases hlast : HasAs name
    · obtain ⟨p, q, ps, hname⟩ := exists_two_pieces hlast
      exact absurd h (ofDeclaration_of_more (by rw [htext, parts_first hsep hfirst, hname]))
    · obtain ⟨hexpression, hname, rfl⟩ :=
        (ofDeclaration_of_two (by rw [htext, parts_separated hsep hfirst hlast])).1 h
      rw [htext, String.toList_ofList, String.toList_ofList]
      exact .separated hsep hexpression hname hfirst hlast
  by_cases hspace : ' ' ∈ (collapse declaration).toList
  · obtain ⟨expression, name, htext, hfirst⟩ := List.eq_append_cons_of_mem hspace
    by_cases hlast : ' ' ∈ name
    · obtain ⟨q, rest, rfl, hq⟩ := List.eq_append_cons_of_mem hlast
      obtain ⟨r, ps, hrest⟩ := List.exists_cons_of_ne_nil (List.splitOn_ne_nil ' ' rest)
      have hparts : parts (collapse declaration).toList = expression :: q :: r :: ps := by
        rw [parts_of_not_hasAs has, htext, List.splitOn_append_cons_self_of_not_mem hfirst,
          List.splitOn_append_cons_self_of_not_mem hq, hrest]
      exact absurd h (ofDeclaration_of_more hparts)
    · obtain ⟨hexpression, hname, rfl⟩ := (ofDeclaration_of_two (by rw [htext, parts_spaced hfirst hlast])).1 h
      rw [htext, String.toList_ofList, String.toList_ofList]
      exact .spaced hexpression hname hfirst hlast
  · obtain ⟨hexpression, rfl⟩ := (ofDeclaration_of_one (parts_bare hspace)).1 h
    rw [String.toList_ofList, String.toList_ofList]
    exact .bare hexpression hspace

/-- Every entry that reads in one of the ways is accepted. -/
theorem ofDeclaration_of_reading (h : Reading (collapse declaration).toList expression name) :
    ofDeclaration declaration = .ok ⟨.ofList name, .ofList expression⟩ := by
  generalize htext : (collapse declaration).toList = cs at h
  cases h with
  | separated hsep hexpression hname hfirst hlast =>
    exact (ofDeclaration_of_two (by rw [htext, parts_separated hsep hfirst hlast])).2 ⟨hexpression, hname, rfl⟩
  | spaced hexpression hname hfirst hlast =>
    exact (ofDeclaration_of_two (by rw [htext, parts_spaced hfirst hlast])).2 ⟨hexpression, hname, rfl⟩
  | bare hexpression hspace =>
    exact (ofDeclaration_of_one (by rw [htext, parts_bare hspace])).2 ⟨hexpression, rfl⟩

theorem ofDeclaration_eq_ok :
    ofDeclaration declaration = .ok col ↔
      Reading (collapse declaration).toList col.expression.toList col.name.toList := by
  refine ⟨reading_of_ofDeclaration, fun h => ?_⟩
  rw [ofDeclaration_of_reading h, String.ofList_toList, String.ofList_toList]

end

end Listing.Column
