import Mathlib
import Listing.Text.Blank
/-!
# Words of a text

The words of a text are what stands between its blanks. A gap, which is one blank or several, ends a word wherever it
stands, and nothing else can be seen of it (`wordsOf_gap`). Words in a row with single spaces between them make a tidy
text: no blank at the ends, no blank but the space, and no two of them in a row (`tidy_collapse`). At each of its
spaces a tidy text falls into two that are tidy and not empty (`Tidy.cut`).
-/
namespace Listing.Text

/-- Characters of which none is blank, at least one. -/
def IsWord (w : List Char) : Prop := w ≠ [] ∧ ∀ c ∈ w, isBlank c = false

/-- Blanks between words, at least one. -/
def IsGap (bs : List Char) : Prop := bs ≠ [] ∧ ∀ b ∈ bs, isBlank b = true

/-- A text whose blanks are single spaces between other characters. -/
structure Tidy (cs : List Char) : Prop where
  begins : ∀ c ∈ cs.head?, isBlank c = false
  ends : ∀ c ∈ cs.getLast?, isBlank c = false
  spaces : ∀ c ∈ cs, isBlank c = true → c = ' '
  single : ∀ front back, cs ≠ front ++ ' ' :: ' ' :: back

variable {cs ds : List Char}

/-! ## Words and gaps -/

theorem isBlank_of_isAlphanum {c : Char} (h : c.isAlphanum = true) : isBlank c = false := by
  simp only [Char.isAlphanum, Char.isAlpha, Char.isUpper, Char.isLower, Char.isDigit, Bool.or_eq_true,
    Bool.and_eq_true, decide_eq_true_eq] at h
  have hcode : ((65 ≤ c.toNat ∧ c.toNat ≤ 90) ∨ (97 ≤ c.toNat ∧ c.toNat ≤ 122)) ∨ (48 ≤ c.toNat ∧ c.toNat ≤ 57) := h
  rw [← Bool.not_eq_true]
  simp only [isBlank, Bool.or_eq_true, Bool.and_eq_true, decide_eq_true_eq, beq_iff_eq]
  omega

/-- A number is a word. -/
theorem isWord_toDigits (n : Nat) : IsWord (Nat.toDigits 10 n) := by
  refine ⟨Nat.toDigits_ne_nil, fun c hc => isBlank_of_isAlphanum ?_⟩
  rw [Char.isAlphanum, Nat.isDigit_of_mem_toDigits (by decide) (by decide) hc, Bool.or_true]

theorem wordsOf_nil : wordsOf [] = [] := by simp [wordsOf]

theorem wordsOf_append_cons {b : Char} (hb : isBlank b = true) (cs ds : List Char) :
    wordsOf (cs ++ b :: ds) = wordsOf cs ++ wordsOf ds := by
  rw [wordsOf, List.splitOnP_append_cons cs ds hb, List.filter_append]
  rfl

theorem wordsOf_of_isWord (h : IsWord cs) : wordsOf cs = [cs] := by
  rw [wordsOf, List.splitOnP_eq_singleton h.2]
  simp [h.1]

/-- Of a gap nothing is left but that it ends a word. -/
theorem wordsOf_gap {bs : List Char} (h : IsGap bs) (cs ds : List Char) :
    wordsOf (cs ++ bs ++ ds) = wordsOf cs ++ wordsOf ds := by
  obtain ⟨b, bs, rfl⟩ := List.exists_cons_of_ne_nil h.1
  obtain ⟨hb, hbs⟩ := List.forall_mem_cons.1 h.2
  rw [List.append_assoc, List.cons_append, wordsOf_append_cons hb]
  congr 1
  clear h
  induction bs with
  | nil => rfl
  | cons b bs ih =>
    obtain ⟨hb, hbs⟩ := List.forall_mem_cons.1 hbs
    have hfirst := wordsOf_append_cons hb [] (bs ++ ds)
    rw [wordsOf_nil, List.nil_append, List.nil_append] at hfirst
    rw [List.cons_append, hfirst, ih hbs]

theorem isWord_of_mem_wordsOf {w : List Char} (h : w ∈ wordsOf cs) : IsWord w := by
  induction hlength : cs.length using Nat.strongRecOn generalizing cs with
  | ind n ih =>
    by_cases hblank : ∃ b ∈ cs, isBlank b = true
    · obtain ⟨b, hmem, hb⟩ := hblank
      obtain ⟨front, back, rfl⟩ := List.append_of_mem hmem
      rw [List.length_append, List.length_cons] at hlength
      rw [wordsOf_append_cons hb, List.mem_append] at h
      rcases h with h | h
      · exact ih front.length (by omega) h rfl
      · exact ih back.length (by omega) h rfl
    · have hnone : ∀ c ∈ cs, isBlank c = false := by simpa using hblank
      by_cases hcs : cs = []
      · rw [hcs, wordsOf_nil] at h
        cases h
      · rw [wordsOf_of_isWord ⟨hcs, hnone⟩, List.mem_singleton] at h
        exact h ▸ ⟨hcs, hnone⟩

/-! ## Words in a row -/

theorem intercalate_append {xs ys : List (List Char)} (hxs : xs ≠ []) (hys : ys ≠ []) :
    [' '].intercalate (xs ++ ys) = [' '].intercalate xs ++ ' ' :: [' '].intercalate ys := by
  induction xs with
  | nil => exact absurd rfl hxs
  | cons x xs ih =>
    cases xs with
    | nil =>
      obtain ⟨y, ys, rfl⟩ := List.exists_cons_of_ne_nil hys
      rw [List.singleton_append, List.intercalate_cons_cons, List.intercalate_singleton, List.append_assoc]
      rfl
    | cons x' xs =>
      rw [List.cons_append, List.cons_append, List.intercalate_cons_cons, ← List.cons_append, ih (by simp),
        List.intercalate_cons_cons]
      simp

theorem toList_collapse (s : String) : (collapse s).toList = [' '].intercalate (wordsOf s.toList) :=
  String.toList_ofList

theorem collapse_of_isWord {s : String} (h : IsWord s.toList) : collapse s = s := by
  rw [← String.toList_inj, toList_collapse, wordsOf_of_isWord h, List.intercalate_singleton]

theorem wordsOf_ne_nil {s : String} (h : collapse s ≠ "") : wordsOf s.toList ≠ [] := by
  intro hnone
  rw [Ne, ← String.toList_eq_nil_iff, toList_collapse, hnone] at h
  exact h rfl

/-- A gap between two texts leaves one space between what is left of them. -/
theorem collapse_gap {s t gap : String} (hgap : IsGap gap.toList) (hs : collapse s ≠ "") (ht : collapse t ≠ "") :
    collapse (s ++ gap ++ t) = collapse s ++ " " ++ collapse t := by
  have hspace : " ".toList = [' '] := rfl
  rw [← String.toList_inj, toList_collapse, String.toList_append, String.toList_append, wordsOf_gap hgap,
    intercalate_append (wordsOf_ne_nil hs) (wordsOf_ne_nil ht), String.toList_append, String.toList_append,
    toList_collapse, toList_collapse, hspace]
  simp

theorem tidy_of_forall (h : ∀ c ∈ cs, isBlank c = false) : Tidy cs where
  begins := fun c hc => h c (List.mem_of_mem_head? hc)
  ends := fun c hc => h c (List.mem_of_mem_getLast? hc)
  spaces := fun c hc hblank => absurd hblank (by simp [h c hc])
  single := by
    rintro front back rfl
    exact absurd (h ' ' (by simp)) (by decide)

/-- A space in a tidy text stands between two tidy texts. -/
theorem Tidy.cut (h : Tidy (cs ++ ' ' :: ds)) : (Tidy cs ∧ cs ≠ []) ∧ Tidy ds ∧ ds ≠ [] := by
  have hcs : cs ≠ [] := by
    rintro rfl
    exact absurd (h.begins ' ' rfl) (by decide)
  have hds : ds ≠ [] := by
    rintro rfl
    exact absurd (h.ends ' ' (by simp)) (by decide)
  have hfront : ∀ c ∈ cs, isBlank c = true → c = ' ' := fun c hc => h.spaces c (List.mem_append_left _ hc)
  have hback : ∀ c ∈ ds, isBlank c = true → c = ' ' := fun c hc =>
    h.spaces c (List.mem_append_right _ (List.mem_cons_of_mem _ hc))
  refine ⟨⟨⟨fun c hc => h.begins c ?_, fun c hc => ?_, hfront, ?_⟩, hcs⟩,
    ⟨fun c hc => ?_, fun c hc => h.ends c ?_, hback, ?_⟩, hds⟩
  · rwa [List.head?_append_of_ne_nil _ hcs]
  · -- a blank at the end of the front would stand in front of the space
    rw [← Bool.not_eq_true]
    intro hblank
    obtain ⟨front, rfl⟩ := List.getLast?_eq_some_iff.1 hc
    rw [hfront c (by simp) hblank] at h
    exact h.single front ds (by simp)
  · rintro front back rfl
    exact h.single front (back ++ ' ' :: ds) (by simp)
  · rw [← Bool.not_eq_true]
    intro hblank
    obtain ⟨back, rfl⟩ := List.head?_eq_some_iff.1 hc
    rw [hback c (by simp) hblank] at h
    exact h.single cs back rfl
  · rwa [List.getLast?_append_of_ne_nil _ (by simp), List.getLast?_cons_of_ne_nil hds]
  · rintro front back rfl
    exact h.single (cs ++ ' ' :: front) back (by simp)

/-- Between two tidy texts a space may stand. -/
theorem Tidy.spaced (h : Tidy cs) (hcs : cs ≠ []) (h' : Tidy ds) (hds : ds ≠ []) : Tidy (cs ++ ' ' :: ds) where
  begins := by
    intro c hc
    rw [List.head?_append_of_ne_nil _ hcs] at hc
    exact h.begins c hc
  ends := by
    intro c hc
    rw [List.getLast?_append_of_ne_nil _ (by simp), List.getLast?_cons_of_ne_nil hds] at hc
    exact h'.ends c hc
  spaces := by
    intro c hc hblank
    rw [List.mem_append, List.mem_cons] at hc
    rcases hc with hc | hc | hc
    · exact h.spaces c hc hblank
    · exact hc
    · exact h'.spaces c hc hblank
  single := by
    intro front back htext
    have hback : ∀ rest, ds ≠ ' ' :: rest := by
      rintro rest rfl
      exact absurd (h'.begins ' ' rfl) (by decide)
    rcases List.append_eq_append_iff.1 htext with ⟨mid, -, hmid⟩ | ⟨mid, hfront, hmid⟩
    · cases mid with
      | nil => exact hback back (List.cons.inj hmid).2
      | cons c mid => exact h'.single mid back (List.cons.inj hmid).2
    · rcases mid with _ | ⟨c, _ | ⟨d, mid⟩⟩
      · exact hback back (List.cons.inj hmid).2.symm
      · obtain ⟨rfl, -⟩ := List.cons.inj hmid
        exact absurd (h.ends ' ' (by simp [hfront])) (by decide)
      · obtain ⟨rfl, hnext⟩ := List.cons.inj hmid
        obtain ⟨rfl, -⟩ := List.cons.inj hnext
        exact h.single front mid hfront

/-- The words of any text with single spaces between them are tidy. -/
theorem tidy_collapse (s : String) : Tidy (collapse s).toList := by
  have hrow : ∀ ws : List (List Char), (∀ w ∈ ws, IsWord w) →
      Tidy ([' '].intercalate ws) ∧ (ws ≠ [] → [' '].intercalate ws ≠ []) := by
    intro ws h
    induction ws with
    | nil => exact ⟨tidy_of_forall (by simp), fun hne => absurd rfl hne⟩
    | cons w ws ih =>
      obtain ⟨hw, hws⟩ := List.forall_mem_cons.1 h
      cases ws with
      | nil =>
        rw [List.intercalate_singleton]
        exact ⟨tidy_of_forall hw.2, fun _ => hw.1⟩
      | cons w' ws =>
        obtain ⟨htidy, hne⟩ := ih hws
        rw [List.intercalate_cons_cons, List.append_assoc, List.singleton_append]
        exact ⟨(tidy_of_forall hw.2).spaced hw.1 htidy (hne (by simp)), by simp⟩
  rw [toList_collapse]
  exact (hrow _ fun w hw => isWord_of_mem_wordsOf hw).1

end Listing.Text
