import Mathlib
import Listing.Proofs.Column.Read
import Listing.Proofs.Text.Words
/-!
# What entries give

An entry of a select list that is accepted gives an expression and a name whose blanks are single spaces between other
characters, and it gives the same in every letter case of its separator (`ofDeclaration_tidy`). The expression is never
empty. The name is empty where an expression without a name ends with a dot (`ofDeclaration_nameless`).
-/
namespace Listing.Column

open Text (collapse Tidy)

/-- Texts that are the same but for the letter case of their first separator. -/
inductive SameBesidesCase : List Char → List Char → Prop
  | same {cs : List Char} : SameBesidesCase cs cs
  | first {front sep sep' back : List Char} (hsep : IsAs sep) (hsep' : IsAs sep') (hfirst : ¬ HasAs (front ++ [' '])) :
      SameBesidesCase (front ++ sep ++ back) (front ++ sep' ++ back)

variable {cs ds expression name : List Char}

/-! ## Names behind dots -/

theorem afterLastDot_eq_iff :
    afterLastDot cs = name ↔ '.' ∉ name ∧ (cs = name ∨ ∃ front, cs = front ++ '.' :: name) := by
  constructor
  · rintro rfl
    have hdots : '.' ∉ afterLastDot cs := by
      intro hmem
      rw [afterLastDot, List.mem_reverse] at hmem
      have hdot := List.mem_takeWhile_imp hmem
      simp at hdot
    refine ⟨hdots, ?_⟩
    have hsplit : cs = (cs.reverse.dropWhile (· != '.')).reverse ++ afterLastDot cs := by
      rw [afterLastDot, ← List.reverse_append, List.takeWhile_append_dropWhile, List.reverse_reverse]
    cases hrest : cs.reverse.dropWhile (· != '.') with
    | nil =>
      rw [hrest] at hsplit
      exact .inl hsplit
    | cons c rest =>
      have hc := List.head?_dropWhile_not (· != '.') cs.reverse
      rw [hrest] at hc
      obtain rfl : c = '.' := by simpa using hc
      rw [hrest] at hsplit
      exact .inr ⟨rest.reverse, by simpa using hsplit⟩
  · rintro ⟨hdots, hcs⟩
    have hall : ∀ c ∈ name.reverse, (c != '.') = true := fun c hc =>
      bne_iff_ne.2 fun e => hdots (e ▸ List.mem_reverse.1 hc)
    rcases hcs with rfl | ⟨front, rfl⟩
    · rw [afterLastDot, List.takeWhile_eq_self_iff.2 hall, List.reverse_reverse]
    · rw [afterLastDot, List.reverse_append, List.reverse_cons, List.append_assoc, List.takeWhile_append_of_pos hall]
      simp

theorem mem_of_mem_afterLastDot {c : Char} (h : c ∈ afterLastDot cs) : c ∈ cs := by
  rw [afterLastDot, List.mem_reverse] at h
  exact List.mem_reverse.1 ((List.takeWhile_sublist _).subset h)

theorem afterLastDot_eq_nil : afterLastDot cs = [] ↔ cs = [] ∨ ∃ front, cs = front ++ ['.'] := by
  simp [afterLastDot_eq_iff]

/-! ## Readings of tidy texts -/

/-- In a tidy text without spaces there are no blanks. -/
theorem isBlank_of_space_notMem (h : Tidy cs) (hspace : ' ' ∉ cs) {c : Char} (hc : c ∈ cs) : Text.isBlank c = false := by
  rw [← Bool.not_eq_true]
  intro hblank
  exact hspace (h.spaces c hc hblank ▸ hc)

theorem Reading.tidy (h : Reading cs expression name) (hcs : Tidy cs) : Tidy expression ∧ Tidy name := by
  cases h with
  | separated hsep =>
    obtain ⟨a, s, rfl, -⟩ := isAs_iff.1 hsep
    rw [List.append_assoc] at hcs
    obtain ⟨⟨hexpression, -⟩, hrest, -⟩ := hcs.cut
    have hname : Tidy ([a, s] ++ ' ' :: _) := hrest
    exact ⟨hexpression, hname.cut.2.1⟩
  | spaced => exact ⟨hcs.cut.1.1, hcs.cut.2.1⟩
  | bare _ hspace =>
    exact ⟨hcs, Text.tidy_of_forall fun c hc => isBlank_of_space_notMem hcs hspace (mem_of_mem_afterLastDot hc)⟩

theorem Reading.expression_ne_nil (h : Reading cs expression name) : expression ≠ [] := by
  cases h <;> assumption

/-- Only an expression without a name can leave the name empty. -/
theorem Reading.name_eq_nil (h : Reading cs expression name) :
    name = [] ↔ ∃ front, ' ' ∉ front ∧ cs = front ++ ['.'] := by
  -- with a name of its own an entry has a space that is not its end
  have hspaced : ∀ {front back : List Char}, back ≠ [] →
      ¬ ∃ word, ' ' ∉ word ∧ front ++ ' ' :: back = word ++ ['.'] := by
    rintro front back - ⟨word, hword, htext⟩
    have hmem : ' ' ∈ word ++ ['.'] := htext ▸ by simp
    simp [hword] at hmem
  cases h with
  | separated hsep _ hname =>
    obtain ⟨a, s, rfl, -⟩ := isAs_iff.1 hsep
    rw [List.append_assoc]
    exact iff_of_false hname (hspaced (by simp))
  | spaced _ hname => exact iff_of_false hname (hspaced hname)
  | bare hexpression hspace =>
    rw [afterLastDot_eq_nil, or_iff_right hexpression]
    refine exists_congr fun front => ⟨?_, And.right⟩
    rintro rfl
    exact ⟨fun hmem => hspace (List.mem_append_left _ hmem), rfl⟩

/-- Where an entry has a separator it reads as what stands in front of the first and behind it. -/
theorem Reading.of_first {front sep back : List Char} (h : Reading (front ++ sep ++ back) expression name)
    (hsep : IsAs sep) (hfirst : ¬ HasAs (front ++ [' '])) :
    (front = expression ∧ back = name) ∧ front ≠ [] ∧ back ≠ [] ∧ ¬ HasAs back := by
  have has : HasAs (front ++ sep ++ back) := ⟨front, sep, back, rfl, hsep⟩
  have hcut : cutAtAs (front ++ sep ++ back) = front :: cutAtAs back := cutAtAs_first hsep hfirst
  generalize htext : front ++ sep ++ back = cs at h has hcut
  cases h with
  | separated hsep' hexpression hname hfirst' hlast =>
    rw [cutAtAs_first hsep' hfirst'] at hcut
    obtain ⟨rfl, -⟩ := List.cons.inj hcut
    rw [List.append_assoc, List.append_assoc, List.append_cancel_left_eq] at htext
    obtain ⟨-, rfl⟩ := List.append_inj htext (hsep.length_eq.trans hsep'.length_eq.symm)
    exact ⟨⟨rfl, rfl⟩, hexpression, hname, hlast⟩
  | spaced _ _ hspace hspace' => exact absurd has (not_hasAs_spaced hspace hspace')
  | bare _ hspace => exact absurd has (not_hasAs_bare hspace)

/-- The letter case of the separator does not matter. -/
theorem Reading.recased (h : Reading cs expression name) (hcase : SameBesidesCase cs ds) :
    Reading ds expression name := by
  cases hcase with
  | same => exact h
  | first hsep hsep' hfirst =>
    obtain ⟨⟨rfl, rfl⟩, hexpression, hname, hlast⟩ := h.of_first hsep hfirst
    exact .separated hsep' hexpression hname hfirst hlast

/-! ## What an accepted entry gives -/

theorem toList_ne_nil {s : String} : s.toList ≠ [] ↔ s ≠ "" := not_congr String.toList_eq_nil_iff

/-- Expression and name of an accepted entry are tidy and depend on nothing but its words, and on those not by the
letter case of the separator. The expression is not empty, and the name is empty exactly if the entry is one word with
a dot at its end. -/
theorem ofDeclaration_tidy {declaration : String} {col : Column} (h : ofDeclaration declaration = .ok col) :
    (col.expression ≠ "" ∧ Tidy col.expression.toList) ∧
    ((col.name = "" ↔ ∃ front, ' ' ∉ front ∧ (collapse declaration).toList = front ++ ['.']) ∧
      Tidy col.name.toList) ∧
    ∀ declaration', SameBesidesCase (collapse declaration).toList (collapse declaration').toList →
      ofDeclaration declaration' = .ok col := by
  have hreading := reading_of_ofDeclaration h
  obtain ⟨hexpression, hname⟩ := hreading.tidy (Text.tidy_collapse declaration)
  refine ⟨⟨toList_ne_nil.1 hreading.expression_ne_nil, hexpression⟩, ⟨?_, hname⟩, fun declaration' hcase => ?_⟩
  · rw [← String.toList_eq_nil_iff]
    exact hreading.name_eq_nil
  · exact ofDeclaration_eq_ok.2 (hreading.recased hcase)

/-- Odd blanks and letter cases in an entry for the name of a river. -/
theorem ofDeclaration_tidy_river :
    ofDeclaration "r.name\t As  river name" = .ok ⟨"river name", "r.name"⟩ ∧
      (Tidy "r.name".toList ∧ Tidy "river name".toList) ∧
      ofDeclaration " r.name aS river name\n" = .ok ⟨"river name", "r.name"⟩ := by
  have haccepted : ofDeclaration "r.name\t As  river name" = .ok ⟨"river name", "r.name"⟩ := by cbv
  have hcase : SameBesidesCase (collapse "r.name\t As  river name").toList
      (collapse " r.name aS river name\n").toList :=
    @SameBesidesCase.first "r.name".toList " As ".toList " aS ".toList "river name".toList rfl rfl
      (not_hasAs_spaced (by decide) (by decide))
  obtain ⟨⟨-, hexpression⟩, ⟨-, hname⟩, hsame⟩ := ofDeclaration_tidy haccepted
  exact ⟨haccepted, ⟨hexpression, hname⟩, hsame _ hcase⟩

/-- A dot at the end leaves nothing for the name. -/
theorem ofDeclaration_nameless : ofDeclaration "river." = .ok ⟨"", "river."⟩ := by
  cbv

end Listing.Column
