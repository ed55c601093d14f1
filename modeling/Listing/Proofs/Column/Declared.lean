import Mathlib
import Listing.Proofs.Column.Usable
import Listing.Skeleton
/-!
# Columns as they are declared

However an entry for a column is written, with `as` in any letter case and any blanks or as an expression that names
itself, it declares that column, and a skeleton's columns are those its select list was written for
(`columns_written`).
-/
namespace Listing.Column

open Text (IsGap IsWord collapse)

/-- An entry as it may be written for a column. -/
inductive Written : String → Column → Prop
  /-- Expression and name may have any blanks in them and around the `as`. Neither may have an `as` of its own where it
  would separate; that at the end of an expression would, that at the beginning of a name would not. -/
  | named {col : Column} {e gap as gap' a : String}
      (hexpression : collapse e = col.expression ∧ col.expression ≠ "")
      (hname : collapse a = col.name ∧ col.name ≠ "")
      (hgap : IsGap gap.toList) (has : Text.sameAscii as "as" = true) (hgap' : IsGap gap'.toList)
      (hfirst : ¬ HasAs (col.expression.toList ++ [' '])) (hlast : ¬ HasAs col.name.toList) :
      Written (e ++ gap ++ as ++ gap' ++ a) col
  /-- An expression alone is one word, and its name is what follows its last dot. -/
  | bare {col : Column} {entry : String}
      (hexpression : collapse entry = col.expression ∧ col.expression ≠ "")
      (hword : ∀ c ∈ col.expression.toList, Text.isBlank c = false)
      (hname : '.' ∉ col.name.toList ∧
        (col.expression = col.name ∨ ∃ front, col.expression = front ++ "." ++ col.name)) :
      Written entry col

variable {entry : String} {col : Column}

theorem isBlank_of_toLower {c d : Char} (h : c.toLower = d) (hd : d.isLower = true) : Text.isBlank c = false := by
  have halpha : c.isAlpha = true := by rw [← c.isLower_toLower_eq_isAlpha, h, hd]
  exact Text.isBlank_of_isAlphanum (by rw [Char.isAlphanum, halpha, Bool.true_or])

/-- In any letter case `as` is a word, and with spaces around it it separates. -/
theorem isWord_isAs {as : String} (h : Text.sameAscii as "as" = true) :
    IsWord as.toList ∧ IsAs (" " ++ as ++ " ").toList := by
  have hletters : as.toList.map Char.toLower = ['a', 's'] := beq_iff_eq.1 h
  constructor
  · obtain ⟨a, _, htext, ha, hrest⟩ := List.map_eq_cons_iff.1 hletters
    obtain ⟨s, _, rfl, hs, hnone⟩ := List.map_eq_cons_iff.1 hrest
    obtain rfl := List.map_eq_nil_iff.1 hnone
    rw [htext]
    refine ⟨by simp, ?_⟩
    simp [isBlank_of_toLower ha rfl, isBlank_of_toLower hs rfl]
  · rw [IsAs, String.toList_append, String.toList_append, List.map_append, List.map_append, hletters]
    rfl

/-- What is written for a column reads as its expression and its name. -/
theorem Written.reading (h : Written entry col) :
    Reading (collapse entry).toList col.expression.toList col.name.toList := by
  cases h with
  | @named _ e gap as gap' a hexpression hname hgap has hgap' hfirst hlast =>
    obtain ⟨hword, hsep⟩ := isWord_isAs has
    have has' : collapse as = as := Text.collapse_of_isWord hword
    have hleft : collapse (e ++ gap ++ as) = col.expression ++ " " ++ as := by
      rw [Text.collapse_gap hgap (hexpression.1 ▸ hexpression.2), hexpression.1, has']
      rw [has']
      exact toList_ne_nil.1 hword.1
    have hleft_ne : collapse (e ++ gap ++ as) ≠ "" := by
      rw [hleft, ← toList_ne_nil]
      simp
    have htext : collapse (e ++ gap ++ as ++ gap' ++ a) = col.expression ++ (" " ++ as ++ " ") ++ col.name := by
      rw [Text.collapse_gap hgap' hleft_ne (hname.1 ▸ hname.2), hleft, hname.1]
      simp only [String.append_assoc]
    rw [htext, String.toList_append, String.toList_append]
    exact .separated hsep (toList_ne_nil.2 hexpression.2) (toList_ne_nil.2 hname.2) hfirst hlast
  | bare hexpression hword hname =>
    have hdots : afterLastDot col.expression.toList = col.name.toList := by
      refine afterLastDot_eq_iff.2 ⟨hname.1, hname.2.imp (congrArg String.toList) ?_⟩
      rintro ⟨front, hfront⟩
      exact ⟨front.toList, by rw [hfront]; simp⟩
    rw [hexpression.1, ← hdots]
    refine .bare (toList_ne_nil.2 hexpression.2) fun hspace => ?_
    exact absurd (hword ' ' hspace) (by decide)

/-- The columns of a select list are read entry by entry. -/
theorem columnsOf_eq_ok {entries : List String} {columns : List Column} :
    Skeleton.columnsOf entries = .ok columns ↔
      List.Forall₂ (fun entry col => ofDeclaration entry = .ok col) entries columns := by
  induction entries generalizing columns with
  | nil =>
    rw [List.forall₂_nil_left_iff]
    exact ⟨fun h => (Except.ok.inj h).symm, fun h => h ▸ rfl⟩
  | cons entry entries ih =>
    simp only [List.forall₂_cons_left_iff, ← ih, Skeleton.columnsOf]
    cases ofDeclaration entry with
    | error e => simp [bind, Except.bind]
    | ok col =>
      cases Skeleton.columnsOf entries with
      | error e => simp [bind, Except.bind]
      | ok rest => simp [bind, Except.bind, pure, Except.pure, @eq_comm _ columns]

/-- Every entry declares the column it is written for, and a skeleton has the columns its select list is written for,
in its order. -/
theorem columns_written :
    (∀ {entry : String} {col : Column}, Written entry col → ofDeclaration entry = .ok col) ∧
    ∀ {s : Skeleton} {columns : List Column}, List.Forall₂ Written s.select columns → s.columns = .ok columns := by
  have hentry : ∀ {entry col}, Written entry col → ofDeclaration entry = .ok col :=
    fun h => ofDeclaration_eq_ok.2 h.reading
  exact ⟨hentry, fun h => columnsOf_eq_ok.2 (h.imp fun _ _ => hentry)⟩

/-- Words that look like the separator, and an entry without one. -/
theorem columns_written_peaks :
    ofDeclaration "p.mass \t aS\n as  is" = .ok ⟨"as is", "p.mass"⟩ ∧
    (Skeleton.mk ["p.mass \t aS\n as  is", "as AS as", " p.peak.height "] "peak" (some "p") [] [] []).columns =
      .ok [⟨"as is", "p.mass"⟩, ⟨"as", "as"⟩, ⟨"height", "p.peak.height"⟩] := by
  have hmass : Written "p.mass \t aS\n as  is" ⟨"as is", "p.mass"⟩ :=
    @Written.named _ "p.mass" " \t " "aS" "\n " "as  is" ⟨by cbv, by decide⟩ ⟨by cbv, by decide⟩
      ⟨by decide, by simp [Text.isBlank]⟩ (by decide) ⟨by decide, by simp [Text.isBlank]⟩
      (not_hasAs_spaced (by decide) (by decide)) (@not_hasAs_spaced "as".toList "is".toList (by decide) (by decide))
  have has : Written "as AS as" ⟨"as", "as"⟩ :=
    @Written.named _ "as" " " "AS" " " "as" ⟨by cbv, by decide⟩ ⟨by cbv, by decide⟩
      ⟨by decide, by simp [Text.isBlank]⟩ (by decide) ⟨by decide, by simp [Text.isBlank]⟩
      (not_hasAs_spaced (by decide) (by decide)) (not_hasAs_bare (by decide))
  have hheight : Written " p.peak.height " ⟨"height", "p.peak.height"⟩ :=
    .bare ⟨by cbv, by decide⟩ (by simp [Text.isBlank]) ⟨by decide, .inr ⟨"p.peak", rfl⟩⟩
  exact ⟨columns_written.1 hmass, columns_written.2 (.cons hmass (.cons has (.cons hheight .nil)))⟩

end Listing.Column
