import Listing.Proofs.Sql.Strings
import Listing.Proofs.Statement.Literals
/-!
# Texts read back

A text that is written into a statement is read back by PostgreSQL (`Sql.literal?`) as it was, but for the
character U+001A: it is written as `\z`, which PostgreSQL takes for a `z` (`literal?_write`). The
literal stands where the placeholder was, wherever that is outside quotes (`inlineTexts_decoded`).
-/
namespace Listing

open Sql

/-! ## One literal -/

namespace Literal

/-- The character that is read where a character was written. -/
def reread (c : Char) : Char := if c = '\x1a' then 'z' else c

theorem bytes?_escape (small : Bool) {c : Char} (hzero : c ≠ '\x00') (cs : List Char) :
    bytes? (.escaped small) 0 (escape c ++ cs) =
      (bytes? (.escaped small) 0 cs).map (String.utf8EncodeChar (reread c) ++ ·) := by
  have hnamed : ∀ {c d : Char}, escape c = ['\\', d] →
      escape? (d :: cs) = some (String.utf8EncodeChar (reread c), 1) →
      bytes? (.escaped small) 0 (escape c ++ cs) =
        (bytes? (.escaped small) 0 cs).map (String.utf8EncodeChar (reread c) ++ ·) := by
    intro c d hc hescape
    rw [hc]
    exact Sql.bytes?_escape rfl hescape
  by_cases hspecial : c ∈ ['\\', '\x22', '\x27', '\x08', '\t', '\x1a', '\n', '\r']
  · -- no escape that is written begins with an octal digit, so what follows cannot lengthen it
    simp only [List.mem_cons, List.not_mem_nil, or_false] at hspecial
    rcases hspecial with rfl | rfl | rfl | rfl | rfl | rfl | rfl | rfl <;> exact hnamed rfl rfl
  · simp only [List.mem_cons, List.not_mem_nil, or_false, not_or] at hspecial
    obtain ⟨hslash, hdouble, hsingle, hback, htab, hsub, hfeed, hreturn⟩ := hspecial
    have hplain : escape c = [c] := by
      simp [escape, hslash, hdouble, hsingle, hback, htab, hsub, hfeed, hreturn, hzero]
    rw [hplain, reread, if_neg hsub]
    exact bytes?_char hsingle (by simp [hslash]) cs

theorem bytes?_escaped (small : Bool) {cs : List Char} (hzero : '\x00' ∉ cs) :
    bytes? (.escaped small) 0 (cs.flatMap escape) = some ((cs.map reread).flatMap String.utf8EncodeChar) := by
  induction cs with
  | nil => rfl
  | cons c cs ih =>
    rw [List.mem_cons, not_or] at hzero
    rw [List.flatMap_cons, bytes?_escape small (Ne.symm hzero.1), ih hzero.2]
    rfl

/-- Without a backslash all is as it was. -/
theorem bytes?_text {cs : List Char} (h : '\\' ∉ cs.flatMap escape) :
    bytes? .text 0 (cs.flatMap escape) = some ((cs.map reread).flatMap String.utf8EncodeChar) := by
  induction cs with
  | nil => rfl
  | cons c cs ih =>
    rw [List.flatMap_cons, List.mem_append, not_or] at h
    rcases escape_cases c with ⟨d, hc⟩ | ⟨hc, _, hquote⟩
    · exact absurd (hc ▸ List.mem_cons_self) h.1
    · have hreread : reread c = c := by
        refine if_neg ?_
        rintro rfl
        cases hc
      rw [List.flatMap_cons, hc, List.singleton_append, bytes?_char hquote rfl, ih h.2, List.map_cons, hreread]
      rfl

/-- What a text is read back as: itself, unless it has the one character that is lost. -/
theorem literal?_write {cs : List Char} (hzero : '\x00' ∉ cs) :
    literal? (write cs) = some (.ofList (cs.map reread)) := by
  have hstands : (token cs).Stands [] := .quoted (body_token cs) (by split <;> rfl)
  have hbytes : (token cs).value? = textOf? ((cs.map reread).flatMap String.utf8EncodeChar) := by
    rw [token, Token.value?]
    split
    · rw [bytes?_escaped false hzero]
      rfl
    · next h =>
      rw [bytes?_text h]
      rfl
  have hkept : '\x00' ∉ cs.map reread := by
    intro hmem
    obtain ⟨c, hc, hread⟩ := List.mem_map.1 hmem
    rw [reread] at hread
    split at hread
    · exact absurd hread (by decide)
    · exact hzero (hread ▸ hc)
  rw [← text_token, literal?_token hstands, hbytes, textOf?_encoded hkept]

theorem map_reread_eq_iff {cs : List Char} : cs.map reread = cs ↔ '\x1a' ∉ cs := by
  have hpointwise : cs.map reread = cs ↔ ∀ c ∈ cs, reread c = id c := by rw [← List.map_inj_left, List.map_id]
  rw [hpointwise]
  constructor
  · intro h hmem
    exact absurd (h _ hmem) (by decide)
  · intro h c hc
    refine if_neg ?_
    rintro rfl
    exact h hc

end Literal

/-! ## Its place -/

namespace Inlined

/-- Texts whose quotes are all closed. -/
inductive Closed : List Char → Prop
  | nil : Closed []
  | char {c : Char} {cs : List Char} (hquote : isQuote c = false) (h : Closed cs) : Closed (c :: cs)
  | quoted {q : Char} {body cs : List Char} (hquote : isQuote q = true) (hbody : q ∉ body) (h : Closed cs) :
      Closed (q :: body ++ q :: cs)

theorem closed_of_all {cs : List Char} (h : cs.all (!isQuote ·) = true) : Closed cs := by
  induction cs with
  | nil => exact .nil
  | cons c cs ih =>
    rw [List.all_cons, Bool.and_eq_true, Bool.not_eq_true'] at h
    exact .char h.1 (ih h.2)

theorem Closed.append {cs ds : List Char} (h : Closed cs) (hds : Closed ds) : Closed (cs ++ ds) := by
  induction h with
  | nil => exact hds
  | char hquote _ ih => exact .char hquote ih
  | quoted hquote hbody _ ih =>
    rw [List.append_assoc, List.cons_append]
    exact .quoted hquote hbody ih

/-- Whether the scanner is in quotes. -/
def Mode.isOpen : Mode → Bool
  | .quoted _ => true
  | .plain | .slot _ => false

theorem pieces_cons (mode : Mode) (c : Char) (cs : List Char) :
    pieces mode (c :: cs) = (step mode c).2 ++ pieces (step mode c).1 cs := by
  cases mode <;> rfl

theorem isOpen_step {mode : Mode} {c : Char} (hmode : mode.isOpen = false) (hquote : isQuote c = false) :
    (step mode c).1.isOpen = false := by
  have henter : (enter c).1.isOpen = false := by
    rw [enter, hquote]
    split <;> rfl
  cases mode with
  | plain => exact henter
  | quoted => cases hmode
  | slot read =>
    rw [step]
    split
    · rfl
    · exact henter

theorem step_quote {mode : Mode} {q : Char} (hmode : mode.isOpen = false) (hquote : isQuote q = true) :
    (step mode q).1 = .quoted q := by
  have henter : (enter q).1 = .quoted q := by
    have hslot : q ≠ '$' := by
      rintro rfl
      cases hquote
    rw [enter, if_neg hslot, if_pos hquote]
  cases mode with
  | plain => exact henter
  | quoted => cases hmode
  | slot read =>
    have hdigit : q.isDigit = false := by
      simp only [isQuote, Bool.or_eq_true, beq_iff_eq] at hquote
      rcases hquote with rfl | rfl <;> rfl
    rw [step, hdigit]
    exact henter

theorem pieces_quoted {q : Char} {body : List Char} (h : q ∉ body) (rest : List Char) :
    pieces (.quoted q) (body ++ q :: rest) = (body ++ [q]).map .char ++ pieces .plain rest := by
  induction body with
  | nil => simp [pieces, step]
  | cons c body ih =>
    rw [List.mem_cons, not_or] at h
    rw [List.cons_append, pieces_cons, step, if_neg (Ne.symm h.1), ih h.2]
    rfl

/-- A placeholder behind closed quotes is read for itself. -/
theorem pieces_closed {front : List Char} (h : Closed front) (rest : List Char) :
    pieces .plain (front ++ '$' :: rest) = pieces .plain front ++ pieces .plain ('$' :: rest) := by
  -- in front of the placeholder the scanner may be behind another one
  suffices hmode : ∀ mode : Mode, mode.isOpen = false →
      pieces mode (front ++ '$' :: rest) = pieces mode front ++ pieces .plain ('$' :: rest) from hmode .plain rfl
  induction h with
  | nil =>
    intro mode hmode
    cases mode with
    | plain => rfl
    | quoted => cases hmode
    | slot read => rfl
  | char hquote _ ih =>
    intro mode hmode
    rw [List.cons_append, pieces_cons mode, pieces_cons mode, ih _ (isOpen_step hmode hquote), List.append_assoc]
  | @quoted q body cs hquote hbody _ ih =>
    intro mode hmode
    have hopened := step_quote hmode hquote
    rw [List.append_assoc, List.cons_append, List.cons_append, List.cons_append, pieces_cons mode, pieces_cons mode,
      hopened, pieces_quoted hbody, pieces_quoted hbody, ih .plain rfl]
    simp only [List.append_assoc]

/-- The pieces behind others are filled as the others leave the count of values. -/
theorem fill_append (params : List Value) (before : Nat) (ps qs : List Piece) :
    fill params before (ps ++ qs) =
      ((fill params before ps).1 ++ (fill params (before + (fill params before ps).2.length) qs).1,
        (fill params before ps).2 ++ (fill params (before + (fill params before ps).2.length) qs).2) := by
  induction ps generalizing before with
  | nil => rfl
  | cons p ps ih =>
    cases p with
    | char c =>
      rw [List.cons_append, fill, fill, ih]
      rfl
    | slot ds =>
      rw [List.cons_append]
      rcases valueAt?_cases params ds with h | ⟨s, h⟩ | ⟨v, h, hv⟩
      · simp only [fill_none h, ih, List.append_assoc, List.cons_append]
      · simp only [fill_str h, ih, List.append_assoc]
      · simp only [fill_other h hv, ih, List.append_assoc, List.cons_append, List.length_cons, Nat.add_assoc,
          Nat.add_comm 1]

end Inlined

/-- Texts are written in the places of their placeholders. Where the quotes in front of a placeholder are closed,
its text is read back as it was, each U+001A in it as a `z`. -/
theorem Bound.inlineTexts_decoded (b : Bound) {front digits back : List Char} {s : String}
    (hsql : b.sql.toList = front ++ '$' :: digits ++ back) (hfront : Inlined.Closed front)
    (hdigits : ∀ d ∈ digits, d.isDigit = true) (hback : startsWith Char.isDigit back = false)
    (hvalue : Inlined.valueAt? b.params digits = some (.str s)) (hzero : '\x00' ∉ s.toList) :
    (∃ rest, b.inlineTexts.sql =
      (inlineTexts ⟨.ofList front, b.params⟩).sql ++ .ofList (Literal.write s.toList) ++ rest) ∧
    literal? (Literal.write s.toList) = some (.ofList (s.toList.map Literal.reread)) ∧
    (literal? (Literal.write s.toList) = some s ↔ '\x1a' ∉ s.toList) := by
  have hread := Literal.literal?_write hzero
  refine ⟨?_, hread, ?_⟩
  · have hpieces : Inlined.pieces .plain b.sql.toList =
        Inlined.pieces .plain front ++ .slot digits :: Inlined.pieces .plain back := by
      rw [hsql, List.append_assoc, List.cons_append, Inlined.pieces_closed hfront, ← List.cons_append,
        Inlined.pieces_slot hdigits hback]
    simp only [inlineTexts, hpieces, Inlined.fill_append, Inlined.fill_str hvalue, String.toList_ofList,
      String.ofList_append, String.append_assoc]
    exact ⟨_, rfl⟩
  · rw [hread, Option.some_inj, ← Literal.map_reread_eq_iff, ← String.toList_inj, String.toList_ofList]

/-- A note with a quote character, a backslash in front of a digit and a U+001A. -/
def note : String := "it\x27s C:\\1\x1a"

/-- Moors of some depth with that note, which has to be escaped. -/
def moors : Bound := ⟨"SELECT * FROM moor WHERE kind = \x27$2\x27 AND depth < $1 AND note = $2", [.int 3, .str note]⟩

theorem Bound.inlineTexts_decoded_moors :
    Inlined.Closed "SELECT * FROM moor WHERE kind = \x27$2\x27 AND depth < $1 AND note = ".toList ∧
    '\x00' ∉ note.toList ∧
    (∃ rest, moors.inlineTexts.sql =
      (inlineTexts ⟨"SELECT * FROM moor WHERE kind = \x27$2\x27 AND depth < $1 AND note = ", moors.params⟩).sql ++
        .ofList (Literal.write note.toList) ++ rest) ∧
    literal? (Literal.write note.toList) = some "it\x27s C:\\1z" := by
  have hzero : '\x00' ∉ note.toList := by decide
  have hfront : Inlined.Closed "SELECT * FROM moor WHERE kind = ".toList := Inlined.closed_of_all (by decide)
  have hquoted : Inlined.Closed ('\x27' :: "$2".toList ++ '\x27' :: " AND depth < $1 AND note = ".toList) :=
    .quoted rfl (by decide) (Inlined.closed_of_all (by decide))
  have hsql : moors.sql.toList =
      "SELECT * FROM moor WHERE kind = \x27$2\x27 AND depth < $1 AND note = ".toList ++ '$' :: ['2'] ++ [] := by decide
  have hdigits : ∀ d ∈ ['2'], d.isDigit = true := List.forall_mem_singleton.2 rfl
  have h := inlineTexts_decoded moors hsql (hfront.append hquoted) hdigits rfl rfl hzero
  exact ⟨hfront.append hquoted, hzero, h.1, h.2.1⟩

/-- U+001A alone is read back as another text. -/
theorem Bound.inlineTexts_loses_substitute :
    inlineTexts ⟨"SELECT $1", [.str "\x1a"]⟩ = ⟨"SELECT E\x27\\z\x27", []⟩ ∧
      literal? "E\x27\\z\x27".toList = some "z" :=
  ⟨rfl, by decide +kernel⟩

end Listing
