import Listing.Proofs.Sql.Lexer
import Listing.Statement.Inlined
import Mathlib.Data.List.Chain
import Mathlib.Data.List.Forall2
/-!
# Texts in statements

Writing texts into a statement leaves its tokens where they are. A text's literal is one token, whatever
the text (`stands_token`): it is written with escapes only behind `E`. The pass over the statement copies
every token but the placeholders (`fill_text`), and in front of and behind a literal stand only marks that
do not grow into it (`inPlace_inlined`).
-/
namespace Listing

open Sql

def Value.isText : Value → Bool
  | .str _ => true
  | .null | .bool _ | .int _ | .float _ | .list _ => false

/-! ## The token of a text -/

namespace Literal

/-- The token that is written for a text. -/
def token (cs : List Char) : Token :=
  .quoted (if '\\' ∈ cs.flatMap escape then .escaped false else .text) (cs.flatMap escape)

theorem text_token (cs : List Char) : (token cs).text = write cs := by
  by_cases h : '\\' ∈ cs.flatMap escape <;> simp [token, write, Token.text, Quoting.lead, Quoting.mark, h]

theorem escape_cases (c : Char) :
    (∃ d, escape c = ['\\', d]) ∨ escape c = [c] ∧ c ≠ '\\' ∧ c ≠ '\x27' := by
  unfold escape
  grind

/-- The escaped characters are read as escapes. -/
theorem body_escaped (small : Bool) (cs : List Char) : Body (.escaped small) (cs.flatMap escape) := by
  induction cs with
  | nil => exact .nil
  | cons c cs ih =>
    rw [List.flatMap_cons]
    rcases escape_cases c with ⟨d, hc⟩ | ⟨hc, hslash, hquote⟩
    · rw [hc]
      exact .escape d rfl ih
    · rw [hc]
      exact .char hquote (by simp [hslash]) ih

/-- Without a backslash nothing was escaped. -/
theorem body_text {cs : List Char} (h : '\\' ∉ cs.flatMap escape) : Body .text (cs.flatMap escape) := by
  induction cs with
  | nil => exact .nil
  | cons c cs ih =>
    rw [List.flatMap_cons, List.mem_append, not_or] at h
    rw [List.flatMap_cons]
    rcases escape_cases c with ⟨d, hc⟩ | ⟨hc, hslash, hquote⟩
    · exact absurd (hc ▸ List.mem_cons_self) h.1
    · rw [hc]
      exact .char hquote rfl (ih h.2)

theorem body_token (cs : List Char) :
    Body (if '\\' ∈ cs.flatMap escape then .escaped false else .text) (cs.flatMap escape) := by
  split
  · exact body_escaped false cs
  · rename_i h
    exact body_text h

end Literal

/-! ## Statements as a compiler sets them -/

/-- Whether a digit stands behind a `$`. -/
def Sql.hasSlot : List Char → Bool
  | [] => false
  | c :: cs => c == '$' && startsWith Char.isDigit cs || hasSlot cs

namespace Sql.Token

def isSlot : Token → Bool
  | slot _ => true
  | mark _ | word _ | quoted _ _ => false

/-- Texts in quotes. -/
def isLiteral : Token → Bool
  | quoted kind _ => kind.isText
  | mark _ | word _ | slot _ => false

def isBlank : Token → Bool
  | mark c => isSpace c
  | word _ | slot _ | quoted _ _ => false

/-- Whether the token is read as it is meant: no text has escapes, and no word has a placeholder in it. -/
def isStandard : Token → Bool
  | quoted kind _ => !kind.isEscaped
  | word cs => !hasSlot cs
  | mark _ | slot _ => true

/-- Whether the token, if it is a placeholder, stands for one of so many values. -/
def isNumbered (count : Nat) : Token → Bool
  | slot digits => 1 ≤ Text.digitsToNat digits && Text.digitsToNat digits ≤ count
  | mark _ | word _ | quoted _ _ => true

/-- Placeholders have certain marks on both sides. -/
def Joins (t u : Token) : Prop :=
  (u.isSlot = true → t ∈ [mark ' ', mark '(', mark ',']) ∧ (t.isSlot = true → u ∈ [mark ' ', mark ',', mark ')'])

/-- Of two tokens that are read together, neither is a placeholder. -/
def Apart (t u : Token) : Prop :=
  t.isSlot || t.isLiteral → u.isSlot || u.isLiteral → t.isSlot = false ∧ u.isSlot = false

instance : DecidableRel Joins := fun _ _ => inferInstanceAs (Decidable (_ ∧ _))

instance : DecidableRel Apart := fun _ _ => inferInstanceAs (Decidable (_ → _ → _))

end Sql.Token

/-- The placeholders of so many values stand between marks, apart from each other and from texts in
quotes, and nothing else is read as one. -/
structure Placed (count : Nat) (ts : List Token) : Prop where
  standard : ∀ t ∈ ts, t.isStandard = true
  numbered : ∀ t ∈ ts, t.isNumbered count = true
  first : ∀ t ∈ ts.head?, t.isSlot = false
  joined : ts.IsChain Token.Joins
  apart : (ts.filter (!·.isBlank)).IsChain Token.Apart

/-! ## The pass over a statement -/

namespace Inlined

theorem isQuote_of_isWordChar {c : Char} (h : isWordChar c = true) : isQuote c = false := by
  by_contra hquote
  simp only [isQuote, Bool.not_eq_false, Bool.or_eq_true, beq_iff_eq] at hquote
  rcases hquote with rfl | rfl <;> cases h

section
variable {params : List Value}

theorem fill_none {digits : List Char} (h : valueAt? params digits = none) (before : Nat) (ps : List Piece) :
    fill params before (.slot digits :: ps) =
      ('$' :: digits ++ (fill params before ps).1, (fill params before ps).2) := by
  rw [fill, h]

theorem fill_str {digits : List Char} {s : String} (h : valueAt? params digits = some (.str s)) (before : Nat)
    (ps : List Piece) :
    fill params before (.slot digits :: ps) =
      (Literal.write s.toList ++ (fill params before ps).1, (fill params before ps).2) := by
  rw [fill, h]

theorem fill_other {digits : List Char} {v : Value} (h : valueAt? params digits = some v)
    (hv : v.isText = false) (before : Nat) (ps : List Piece) :
    fill params before (.slot digits :: ps) =
      ('$' :: (toString (before + 1)).toList ++ (fill params (before + 1) ps).1,
        v :: (fill params (before + 1) ps).2) := by
  rw [fill, h]
  cases v with
  | str => cases hv
  | null | bool | int | float | list => rfl

/-- A placeholder stands for nothing, for a text, or for another value. -/
theorem valueAt?_cases (params : List Value) (digits : List Char) :
    valueAt? params digits = none ∨ (∃ s, valueAt? params digits = some (.str s)) ∨
      ∃ v, valueAt? params digits = some v ∧ v.isText = false := by
  cases valueAt? params digits with
  | none => exact .inl rfl
  | some v =>
    cases v with
    | str s => exact .inr (.inl ⟨s, rfl⟩)
    | null | bool | int | float | list => exact .inr (.inr ⟨_, rfl, rfl⟩)

theorem fill_chars (before : Nat) (cs : List Char) (ps : List Piece) :
    fill params before (cs.map .char ++ ps) = (cs ++ (fill params before ps).1, (fill params before ps).2) := by
  induction cs with
  | nil => rfl
  | cons c cs ih =>
    rw [List.map_cons, List.cons_append, fill, ih]
    rfl

/-- A `$` without digits is copied. -/
theorem fill_dollar (before : Nat) {rest : List Char} (h : startsWith Char.isDigit rest = false) :
    fill params before (pieces .plain ('$' :: rest)) =
      ('$' :: (fill params before (pieces .plain rest)).1, (fill params before (pieces .plain rest)).2) := by
  cases rest with
  | nil => rfl
  | cons c rest =>
    have hc : c.isDigit = false := h
    have hpieces : pieces .plain ('$' :: c :: rest) = .slot [] :: pieces .plain (c :: rest) := by
      simp [pieces, step, enter, hc]
    rw [hpieces]
    rfl

theorem pieces_plain {c : Char} (hslot : c ≠ '$') (hquote : isQuote c = false) (rest : List Char) :
    pieces .plain (c :: rest) = .char c :: pieces .plain rest := by
  simp [pieces, step, enter, hslot, hquote]

theorem fill_char (before : Nat) {c : Char} {rest : List Char} (hquote : isQuote c = false)
    (hslot : c = '$' → startsWith Char.isDigit rest = false) :
    fill params before (pieces .plain (c :: rest)) =
      (c :: (fill params before (pieces .plain rest)).1, (fill params before (pieces .plain rest)).2) := by
  by_cases hc : c = '$'
  · subst hc
    exact fill_dollar before (hslot rfl)
  · rw [pieces_plain hc hquote, fill]

/-- Characters outside quotes are copied where no digit stands behind a `$`. -/
theorem fill_plain (before : Nat) {cs rest : List Char} (hquote : ∀ c ∈ cs, isQuote c = false)
    (hslot : hasSlot cs = false) (hrest : startsWith Char.isDigit rest = false) :
    fill params before (pieces .plain (cs ++ rest)) =
      (cs ++ (fill params before (pieces .plain rest)).1, (fill params before (pieces .plain rest)).2) := by
  induction cs with
  | nil => rfl
  | cons c cs ih =>
    simp only [hasSlot, Bool.or_eq_false_iff, Bool.and_eq_false_iff, beq_eq_false_iff_ne] at hslot
    have hnext := ih (fun d hd => hquote d (List.mem_cons_of_mem c hd)) hslot.2
    have hdigit : c = '$' → startsWith Char.isDigit (cs ++ rest) = false := by
      intro hc
      have hcs := hslot.1.resolve_left (not_not_intro hc)
      cases cs with
      | nil => exact hrest
      | cons d cs => exact hcs
    rw [List.cons_append, fill_char before (hquote c List.mem_cons_self) hdigit, hnext]
    rfl

/-- In quotes, and in the seams between them, all is copied. -/
theorem pieces_body {kind : Quoting} (hkind : kind.isEscaped = false) {body : List Char} (h : Body kind body)
    (rest : List Char) :
    pieces (.quoted kind.mark) (body ++ kind.mark :: rest) =
      (body ++ [kind.mark]).map .char ++ pieces .plain rest := by
  have henter : enter kind.mark = (.quoted kind.mark, [.char kind.mark]) := by cases kind <;> rfl
  induction h with
  | nil => simp [pieces, step]
  | char hmark hescape _ ih =>
    rw [List.cons_append, pieces, step, if_neg hmark, ih]
    rfl
  | escape c hescaped _ ih => simp [hkind] at hescaped
  | @seam gap cs hgap _ ih =>
    have hcopy : ∀ more, pieces .plain (gap ++ more) = gap.map .char ++ pieces .plain more := by
      intro more
      have hspace := all_isSpace_of_isSeam hgap
      clear hgap
      induction gap with
      | nil => rfl
      | cons c gap ihgap =>
        have hc := hspace c List.mem_cons_self
        have hplain : c ≠ '$' ∧ isQuote c = false := by
          simp only [isSpace, List.mem_cons, List.not_mem_nil, or_false, decide_eq_true_eq] at hc
          rcases hc with rfl | rfl | rfl | rfl | rfl | rfl <;> exact ⟨by decide, rfl⟩
        rw [List.cons_append, pieces_plain hplain.1 hplain.2,
          ihgap fun d hd => hspace d (List.mem_cons_of_mem c hd)]
        rfl
    have happend : kind.mark :: gap ++ kind.mark :: cs ++ kind.mark :: rest =
        kind.mark :: (gap ++ kind.mark :: (cs ++ kind.mark :: rest)) := by simp
    rw [happend, pieces, step, if_pos rfl, hcopy, pieces, step, henter, ih]
    simp

/-- A placeholder is read to its last digit. -/
theorem pieces_slot {digits rest : List Char} (hdigits : ∀ d ∈ digits, d.isDigit = true)
    (hrest : startsWith Char.isDigit rest = false) :
    pieces .plain ('$' :: digits ++ rest) = .slot digits :: pieces .plain rest := by
  have hread : ∀ read, pieces (.slot read) (digits ++ rest) =
      .slot (read.reverse ++ digits) :: pieces .plain rest := by
    induction digits with
    | nil =>
      intro read
      cases rest with
      | nil => simp [pieces]
      | cons c rest =>
        have hc : c.isDigit = false := hrest
        simp [pieces, step, hc]
    | cons d digits ih =>
      intro read
      have hd := hdigits d List.mem_cons_self
      simp only [List.cons_append, pieces, step, hd, if_true, List.nil_append,
        ih (fun e he => hdigits e (List.mem_cons_of_mem d he))]
      simp
  exact hread []

end

end Inlined

open Inlined

/-- The tokens after texts were written in and the other placeholders numbered anew. -/
def Sql.inlined (params : List Value) (before : Nat) : List Token → List Token
  | [] => []
  | .slot digits :: ts =>
    match valueAt? params digits with
    | none => .slot digits :: inlined params before ts
    | some (.str s) => Literal.token s.toList :: inlined params before ts
    | some _ => .slot (toString (before + 1)).toList :: inlined params (before + 1) ts
  | t :: ts => t :: inlined params before ts

section
variable {params : List Value} {count : Nat}

/-- A token that is no placeholder is copied. -/
theorem fill_kept {t : Token} {rest : List Char} (h : t.Stands rest) (hslot : t.isSlot = false)
    (hstandard : t.isStandard = true) (before : Nat) :
    fill params before (pieces .plain (t.text ++ rest)) =
      (t.text ++ (fill params before (pieces .plain rest)).1, (fill params before (pieces .plain rest)).2) := by
  cases h with
  | @mark c rest hopening _ hdollar =>
    obtain ⟨hdouble, hsingle⟩ := ne_mark_of_opening? hopening
    exact fill_char before (by simp [isQuote, hdouble, hsingle]) hdollar
  | @word c cs rest _ hstart hchars hrest =>
    have hword : ∀ d ∈ c :: cs, isWordChar d = true := by
      intro d hd
      rcases List.mem_cons.mp hd with rfl | hd
      · simp [isWordChar, hstart]
      · exact hchars d hd
    have hnone : hasSlot (c :: cs) = false := by simpa [Token.isStandard] using hstandard
    exact fill_plain before (fun d hd => isQuote_of_isWordChar (hword d hd)) hnone (startsWith_isDigit hrest)
  | slot => cases hslot
  | @quoted kind body rest hbody _ =>
    have hkind : kind.isEscaped = false := by simpa [Token.isStandard] using hstandard
    have henter : enter kind.mark = (.quoted kind.mark, [.char kind.mark]) := by cases kind <;> rfl
    have hlead : kind.lead = [] := by
      cases kind with
      | name => rfl
      | text => rfl
      | escaped small => cases hkind
    have htext : (Token.quoted kind body).text ++ rest = kind.mark :: (body ++ kind.mark :: rest) := by
      simp [Token.text, hlead]
    have hpieces : pieces .plain (kind.mark :: (body ++ kind.mark :: rest)) =
        (kind.mark :: body ++ [kind.mark]).map .char ++ pieces .plain rest := by
      rw [pieces, step, henter, pieces_body hkind hbody]
      rfl
    rw [htext, hpieces, fill_chars]
    simp [Token.text, hlead]

theorem inlined_kept {t : Token} (h : t.isSlot = false) (before : Nat) (ts : List Token) :
    inlined params before (t :: ts) = t :: inlined params before ts := by
  cases t with
  | slot => cases h
  | mark | word | quoted => rfl

theorem toList_toString (n : Nat) : (toString n).toList = Nat.toDigits 10 n := Nat.toList_repr

theorem exists_slot {t : Token} (h : t.isSlot = true) : ∃ digits, t = .slot digits := by
  cases t with
  | slot digits => exact ⟨digits, rfl⟩
  | mark | word | quoted => cases h

section
variable {digits : List Char}

theorem inlined_none (h : valueAt? params digits = none) (before : Nat) (ts : List Token) :
    inlined params before (.slot digits :: ts) = .slot digits :: inlined params before ts := by
  rw [inlined, h]

theorem inlined_str {s : String} (h : valueAt? params digits = some (.str s)) (before : Nat) (ts : List Token) :
    inlined params before (.slot digits :: ts) = Literal.token s.toList :: inlined params before ts := by
  rw [inlined, h]

theorem inlined_other {v : Value} (h : valueAt? params digits = some v) (hv : v.isText = false) (before : Nat)
    (ts : List Token) :
    inlined params before (.slot digits :: ts) =
      .slot (toString (before + 1)).toList :: inlined params (before + 1) ts := by
  rw [inlined, h]
  cases v with
  | str => cases hv
  | null | bool | int | float | list => rfl

end

/-- A placeholder gives way to the literal of a text, stays, or is numbered anew. -/
theorem inlined_slot (params : List Value) (before : Nat) (digits : List Char) (ts : List Token) :
    ∃ t after, inlined params before (.slot digits :: ts) = t :: inlined params after ts ∧
      ((∃ cs, t = Literal.token cs) ∨ t = .slot digits ∨ t = .slot (toString (before + 1)).toList) := by
  rcases valueAt?_cases params digits with h | ⟨s, h⟩ | ⟨v, h, hv⟩
  · exact ⟨_, _, inlined_none h before ts, .inr (.inl rfl)⟩
  · exact ⟨_, _, inlined_str h before ts, .inl ⟨_, rfl⟩⟩
  · exact ⟨_, _, inlined_other h hv before ts, .inr (.inr rfl)⟩

theorem isLiteral_token (cs : List Char) : (Literal.token cs).isLiteral = true := by
  unfold Literal.token
  split <;> rfl

/-- A token stays, or it is a placeholder and gives way to another or to a text. -/
theorem inlined_cons (params : List Value) (before : Nat) (t : Token) (ts : List Token) :
    ∃ t' after, inlined params before (t :: ts) = t' :: inlined params after ts ∧
      (t' = t ∨ t.isSlot = true ∧ (t'.isSlot = true ∨ t'.isLiteral = true)) := by
  cases hslot : t.isSlot with
  | false => exact ⟨t, before, inlined_kept hslot before ts, .inl rfl⟩
  | true =>
    obtain ⟨digits, rfl⟩ := exists_slot hslot
    obtain ⟨t', after, hinlined, ht⟩ := inlined_slot params before digits ts
    refine ⟨t', after, hinlined, .inr ⟨rfl, ?_⟩⟩
    rcases ht with ⟨cs, rfl⟩ | rfl | rfl
    · exact .inr (isLiteral_token cs)
    · exact .inl rfl
    · exact .inl rfl

/-- The pass over a statement does to its text what is done to its tokens. -/
theorem fill_text {ts : List Token} (hplace : InPlace ts) (hstandard : ∀ t ∈ ts, t.isStandard = true) (before : Nat) :
    (fill params before (pieces .plain (text ts))).1 = text (inlined params before ts) := by
  induction ts generalizing before with
  | nil => rfl
  | cons t ts ih =>
    obtain ⟨hstands, hts⟩ := hplace
    have hnext := ih hts fun u hu => hstandard u (List.mem_cons_of_mem t hu)
    cases hslot : t.isSlot with
    | false =>
      rw [text_cons, fill_kept hstands hslot (hstandard t List.mem_cons_self), inlined_kept hslot, text_cons, hnext]
    | true =>
      obtain ⟨digits, rfl⟩ := exists_slot hslot
      cases hstands with
      | slot _ hdigits hrest =>
        rw [text_cons, Token.text, pieces_slot hdigits hrest]
        rcases valueAt?_cases params digits with h | ⟨s, h⟩ | ⟨v, h, hv⟩
        · rw [fill_none h, inlined_none h, text_cons, Token.text, hnext]
        · rw [fill_str h, inlined_str h, text_cons, Literal.text_token, hnext]
        · rw [fill_other h hv, inlined_other h hv, text_cons, Token.text, hnext]

/-! ## Tokens stay apart -/

/-- A quoted text behind blanks stood there before, or a placeholder did. -/
theorem inlined_eq_gap {gap : List Char} {kind : Quoting} {body : List Char} {before : Nat} {ts back : List Token}
    (h : inlined params before ts = gap.map .mark ++ .quoted kind body :: back) :
    ∃ u rest, ts = gap.map .mark ++ u :: rest ∧ (u = .quoted kind body ∨ u.isSlot = true ∧ kind.isText = true) := by
  induction gap generalizing ts before with
  | nil =>
    cases ts with
    | nil => cases h
    | cons t ts =>
      obtain ⟨t', after, hinlined, ht⟩ := inlined_cons params before t ts
      rw [hinlined] at h
      obtain ⟨rfl, -⟩ := List.cons.inj h
      rcases ht with rfl | ht
      · exact ⟨_, ts, rfl, .inl rfl⟩
      · exact ⟨t, ts, rfl, .inr ⟨ht.1, ht.2.resolve_left (by simp [Token.isSlot])⟩⟩
  | cons c gap ih =>
    cases ts with
    | nil => cases h
    | cons t ts =>
      obtain ⟨t', after, hinlined, ht⟩ := inlined_cons params before t ts
      rw [hinlined] at h
      obtain ⟨rfl, hts⟩ := List.cons.inj h
      obtain ⟨u, rest, rfl, hu⟩ := ih hts
      rcases ht with rfl | ⟨-, hslot | hliteral⟩
      · exact ⟨u, rest, rfl, hu⟩
      · cases hslot
      · cases hliteral

/-- Placeholders and texts in quotes with nothing but blanks between them stand apart. -/
theorem apart_of_gap {t u : Token} {gap : List Char} {rest : List Token}
    (h : ((t :: (gap.map .mark ++ u :: rest)).filter (!·.isBlank)).IsChain Token.Apart)
    (hgap : ∀ c ∈ gap, isSpace c = true) (ht : t.isSlot = true ∨ t.isLiteral = true)
    (hu : u.isSlot = true ∨ u.isLiteral = true) : t.isSlot = false ∧ u.isSlot = false := by
  have hfilled : ∀ {t : Token}, t.isSlot = true ∨ t.isLiteral = true → t.isBlank = false := by
    intro t ht
    cases t with
    | mark => rcases ht with ht | ht <;> cases ht
    | word | slot | quoted => rfl
  have hnone : (gap.map Token.mark).filter (!·.isBlank) = [] := by
    simpa [List.filter_eq_nil_iff, Token.isBlank] using hgap
  rw [List.filter_cons, List.filter_append, List.filter_cons, hfilled ht, hfilled hu, hnone] at h
  exact (List.isChain_cons_cons.mp h).1 (by simpa using ht) (by simpa using hu)

/-- Behind a text in quotes no quotes open again that did not do so before. -/
theorem reopens_inlined {ts : List Token} {t : Token} {kind : Quoting} {before : Nat}
    (hapart : ((t :: ts).filter (!·.isBlank)).IsChain Token.Apart) (hplace : InPlace (inlined params before ts))
    (ht : t.isSlot = true ∧ kind.isText = true ∨
      ∃ body, t = .quoted kind body ∧ reopens kind (text ts) = false) :
    reopens kind (text (inlined params before ts)) = false := by
  cases hreopens : reopens kind (text (inlined params before ts)) with
  | false => rfl
  | true =>
    obtain ⟨gap, kind', body', back, hseam, hts, hkind, hlead⟩ := reopens_text hplace hreopens
    obtain ⟨u, rest, rfl, hu⟩ := inlined_eq_gap hts
    have hnot := apart_of_gap hapart (all_isSpace_of_isSeam hseam)
    have hfilled : kind.isText = true → t.isSlot = true ∨ t.isLiteral = true := by
      intro htext
      rcases ht with ⟨hslot, -⟩ | ⟨body, rfl, -⟩
      · exact .inl hslot
      · exact .inr htext
    rcases hu with rfl | ⟨hslot, htext⟩
    · rcases ht with ⟨hslot, htext⟩ | ⟨body, rfl, hclosed⟩
      · have hfalse := (hnot (.inl hslot) (.inr (hkind.trans htext))).1
        rw [hslot] at hfalse
        cases hfalse
      · rw [reopens_of_gap hseam hkind hlead] at hclosed
        cases hclosed
    · have hfalse := (hnot (hfilled (hkind ▸ htext)) (.inl hslot)).2
      rw [hslot] at hfalse
      cases hfalse

/-- Text in front of something other than a placeholder begins as it did. -/
theorem head?_inlined {ts : List Token} (hplace : InPlace ts) (h : ∀ t ∈ ts.head?, t.isSlot = false)
    (before : Nat) : (text (inlined params before ts)).head? = (text ts).head? := by
  cases ts with
  | nil => rfl
  | cons t ts =>
    rw [inlined_kept (h t rfl), text_cons, text_cons]
    cases htext : t.text with
    | nil => exact absurd htext hplace.1.text_ne_nil
    | cons c cs => rfl

/-- The marks that stand in front of placeholders stand in front of everything. -/
theorem stands_mark {t : Token} (h : t ∈ [.mark ' ', .mark '(', .mark ',']) (rest : List Char) : t.Stands rest := by
  simp only [List.mem_cons, List.not_mem_nil, or_false] at h
  rcases h with rfl | rfl | rfl <;> exact .mark rfl rfl (by simp)

/-- Behind placeholders no digit stands. -/
theorem startsWith_inlined {ts : List Token} {digits : List Char}
    (hjoined : (Token.slot digits :: ts).IsChain Token.Joins) (before : Nat) :
    startsWith Char.isDigit (text (inlined params before ts)) = false := by
  cases ts with
  | nil => rfl
  | cons u ts =>
    have hu := (List.isChain_cons_cons.mp hjoined).1.2 rfl
    simp only [List.mem_cons, List.not_mem_nil, or_false] at hu
    rcases hu with rfl | rfl | rfl <;> rfl

/-- A token that is no placeholder stands in front of what the others became. -/
theorem stands_kept {t : Token} {ts : List Token} {before : Nat} (hjoined : (t :: ts).IsChain Token.Joins)
    (hapart : ((t :: ts).filter (!·.isBlank)).IsChain Token.Apart) (hplace : InPlace (t :: ts))
    (hrest : InPlace (inlined params before ts)) : t.Stands (text (inlined params before ts)) := by
  obtain ⟨hstands, hts⟩ := hplace
  by_cases hquoted : ∃ kind body, t = .quoted kind body
  · obtain ⟨kind, body, rfl⟩ := hquoted
    cases hstands with
    | quoted hbody hclosed =>
      exact .quoted hbody (reopens_inlined hapart hrest (.inr ⟨body, rfl, hclosed⟩))
  by_cases hnext : ∀ u ∈ ts.head?, u.isSlot = false
  · have hne : ∀ kind body, t ≠ .quoted kind body := fun kind body h => hquoted ⟨kind, body, h⟩
    exact hstands.congr hne (head?_inlined hts hnext before)
  · -- a placeholder follows, so this is one of the marks in front of placeholders
    cases ts with
    | nil => simp at hnext
    | cons u ts =>
      have huslot : u.isSlot = true := by simpa using hnext
      exact stands_mark ((List.isChain_cons_cons.mp hjoined).1.1 huslot) _

/-- What became of a placeholder stands in front of what the others became. -/
theorem stands_slot {digits : List Char} {t' : Token} {ts : List Token} {number after : Nat}
    (hjoined : (Token.slot digits :: ts).IsChain Token.Joins)
    (hapart : ((Token.slot digits :: ts).filter (!·.isBlank)).IsChain Token.Apart)
    (hstands : (Token.slot digits).Stands (text ts)) (hrest : InPlace (inlined params after ts))
    (ht : (∃ cs, t' = Literal.token cs) ∨ t' = .slot digits ∨ t' = .slot (toString number).toList) :
    t'.Stands (text (inlined params after ts)) := by
  rcases ht with ⟨cs, rfl⟩ | rfl | rfl
  · refine .quoted (Literal.body_token cs) (reopens_inlined hapart hrest (.inl ⟨rfl, ?_⟩))
    split <;> rfl
  · cases hstands with
    | slot hne hdigits _ => exact .slot hne hdigits (startsWith_inlined hjoined after)
  · rw [toList_toString]
    exact .slot Nat.toDigits_ne_nil (fun d hd => Nat.isDigit_of_mem_toDigits (by decide) (by decide) hd)
      (startsWith_inlined hjoined after)

/-- Each token stands in front of what the others became. -/
theorem inPlace_inlined {ts : List Token} (hjoined : ts.IsChain Token.Joins)
    (hapart : (ts.filter (!·.isBlank)).IsChain Token.Apart) (hplace : InPlace ts) (before : Nat) :
    InPlace (inlined params before ts) := by
  induction ts generalizing before with
  | nil => trivial
  | cons t ts ih =>
    have hrest : ∀ after, InPlace (inlined params after ts) := by
      refine ih hjoined.tail ?_ hplace.2
      rw [List.filter_cons] at hapart
      split at hapart
      · exact hapart.tail
      · exact hapart
    cases hslot : t.isSlot with
    | false =>
      rw [inlined_kept hslot]
      exact ⟨stands_kept hjoined hapart hplace (hrest before), hrest before⟩
    | true =>
      obtain ⟨digits, rfl⟩ := exists_slot hslot
      obtain ⟨t', after, hinlined, ht⟩ := inlined_slot params before digits ts
      rw [hinlined]
      exact ⟨stands_slot hjoined hapart hplace.1 (hrest after) ht, hrest after⟩

end

/-! ## Statements with their texts written in -/

/-- What a token of a statement is with the texts written in: a placeholder of a text is the one literal
of that text, any other is a placeholder of the same value, and the rest is as it was. -/
inductive Became (params values : List Value) : Token → Token → Prop
  | kept {t : Token} (h : t.isSlot = false) : Became params values t t
  | text {digits : List Char} {s : String} {t : Token} (hvalue : valueAt? params digits = some (.str s))
      (hliteral : t.isLiteral = true) (htext : t.text = Literal.write s.toList) :
      Became params values (.slot digits) t
  | slot {digits digits' : List Char} {v : Value} (hvalue : valueAt? params digits = some v)
      (hother : v.isText = false) (hvalue' : valueAt? values digits' = some v) :
      Became params values (.slot digits) (.slot digits')

/-- Tokens that are equal up to what stands in a text in quotes. -/
def SameButText (t u : Token) : Prop := t = u ∨ t.isLiteral = true ∧ u.isLiteral = true

theorem valueAt?_eq {values : List Value} {digits : List Char} {n : Nat}
    (h : Text.digitsToNat digits = n + 1) : valueAt? values digits = values[n]? := by
  cases digits with
  | nil => cases h
  | cons d digits => simp [valueAt?, h]

theorem exists_valueAt? {params : List Value} {digits : List Char}
    (h : (Token.slot digits).isNumbered params.length = true) : ∃ v, valueAt? params digits = some v := by
  simp only [Token.isNumbered, Bool.and_eq_true, decide_eq_true_eq] at h
  obtain ⟨hpos, hle⟩ := h
  have hlt : Text.digitsToNat digits - 1 < params.length := by omega
  exact ⟨_, (valueAt?_eq (Nat.sub_add_cancel hpos).symm).trans (List.getElem?_eq_getElem hlt)⟩

theorem valueAt?_toString (values : List Value) (n : Nat) :
    valueAt? values (toString (n + 1)).toList = values[n]? := by
  apply valueAt?_eq
  rw [toList_toString]
  exact Nat.ofDigitChars_ten_toDigits

/-- What the pass leaves of the values is what the placeholders that are left stand for. -/
theorem became_inlined {params : List Value} {ts : List Token} (hplace : InPlace ts)
    (hstandard : ∀ t ∈ ts, t.isStandard = true) (hnumbered : ∀ t ∈ ts, t.isNumbered params.length = true)
    (front : List Value) :
    List.Forall₂ (Became params (front ++ (fill params front.length (pieces .plain (text ts))).2)) ts
      (inlined params front.length ts) := by
  induction ts generalizing front with
  | nil => exact .nil
  | cons t ts ih =>
    obtain ⟨hstands, hts⟩ := hplace
    have hnext := ih hts (fun u hu => hstandard u (List.mem_cons_of_mem t hu))
      fun u hu => hnumbered u (List.mem_cons_of_mem t hu)
    cases hslot : t.isSlot with
    | false =>
      rw [text_cons, fill_kept hstands hslot (hstandard t List.mem_cons_self), inlined_kept hslot]
      exact .cons (.kept hslot) (hnext front)
    | true =>
      obtain ⟨digits, rfl⟩ := exists_slot hslot
      obtain ⟨v, hvalue⟩ := exists_valueAt? (hnumbered _ List.mem_cons_self)
      cases hstands with
      | slot _ hdigits hrest =>
        rw [text_cons, Token.text, pieces_slot hdigits hrest]
        rcases valueAt?_cases params digits with h | ⟨s, h⟩ | ⟨v, h, hv⟩
        · rw [hvalue] at h
          cases h
        · rw [fill_str h, inlined_str h]
          exact .cons (.text h (isLiteral_token s.toList) (Literal.text_token s.toList)) (hnext front)
        · rw [fill_other h hv, inlined_other h hv]
          have hrest := hnext (front ++ [v])
          rw [List.length_append, List.length_singleton, List.append_assoc, List.singleton_append] at hrest
          refine .cons (.slot h hv ?_) hrest
          rw [valueAt?_toString, List.getElem?_append_right (Nat.le_refl _), Nat.sub_self]
          rfl

theorem exists_str {v : Value} (h : v.isText = true) : ∃ s, v = .str s := by
  cases v with
  | str s => exact ⟨s, rfl⟩
  | null | bool | int | float | list => cases h

theorem valueAt?_alike {params params' : List Value} (h : params'.map Value.isText = params.map Value.isText)
    (digits : List Char) :
    (valueAt? params' digits).map Value.isText = (valueAt? params digits).map Value.isText := by
  cases hnumber : Text.digitsToNat digits with
  | zero => cases digits <;> simp [valueAt?, hnumber]
  | succ n => rw [valueAt?_eq hnumber, valueAt?_eq hnumber, ← List.getElem?_map, ← List.getElem?_map, h]

/-- If the same values are texts, the tokens are equal up to the texts. -/
theorem inlined_alike {params params' : List Value} (h : params'.map Value.isText = params.map Value.isText)
    (before : Nat) (ts : List Token) :
    List.Forall₂ SameButText (inlined params before ts) (inlined params' before ts) := by
  induction ts generalizing before with
  | nil => exact .nil
  | cons t ts ih =>
    cases hslot : t.isSlot with
    | false =>
      rw [inlined_kept hslot, inlined_kept hslot]
      exact .cons (.inl rfl) (ih before)
    | true =>
      obtain ⟨digits, rfl⟩ := exists_slot hslot
      have hvalue := valueAt?_alike h digits
      rcases valueAt?_cases params digits with h | ⟨s, h⟩ | ⟨v, h, hv⟩
      · rw [h] at hvalue
        have h' := Option.map_eq_none_iff.mp hvalue
        rw [inlined_none h, inlined_none h']
        exact .cons (.inl rfl) (ih before)
      · rw [h] at hvalue
        obtain ⟨v', h', hv'⟩ := Option.map_eq_some_iff.mp hvalue
        obtain ⟨s', rfl⟩ := exists_str hv'
        rw [inlined_str h, inlined_str h']
        exact .cons (.inr ⟨isLiteral_token s.toList, isLiteral_token s'.toList⟩) (ih before)
      · rw [h] at hvalue
        obtain ⟨v', h', hv'⟩ := Option.map_eq_some_iff.mp hvalue
        rw [inlined_other h hv, inlined_other h' (hv'.trans hv)]
        exact .cons (.inl rfl) (ih (before + 1))

/-- Writing the texts into a statement keeps its tokens: each placeholder of a text becomes one literal,
every other stays a placeholder of its value, and other texts give other literals only. -/
theorem Bound.lex_inlineTexts (b : Bound) {ts : List Token} (hlex : lex b.sql.toList = some ts)
    (hplaced : Placed b.params.length ts) :
    ∃ ts', lex b.inlineTexts.sql.toList = some ts' ∧
      List.Forall₂ (Became b.params b.inlineTexts.params) ts ts' ∧
      ∀ params, params.map Value.isText = b.params.map Value.isText →
        ∃ ts'', lex { b with params }.inlineTexts.sql.toList = some ts'' ∧ List.Forall₂ SameButText ts' ts'' := by
  obtain ⟨hsql, hplace⟩ := lex_eq_some.mp hlex
  have hinlined : ∀ params, lex { b with params }.inlineTexts.sql.toList = some (inlined params 0 ts) := by
    intro params
    show lex (String.ofList (Inlined.fill params 0 (Inlined.pieces .plain b.sql.toList)).1).toList = _
    rw [String.toList_ofList, hsql, fill_text hplace hplaced.standard]
    exact lex_text (inPlace_inlined hplaced.joined hplaced.apart hplace 0)
  refine ⟨inlined b.params 0 ts, hinlined b.params, ?_, fun params hparams => ?_⟩
  · have hbecame := became_inlined hplace hplaced.standard hplaced.numbered []
    rw [← hsql] at hbecame
    exact hbecame
  · exact ⟨inlined params 0 ts, hinlined params, inlined_alike hparams 0 ts⟩

/-- A query with quotes in its own names and texts, and values that try to leave theirs. -/
def Bound.quarters : Bound where
  sql := "SELECT \"e$2\" FROM t WHERE a = $1 AND b IN ($2, $3) AND c = 'it''s $1'"
  params := [.str "x' OR '1'='1", .int 3, .str "\\'; --\n$1"]

/-- The query keeps its tokens, and with other texts it has the same. -/
theorem Bound.lex_inlineTexts_quarters :
    ∃ ts, lex quarters.sql.toList = some ts ∧ Placed 3 ts ∧
      ∃ ts', lex quarters.inlineTexts.sql.toList = some ts' ∧
        List.Forall₂ (Became quarters.params quarters.inlineTexts.params) ts ts' ∧
        ∃ ts'', lex { quarters with params := [.str "", .int 5, .str "E'"] }.inlineTexts.sql.toList = some ts'' ∧
          List.Forall₂ SameButText ts' ts'' := by
  obtain ⟨ts, hts⟩ : ∃ ts, ts = (lex quarters.sql.toList).getD [] := ⟨_, rfl⟩
  have hlex : lex quarters.sql.toList = some ts := by
    rw [hts]
    decide +kernel
  have hplaced : Placed 3 ts := by
    rw [hts]
    exact ⟨by decide +kernel, by decide +kernel, by decide +kernel, by decide +kernel, by decide +kernel⟩
  obtain ⟨ts', hts', hbecame, halike⟩ := Bound.lex_inlineTexts quarters hlex hplaced
  exact ⟨ts, hlex, hplaced, ts', hts', hbecame, halike [.str "", .int 5, .str "E'"] rfl⟩

end Listing
