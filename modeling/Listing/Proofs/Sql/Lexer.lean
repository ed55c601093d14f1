/-!
# The tokens of a statement

How PostgreSQL cuts a statement into tokens: quoted names, texts in quotes, texts with escapes behind
`E`, words, placeholders, and single marks (blanks are marks). A quote character written twice stays
inside, and a text goes on after blanks with a line break if another quote character follows. Comments
and dollar quotes have no tokens of their own: their characters are read as marks and words. The lexer
(`lex`) is deterministic and looks ahead; `Token.Stands` says which token it finds in front of which
text, and `lex_eq_some` that nothing else decides.
-/
namespace Listing.Sql

/-! ## Characters -/

def isSpace (c : Char) : Bool := c ∈ [' ', '\t', '\n', '\r', '\x0b', '\x0c']

def isLineBreak (c : Char) : Bool := c == '\n' || c == '\r'

/-- The characters that begin a word or a number. -/
def isWordStart (c : Char) : Bool := c.isAlphanum || c == '_' || 0x80 ≤ c.toNat

def isWordChar (c : Char) : Bool := isWordStart c || c == '$'

/-- Whether a text begins with a character of a class. -/
def startsWith (p : Char → Bool) (cs : List Char) : Bool := cs.head?.any p

theorem isWordChar_of_isDigit {c : Char} (h : c.isDigit = true) : isWordChar c = true := by
  simp [isWordChar, isWordStart, Char.isAlphanum, h]

theorem startsWith_isDigit {cs : List Char} (h : startsWith isWordChar cs = false) :
    startsWith Char.isDigit cs = false := by
  cases cs with
  | nil => rfl
  | cons c cs =>
    have hc : isWordChar c = false := h
    show c.isDigit = false
    cases hdigit : c.isDigit with
    | false => rfl
    | true =>
      rw [isWordChar_of_isDigit hdigit] at hc
      cases hc

/-! ## Tokens -/

/-- What quotes hold: a name, a text as it is, or a text with escapes behind a large or small `E`. -/
inductive Quoting where
  | name
  | text
  | escaped (small : Bool)
deriving DecidableEq, Repr

namespace Quoting

/-- The character at both ends. -/
def mark : Quoting → Char
  | name => '\x22'
  | text | escaped _ => '\x27'

/-- What stands in front of the first quote character. -/
def lead : Quoting → List Char
  | name | text => []
  | escaped small => [if small then 'e' else 'E']

def isText : Quoting → Bool
  | name => false
  | text | escaped _ => true

def isEscaped : Quoting → Bool
  | escaped _ => true
  | name | text => false

end Quoting

inductive Token where
  | mark (c : Char)
  | word (cs : List Char)
  /-- A placeholder with its digits. -/
  | slot (digits : List Char)
  /-- All between the first and the last quote character. -/
  | quoted (kind : Quoting) (body : List Char)
deriving DecidableEq, Repr

/-- The token as it stands in a statement. -/
def Token.text : Token → List Char
  | mark c => [c]
  | word cs => cs
  | slot digits => '$' :: digits
  | quoted kind body => kind.lead ++ kind.mark :: body ++ [kind.mark]

/-- The statement that tokens make. -/
def text (ts : List Token) : List Char := ts.flatMap Token.text

@[simp] theorem text_nil : text [] = [] := rfl

@[simp] theorem text_cons (t : Token) (ts : List Token) : text (t :: ts) = t.text ++ text ts := rfl

theorem text_marks (cs : List Char) (ts : List Token) : text (cs.map .mark ++ ts) = cs ++ text ts := by
  induction cs with
  | nil => rfl
  | cons c cs ih => rw [List.map_cons, List.cons_append, text_cons, ih]; rfl

/-! ## The lexer -/

/-- What may stand between a closing quote character and one that opens again. -/
def isSeam (kind : Quoting) (gap : List Char) : Bool :=
  gap.isEmpty || kind.isText && gap.all isSpace && gap.any isLineBreak

/-- Whether the text behind a closing quote character opens again. -/
def reopens (kind : Quoting) (cs : List Char) : Bool :=
  isSeam kind (cs.takeWhile isSpace) && (cs.dropWhile isSpace).head? == some kind.mark

/-- What was found, with more text in front of what the quotes hold. -/
def keep (front : List Char) (found : Option (List Char × List Char)) : Option (List Char × List Char) :=
  found.map fun (body, rest) => (front ++ body, rest)

/-- The text up to the quote character that ends the quotes, and the text behind it. Some characters are
passed over unread: the one behind a backslash, and a seam with the quote character behind it. -/
def body? (kind : Quoting) : Nat → List Char → Option (List Char × List Char)
  | _, [] => none
  | unread + 1, c :: cs => keep [c] (body? kind unread cs)
  | 0, c :: cs =>
    if c = kind.mark then
      if reopens kind cs then keep [c] (body? kind ((cs.takeWhile isSpace).length + 1) cs)
      else some ([], cs)
    else keep [c] (body? kind (if kind.isEscaped && c == '\\' then 1 else 0) cs)

/-- The quotes that a text begins with. -/
def opening? : List Char → Option (Quoting × List Char)
  | '\x22' :: cs => some (.name, cs)
  | '\x27' :: cs => some (.text, cs)
  | 'E' :: '\x27' :: cs => some (.escaped false, cs)
  | 'e' :: '\x27' :: cs => some (.escaped true, cs)
  | _ => none

/-- The first token of a text and the text behind it; quotes that never end are refused. -/
def next? (c : Char) (cs : List Char) : Option (Token × List Char) :=
  match opening? (c :: cs) with
  | some (kind, inside) => (body? kind 0 inside).map (Prod.map (.quoted kind) id)
  | none =>
    if isWordStart c then some (.word (c :: cs.takeWhile isWordChar), cs.dropWhile isWordChar)
    else if c = '$' ∧ startsWith Char.isDigit cs then
      some (.slot (cs.takeWhile Char.isDigit), cs.dropWhile Char.isDigit)
    else some (.mark c, cs)

/-! ## Quoted text -/

/-- What quotes of a kind can hold. -/
inductive Body (kind : Quoting) : List Char → Prop
  | nil : Body kind []
  | char {c : Char} {cs : List Char} (hmark : c ≠ kind.mark) (hescape : (kind.isEscaped && c == '\\') = false)
      (h : Body kind cs) : Body kind (c :: cs)
  | escape (c : Char) {cs : List Char} (hkind : kind.isEscaped = true) (h : Body kind cs) :
      Body kind ('\\' :: c :: cs)
  | seam {gap cs : List Char} (hgap : isSeam kind gap = true) (h : Body kind cs) :
      Body kind (kind.mark :: gap ++ kind.mark :: cs)

theorem isSpace_mark (kind : Quoting) : isSpace kind.mark = false := by cases kind <;> rfl

theorem mark_congr {kind kind' : Quoting} (h : kind.isText = kind'.isText) : kind.mark = kind'.mark := by
  cases kind <;> cases kind' <;> simp_all [Quoting.isText, Quoting.mark]

theorem all_isSpace_of_isSeam {kind : Quoting} {gap : List Char} (h : isSeam kind gap = true) :
    ∀ c ∈ gap, isSpace c = true := by
  simp only [isSeam, Bool.or_eq_true, Bool.and_eq_true, List.all_eq_true, List.isEmpty_iff] at h
  rcases h with rfl | ⟨⟨_, h⟩, _⟩
  · simp
  · exact h

theorem reopens_iff {kind : Quoting} {cs : List Char} :
    reopens kind cs = true ↔ ∃ gap rest, isSeam kind gap = true ∧ cs = gap ++ kind.mark :: rest := by
  constructor
  · intro h
    simp only [reopens, Bool.and_eq_true, beq_iff_eq, List.head?_eq_some_iff] at h
    obtain ⟨hgap, rest, hrest⟩ := h
    exact ⟨_, rest, hgap, by rw [← hrest, List.takeWhile_append_dropWhile]⟩
  · rintro ⟨gap, rest, hgap, rfl⟩
    have hspace := all_isSpace_of_isSeam hgap
    have htake : (gap ++ kind.mark :: rest).takeWhile isSpace = gap := by
      rw [List.takeWhile_append_of_pos hspace]
      simp [isSpace_mark]
    have hdrop : (gap ++ kind.mark :: rest).dropWhile isSpace = kind.mark :: rest := by
      rw [List.dropWhile_append_of_pos hspace]
      simp [isSpace_mark]
    simp [reopens, htake, hdrop, hgap]

/-- The text behind a closing quote character, if it opens again. -/
theorem takeWhile_seam {kind : Quoting} {gap : List Char} (hgap : isSeam kind gap = true) (rest : List Char) :
    (gap ++ kind.mark :: rest).takeWhile isSpace = gap := by
  rw [List.takeWhile_append_of_pos (all_isSpace_of_isSeam hgap)]
  simp [isSpace_mark]

theorem keep_eq_some {front body rest : List Char} {found : Option (List Char × List Char)} :
    keep front found = some (body, rest) ↔ ∃ inside, found = some (inside, rest) ∧ body = front ++ inside := by
  cases found <;> grind [keep]

theorem keep_keep (front more : List Char) (found : Option (List Char × List Char)) :
    keep front (keep more found) = keep (front ++ more) found := by
  cases found <;> simp [keep]

section
variable {kind : Quoting} {cs : List Char}

/-- Characters are passed over as they are. -/
theorem body?_append (front : List Char) :
    body? kind front.length (front ++ cs) = keep front (body? kind 0 cs) := by
  induction front with
  | nil =>
    show body? kind 0 cs = _
    cases body? kind 0 cs <;> rfl
  | cons c front ih =>
    rw [List.length_cons, List.cons_append, body?, ih, keep_keep, List.singleton_append]

theorem body?_end (h : reopens kind cs = false) : body? kind 0 (kind.mark :: cs) = some ([], cs) := by
  simp [body?, h]

theorem body?_char {c : Char} (hmark : c ≠ kind.mark) (hescape : (kind.isEscaped && c == '\\') = false) :
    body? kind 0 (c :: cs) = keep [c] (body? kind 0 cs) := by
  simp [body?, hmark, hescape]

theorem body?_escape (hkind : kind.isEscaped = true) (c : Char) :
    body? kind 0 ('\\' :: c :: cs) = keep ['\\', c] (body? kind 0 cs) := by
  have hmark : '\\' ≠ kind.mark := by cases kind <;> simp [Quoting.mark]
  have hpass : body? kind 1 (c :: cs) = keep [c] (body? kind 0 cs) := body?_append [c]
  simp [body?, hmark, hkind, hpass, keep_keep]

theorem body?_seam {gap : List Char} (hgap : isSeam kind gap = true) :
    body? kind 0 (kind.mark :: gap ++ kind.mark :: cs) =
      keep (kind.mark :: gap ++ [kind.mark]) (body? kind 0 cs) := by
  have hreopens : reopens kind (gap ++ kind.mark :: cs) = true := reopens_iff.mpr ⟨gap, cs, hgap, rfl⟩
  have hpass : body? kind (gap ++ [kind.mark]).length (gap ++ [kind.mark] ++ cs) =
      keep (gap ++ [kind.mark]) (body? kind 0 cs) := body?_append _
  rw [List.length_append, List.length_singleton, List.append_assoc, List.singleton_append] at hpass
  simp [body?, hreopens, takeWhile_seam hgap, hpass, keep_keep]

end

theorem body?_of_body {kind : Quoting} {body rest : List Char} (h : Body kind body)
    (hrest : reopens kind rest = false) : body? kind 0 (body ++ kind.mark :: rest) = some (body, rest) := by
  induction h with
  | nil => exact body?_end hrest
  | char hmark hescape _ ih =>
    rw [List.cons_append, body?_char hmark hescape, ih]
    rfl
  | escape c hkind _ ih =>
    rw [List.cons_append, List.cons_append, body?_escape hkind, ih]
    rfl
  | @seam gap cs hgap _ ih =>
    have happend : kind.mark :: gap ++ kind.mark :: cs ++ kind.mark :: rest =
        kind.mark :: gap ++ kind.mark :: (cs ++ kind.mark :: rest) := by simp
    rw [happend, body?_seam hgap, ih]
    simp [keep]

theorem body_of_body? {kind : Quoting} {cs body rest : List Char} (h : body? kind 0 cs = some (body, rest)) :
    cs = body ++ kind.mark :: rest ∧ Body kind body ∧ reopens kind rest = false := by
  induction hn : cs.length using Nat.strongRecOn generalizing cs body with
  | ind n ih =>
    -- what stands behind the first character, the escape or the seam is shorter
    have hnext : ∀ {front more : List Char}, cs = front ++ more → front ≠ [] →
        keep front (body? kind 0 more) = some (body, rest) →
        ∃ inside, body = front ++ inside ∧ more = inside ++ kind.mark :: rest ∧ Body kind inside ∧
          reopens kind rest = false := by
      rintro front more rfl hfront hkeep
      obtain ⟨inside, hinside, rfl⟩ := keep_eq_some.mp hkeep
      have hlength : more.length < n := by
        have hpos := List.length_pos_iff.mpr hfront
        rw [← hn, List.length_append]
        omega
      exact ⟨inside, rfl, ih more.length hlength hinside rfl⟩
    match cs with
    | [] => cases h
    | c :: cs =>
      by_cases hmark : c = kind.mark
      · subst hmark
        cases hreopens : reopens kind cs with
        | false =>
          rw [body?_end hreopens] at h
          cases h
          exact ⟨rfl, .nil, hreopens⟩
        | true =>
          obtain ⟨gap, more, hgap, rfl⟩ := reopens_iff.mp hreopens
          rw [← List.cons_append, body?_seam hgap] at h
          obtain ⟨inside, rfl, rfl, hbody, hrest⟩ := hnext (by simp) (by simp) h
          exact ⟨by simp, by simpa using hbody.seam hgap, hrest⟩
      · cases hescape : kind.isEscaped && c == '\\' with
        | false =>
          rw [body?_char hmark hescape] at h
          obtain ⟨inside, rfl, rfl, hbody, hrest⟩ := hnext (by simp) (by simp) h
          exact ⟨rfl, .char hmark hescape hbody, hrest⟩
        | true =>
          obtain ⟨hkind, hc⟩ : kind.isEscaped = true ∧ c = '\\' := by simpa using hescape
          subst hc
          match cs with
          | [] => simp [body?, keep, hmark] at h
          | d :: cs =>
            rw [body?_escape hkind] at h
            obtain ⟨inside, rfl, rfl, hbody, hrest⟩ := hnext (by simp) (by simp) h
            exact ⟨rfl, .escape d hkind hbody, hrest⟩

theorem body?_eq_some {kind : Quoting} {cs body rest : List Char} :
    body? kind 0 cs = some (body, rest) ↔
      cs = body ++ kind.mark :: rest ∧ Body kind body ∧ reopens kind rest = false :=
  ⟨body_of_body?, fun ⟨hcs, hbody, hrest⟩ => hcs ▸ body?_of_body hbody hrest⟩

/-! ## One token -/

theorem opening?_eq_some {cs inside : List Char} {kind : Quoting} :
    opening? cs = some (kind, inside) ↔ cs = kind.lead ++ kind.mark :: inside := by
  constructor
  · intro h
    unfold opening? at h
    split at h <;> cases h <;> rfl
  · rintro rfl
    rcases kind with _ | _ | small
    · rfl
    · rfl
    · cases small <;> rfl

theorem ne_mark_of_opening? {c : Char} {rest : List Char} (h : opening? (c :: rest) = none) :
    c ≠ '\x22' ∧ c ≠ '\x27' := by
  constructor <;> (rintro rfl; cases h)

/-- The token is what stands at the beginning of a text, given what follows. -/
inductive Token.Stands : Token → List Char → Prop
  | mark {c : Char} {rest : List Char} (hopening : opening? (c :: rest) = none) (hword : isWordStart c = false)
      (hslot : c = '$' → startsWith Char.isDigit rest = false) : Stands (.mark c) rest
  | word {c : Char} {cs rest : List Char} (hopening : opening? (c :: cs ++ rest) = none)
      (hstart : isWordStart c = true) (hchars : ∀ d ∈ cs, isWordChar d = true)
      (hrest : startsWith isWordChar rest = false) : Stands (.word (c :: cs)) rest
  | slot {digits rest : List Char} (hne : digits ≠ []) (hdigits : ∀ d ∈ digits, d.isDigit = true)
      (hrest : startsWith Char.isDigit rest = false) : Stands (.slot digits) rest
  | quoted {kind : Quoting} {body rest : List Char} (hbody : Body kind body)
      (hrest : reopens kind rest = false) : Stands (.quoted kind body) rest

section
variable {p : Char → Bool}

theorem startsWith_dropWhile (cs : List Char) : startsWith p (cs.dropWhile p) = false := by
  induction cs with
  | nil => rfl
  | cons c cs ih =>
    rw [List.dropWhile_cons]
    split
    · exact ih
    · simp_all [startsWith]

theorem takeWhile_ne_nil {cs : List Char} (h : startsWith p cs = true) : cs.takeWhile p ≠ [] := by
  cases cs with
  | nil => cases h
  | cons c cs =>
    have hc : p c = true := h
    simp [hc]

/-- A run of characters of a class ends where another character follows. -/
theorem takeWhile_run {run rest : List Char} (hrun : ∀ c ∈ run, p c = true)
    (hrest : startsWith p rest = false) : (run ++ rest).takeWhile p = run ∧ (run ++ rest).dropWhile p = rest := by
  rw [List.takeWhile_append_of_pos hrun, List.dropWhile_append_of_pos hrun]
  cases rest with
  | nil => simp
  | cons c rest =>
    have hc : p c = false := hrest
    simp [hc]

end

theorem stands_of_next? {c : Char} {cs rest : List Char} {t : Token} (h : next? c cs = some (t, rest)) :
    c :: cs = t.text ++ rest ∧ t.Stands rest := by
  unfold next? at h
  split at h
  · rename_i kind inside hopening
    obtain ⟨⟨body, rest'⟩, hfound, hparts⟩ := Option.map_eq_some_iff.mp h
    obtain ⟨hbody, hrest⟩ := body?_eq_some.mp hfound
    cases hparts
    exact ⟨by simp [opening?_eq_some.mp hopening, hbody, Token.text], .quoted hrest.1 hrest.2⟩
  · rename_i hopening
    split at h
    · rename_i hstart
      cases h
      have hsplit : c :: cs.takeWhile isWordChar ++ cs.dropWhile isWordChar = c :: cs := by
        rw [List.cons_append, List.takeWhile_append_dropWhile]
      exact ⟨hsplit.symm, .word (hsplit ▸ hopening) hstart (List.all_eq_true.mp List.all_takeWhile)
        (startsWith_dropWhile cs)⟩
    · rename_i hstart
      split at h
      · rename_i hslot
        obtain ⟨rfl, hdigit⟩ := hslot
        cases h
        have hsplit : '$' :: cs.takeWhile Char.isDigit ++ cs.dropWhile Char.isDigit = '$' :: cs := by
          rw [List.cons_append, List.takeWhile_append_dropWhile]
        exact ⟨hsplit.symm, .slot (takeWhile_ne_nil hdigit) (List.all_eq_true.mp List.all_takeWhile)
          (startsWith_dropWhile cs)⟩
      · rename_i hslot
        cases h
        refine ⟨rfl, .mark hopening (by simpa using hstart) ?_⟩
        rintro rfl
        simpa using hslot

theorem next?_of_stands {c : Char} {cs rest : List Char} {t : Token} (h : t.Stands rest)
    (htext : c :: cs = t.text ++ rest) : next? c cs = some (t, rest) := by
  cases h with
  | mark hopening hword hslot =>
    obtain ⟨rfl, rfl⟩ := List.cons.inj htext
    have hnot : ¬(c = '$' ∧ startsWith Char.isDigit cs = true) := by
      rintro ⟨rfl, hdigit⟩
      rw [hslot rfl] at hdigit
      cases hdigit
    simp [next?, hopening, hword, hnot]
  | word hopening hstart hchars hrest =>
    obtain ⟨rfl, rfl⟩ := List.cons.inj htext
    obtain ⟨htake, hdrop⟩ := takeWhile_run hchars hrest
    rw [List.cons_append] at hopening
    simp [next?, hopening, hstart, htake, hdrop]
  | @slot digits rest hne hdigits hrest =>
    obtain ⟨rfl, rfl⟩ := List.cons.inj htext
    obtain ⟨htake, hdrop⟩ := takeWhile_run hdigits hrest
    have hdigit : startsWith Char.isDigit (digits ++ rest) = true := by
      cases digits with
      | nil => exact absurd rfl hne
      | cons d digits => exact hdigits d List.mem_cons_self
    have hopening : opening? ('$' :: (digits ++ rest)) = none := rfl
    have hword : isWordStart '$' = false := rfl
    simp [next?, hopening, hword, hdigit, htake, hdrop]
  | @quoted kind body rest hbody hrest =>
    have hopening : opening? (c :: cs) = some (kind, body ++ kind.mark :: rest) :=
      opening?_eq_some.mpr (by simpa [Token.text] using htext)
    simp [next?, hopening, body?_of_body hbody hrest]

/-- The first token of a text is the one that stands at its beginning. -/
theorem next?_eq_some {c : Char} {cs rest : List Char} {t : Token} :
    next? c cs = some (t, rest) ↔ c :: cs = t.text ++ rest ∧ t.Stands rest :=
  ⟨stands_of_next?, fun ⟨htext, h⟩ => next?_of_stands h htext⟩

/-! ## All tokens -/

theorem Token.Stands.text_ne_nil {t : Token} {rest : List Char} (h : t.Stands rest) : t.text ≠ [] := by
  cases h <;> simp [Token.text]

/-- The tokens of a text, unless quotes never end. -/
def lex : List Char → Option (List Token)
  | [] => some []
  | c :: cs =>
    match _hnext : next? c cs with
    | none => none
    | some (t, rest) => (lex rest).map (t :: ·)
termination_by cs => cs.length
decreasing_by
  obtain ⟨htext, hstands⟩ := next?_eq_some.mp _hnext
  have hpos := List.length_pos_iff.mpr hstands.text_ne_nil
  have hlength := congrArg List.length htext
  rw [List.length_append] at hlength
  omega

/-- Each token stands in front of the text of those behind it. -/
def InPlace : List Token → Prop
  | [] => True
  | t :: ts => t.Stands (text ts) ∧ InPlace ts

theorem lex_cons {c : Char} {cs rest : List Char} {t : Token} (h : next? c cs = some (t, rest)) :
    lex (c :: cs) = (lex rest).map (t :: ·) := by
  rw [lex]
  split
  · rename_i hnext
    rw [hnext] at h
    cases h
  · rename_i hnext
    rw [hnext] at h
    cases h
    rfl

theorem lex_text {ts : List Token} (h : InPlace ts) : lex (text ts) = some ts := by
  induction ts with
  | nil => simp [lex]
  | cons t ts ih =>
    obtain ⟨hstands, hts⟩ := h
    cases htext : text (t :: ts) with
    | nil => simp [hstands.text_ne_nil] at htext
    | cons c cs =>
      have hnext : next? c cs = some (t, text ts) := next?_eq_some.mpr ⟨htext.symm, hstands⟩
      rw [lex_cons hnext, ih hts]
      rfl

theorem inPlace_of_lex {cs : List Char} {ts : List Token} (h : lex cs = some ts) : cs = text ts ∧ InPlace ts := by
  induction cs using lex.induct generalizing ts with
  | case1 =>
    rw [lex] at h
    cases h
    exact ⟨rfl, trivial⟩
  | case2 c cs hnext =>
    rw [lex] at h
    split at h
    · cases h
    · rename_i hsome
      rw [hnext] at hsome
      cases hsome
  | case3 c cs t rest hnext ih =>
    rw [lex_cons hnext] at h
    obtain ⟨ts', hts, rfl⟩ := Option.map_eq_some_iff.mp h
    obtain ⟨rfl, hplace⟩ := ih hts
    obtain ⟨htext, hstands⟩ := next?_eq_some.mp hnext
    exact ⟨htext, hstands, hplace⟩

/-! ## What a text begins with -/

theorem isSpace_cases {c : Char} (h : isSpace c = true) :
    isWordStart c = false ∧ c ≠ '$' ∧ c ≠ '\x22' ∧ c ≠ '\x27' := by
  simp only [isSpace, List.mem_cons, List.not_mem_nil, or_false, decide_eq_true_eq] at h
  rcases h with rfl | rfl | rfl | rfl | rfl | rfl <;> decide

/-- A text that begins with a blank begins with the mark of that blank. -/
theorem Token.Stands.eq_mark {t : Token} {c : Char} {rest more : List Char} (h : t.Stands rest)
    (hc : isSpace c = true) (htext : t.text ++ rest = c :: more) : t = .mark c ∧ rest = more := by
  obtain ⟨hstart, hslot, hdouble, hsingle⟩ := isSpace_cases hc
  cases h with
  | mark => cases htext; exact ⟨rfl, rfl⟩
  | word _ hword =>
    cases htext
    rw [hword] at hstart
    cases hstart
  | slot => cases htext; exact absurd rfl hslot
  | @quoted kind =>
    rcases kind with _ | _ | small <;> cases htext
    · exact absurd rfl hdouble
    · exact absurd rfl hsingle
    · cases small <;> cases hstart

/-- A text that begins with a quote character begins with what is in these quotes. -/
theorem Token.Stands.eq_quoted {t : Token} {kind : Quoting} {rest more : List Char} (h : t.Stands rest)
    (htext : t.text ++ rest = kind.mark :: more) :
    ∃ kind' body, t = .quoted kind' body ∧ kind'.isText = kind.isText ∧ kind'.lead = [] := by
  cases h with
  | mark hopening =>
    obtain ⟨rfl, rfl⟩ := List.cons.inj htext
    obtain ⟨hdouble, hsingle⟩ := ne_mark_of_opening? hopening
    cases kind with
    | name => exact absurd rfl hdouble
    | text | escaped => exact absurd rfl hsingle
  | word _ hword =>
    obtain ⟨rfl, -⟩ := List.cons.inj htext
    cases kind <;> cases hword
  | slot =>
    have hmark := (List.cons.inj htext).1
    cases kind <;> cases hmark
  | @quoted kind' body =>
    have hhead := congrArg List.head? htext
    rcases kind' with _ | _ | small
    · exact ⟨.name, body, rfl, by cases kind <;> simp_all [Token.text, Quoting.lead, Quoting.mark, Quoting.isText], rfl⟩
    · exact ⟨.text, body, rfl, by cases kind <;> simp_all [Token.text, Quoting.lead, Quoting.mark, Quoting.isText], rfl⟩
    · cases small <;> cases kind <;> cases hhead

theorem opening?_two {c d : Char} {cs : List Char} (h : opening? (c :: d :: cs) = none) (cs' : List Char) :
    opening? (c :: d :: cs') = none := by
  cases hopening : opening? (c :: d :: cs') with
  | none => rfl
  | some found =>
    obtain ⟨kind, inside⟩ := found
    have htext := opening?_eq_some.mp hopening
    rcases kind with _ | _ | small
    · cases htext; cases h
    · cases htext; cases h
    · cases small <;> (cases htext; cases h)

theorem opening?_congr {c : Char} (cs : List Char) {rest rest' : List Char} (hhead : rest'.head? = rest.head?)
    (h : opening? (c :: cs ++ rest) = none) : opening? (c :: cs ++ rest') = none := by
  cases cs with
  | cons d cs => exact opening?_two h _
  | nil =>
    cases rest with
    | nil =>
      rw [List.head?_eq_none_iff.mp hhead]
      exact h
    | cons d rest =>
      obtain ⟨rest', rfl⟩ := List.head?_eq_some_iff.mp hhead
      exact opening?_two h _

/-- All but quoted text takes notice of the first character behind it only. -/
theorem Token.Stands.congr {t : Token} {rest rest' : List Char} (h : t.Stands rest)
    (hquoted : ∀ kind body, t ≠ .quoted kind body) (hhead : rest'.head? = rest.head?) : t.Stands rest' := by
  cases h with
  | mark hopening hword hslot =>
    refine .mark (opening?_congr [] hhead hopening) hword ?_
    intro hc
    rw [startsWith, hhead]
    exact hslot hc
  | word hopening hstart hchars hrest =>
    refine .word (opening?_congr _ hhead hopening) hstart hchars ?_
    rw [startsWith, hhead]
    exact hrest
  | slot hne hdigits hrest =>
    refine .slot hne hdigits ?_
    rw [startsWith, hhead]
    exact hrest
  | quoted => exact absurd rfl (hquoted _ _)

/-- Quotes reopen where other quotes of their kind follow at once or behind blanks. -/
theorem reopens_text {kind : Quoting} {ts : List Token} (hplace : InPlace ts) (h : reopens kind (text ts) = true) :
    ∃ gap kind' body back, isSeam kind gap = true ∧ ts = gap.map .mark ++ .quoted kind' body :: back ∧
      kind'.isText = kind.isText ∧ kind'.lead = [] := by
  obtain ⟨gap, rest, hseam, htext⟩ := reopens_iff.mp h
  have hspace := all_isSpace_of_isSeam hseam
  suffices ∃ kind' body back, ts = gap.map .mark ++ .quoted kind' body :: back ∧
      kind'.isText = kind.isText ∧ kind'.lead = [] by
    obtain ⟨kind', body, back, hts, hkind⟩ := this
    exact ⟨gap, kind', body, back, hseam, hts, hkind⟩
  clear h hseam
  induction gap generalizing ts with
  | nil =>
    cases ts with
    | nil => cases htext
    | cons t ts =>
      obtain ⟨kind', body, rfl, hkind⟩ := hplace.1.eq_quoted htext
      exact ⟨kind', body, ts, rfl, hkind⟩
  | cons c gap ih =>
    cases ts with
    | nil => cases htext
    | cons t ts =>
      obtain ⟨rfl, hrest⟩ := hplace.1.eq_mark (hspace c List.mem_cons_self) htext
      obtain ⟨kind', body, back, rfl, hkind⟩ := ih hplace.2 hrest fun d hd => hspace d (List.mem_cons_of_mem c hd)
      exact ⟨kind', body, back, rfl, hkind⟩

theorem reopens_of_gap {kind kind' : Quoting} {gap body : List Char} {back : List Token}
    (hseam : isSeam kind gap = true) (hkind : kind'.isText = kind.isText) (hlead : kind'.lead = []) :
    reopens kind (text (gap.map .mark ++ .quoted kind' body :: back)) = true := by
  rw [text_marks, text_cons, Token.text, hlead, mark_congr hkind, List.nil_append]
  exact reopens_iff.mpr ⟨gap, _, hseam, by rw [List.append_assoc, List.cons_append]⟩

/-- A text has one reading, the tokens that make it and that stand where they are. -/
theorem lex_eq_some {cs : List Char} {ts : List Token} : lex cs = some ts ↔ cs = text ts ∧ InPlace ts :=
  ⟨inPlace_of_lex, fun ⟨hcs, h⟩ => hcs ▸ lex_text h⟩

end Listing.Sql
