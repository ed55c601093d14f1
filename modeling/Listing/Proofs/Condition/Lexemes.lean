import Listing.Platform
/-!
# The lexemes of raw conditions

Conditions of a definition are raw text. A database reads them by their quotes, parentheses and words;
comments are not looked for. `cut` gives the lexemes of a text on a platform, and `Balanced` says that
its quotes are closed and its parentheses nest. Complete texts can be written one behind the other where
the second one breaks words (`cut_append`).
-/
namespace Listing

/-- The characters around names and texts. -/
def Platform.isQuote (p : Platform) (c : Char) : Bool :=
  c == '\x27' || c == '\x22' || c == '\x60' && p != .postgres

/-- Whether a backslash takes the next character with it in quotes that begin behind a word. -/
def Platform.escapes (p : Platform) (word : List Char) (quote : Char) : Bool :=
  match p with
  | .postgres => quote == '\x27' && (word == ['E'] || word == ['e'])
  | .mysql => quote != '\x60'
  | .sqlite => false

namespace Raw

/-! ## Lexemes -/

inductive Lexeme where
  | word (cs : List Char)
  | mark (c : Char)
  /-- A quote character, or a character in quotes. -/
  | inner (c : Char)
  | opening
  | closing
deriving DecidableEq, Repr

/-- Where the scanner is: between lexemes, in a word, in quotes, behind a backslash in quotes, or behind
quotes, which another quote character would open again. Words are last character first. -/
inductive Mode where
  | plain
  | word (read : List Char)
  | quoted (quote : Char) (escapes : Bool)
  | escaped (quote : Char)
  | closed (quote : Char) (escapes : Bool)
deriving DecidableEq, Repr

def isWordChar (c : Char) : Bool :=
  c.isAlphanum || c == '_' || c == '$' || 0x80 ≤ c.toNat && !Text.isBlank c

/-- The lexeme of a character outside of words and quotes. -/
def single (c : Char) : Lexeme :=
  if c = '(' then .opening else if c = ')' then .closing else .mark c

section
variable (p : Platform)

/-- What a character begins behind a word, which may be empty. -/
def enter (word : List Char) (c : Char) : Mode × List Lexeme :=
  if p.isQuote c then (.quoted c (p.escapes word c), [.inner c])
  else if isWordChar c then (.word [c], [])
  else (.plain, [single c])

def step (mode : Mode) (c : Char) : Mode × List Lexeme :=
  match mode with
  | .plain => enter p [] c
  | .word read =>
    if isWordChar c then (.word (c :: read), [])
    else ((enter p read.reverse c).1, .word read.reverse :: (enter p read.reverse c).2)
  | .quoted quote escapes =>
    if c = quote then (.closed quote escapes, [.inner c])
    else if escapes && c == '\\' then (.escaped quote, [.inner c])
    else (.quoted quote escapes, [.inner c])
  | .escaped quote => (.quoted quote true, [.inner c])
  | .closed quote escapes => if c = quote then (.quoted quote escapes, [.inner c]) else enter p [] c

/-- The lexemes of a text, unless quotes are left open. -/
def cut : Mode → List Char → Option (List Lexeme)
  | .plain, [] | .closed _ _, [] => some []
  | .word read, [] => some [.word read.reverse]
  | .quoted _ _, [] | .escaped _, [] => none
  | mode, c :: cs => (cut (step p mode c).1 cs).map ((step p mode c).2 ++ ·)

end

/-- How many parentheses are open behind lexemes; `none` if one is closed that was not opened. -/
def depth : Nat → List Lexeme → Option Nat
  | n, [] => some n
  | n, .opening :: ls => depth (n + 1) ls
  | 0, .closing :: _ => none
  | n + 1, .closing :: ls => depth n ls
  | n, .word _ :: ls | n, .mark _ :: ls | n, .inner _ :: ls => depth n ls

/-- All quotes are closed, and parentheses nest. -/
def Balanced (p : Platform) (cs : List Char) : Prop :=
  ∃ ls, cut p .plain cs = some ls ∧ depth 0 ls = some 0

theorem bind_cut_eq_some {p : Platform} {cs : List Char} :
    (cut p .plain cs).bind (depth 0) = some 0 ↔ Balanced p cs := Option.bind_eq_some_iff

instance (p : Platform) (cs : List Char) : Decidable (Balanced p cs) := decidable_of_iff _ bind_cut_eq_some

/-! ## Lexemes of texts in a row -/

/-- Text that ends a word or quotes in front of it. -/
def Breaks (p : Platform) (cs : List Char) : Prop :=
  ∀ c ∈ cs.head?, isWordChar c = false ∧ p.isQuote c = false

theorem breaks_cons {p : Platform} {c : Char} (hword : isWordChar c = false) (hquote : p.isQuote c = false)
    (cs : List Char) : Breaks p (c :: cs) := by
  rintro d ⟨⟩
  exact ⟨hword, hquote⟩

theorem breaks_space {p : Platform} (cs : List Char) : Breaks p (' ' :: cs) :=
  breaks_cons rfl (by cases p <;> rfl) cs

theorem breaks_opening {p : Platform} (cs : List Char) : Breaks p ('(' :: cs) :=
  breaks_cons rfl (by cases p <;> rfl) cs

theorem breaks_closing {p : Platform} (cs : List Char) : Breaks p (')' :: cs) :=
  breaks_cons rfl (by cases p <;> rfl) cs

/-- The quote character that a mode waits for. -/
def Mode.quote? : Mode → Option Char
  | plain | word _ => none
  | quoted q _ | escaped q | closed q _ => some q

section
variable {p : Platform}

theorem isQuote_enter {word : List Char} {c q : Char} (h : q ∈ (enter p word c).1.quote?) : p.isQuote q = true := by
  unfold enter at h
  split at h
  · rename_i hc
    cases h
    exact hc
  · split at h <;> cases h

theorem isQuote_step {mode : Mode} (hmode : ∀ q ∈ mode.quote?, p.isQuote q = true) {c q : Char}
    (h : q ∈ (step p mode c).1.quote?) : p.isQuote q = true := by
  cases mode with
  | plain => exact isQuote_enter h
  | word read =>
    rw [step] at h
    split at h
    · cases h
    · exact isQuote_enter h
  | quoted quote escapes =>
    rw [step] at h
    apply hmode
    split at h
    · exact h
    · split at h <;> exact h
  | escaped quote => exact hmode q h
  | closed quote escapes =>
    rw [step] at h
    split at h
    · exact hmode q h
    · exact isQuote_enter h

theorem cut_cons (mode : Mode) (c : Char) (cs : List Char) :
    cut p mode (c :: cs) = (cut p (step p mode c).1 cs).map ((step p mode c).2 ++ ·) := by
  cases mode <;> rfl

theorem enter_of_breaks {word : List Char} {c : Char} (hword : isWordChar c = false) (hquote : p.isQuote c = false) :
    enter p word c = (.plain, [single c]) := by
  simp [enter, hword, hquote]

/-- What stands behind a text that is complete is cut as if it stood alone, if it breaks words. -/
theorem cut_append_of_mode {mode : Mode} (hmode : ∀ q ∈ mode.quote?, p.isQuote q = true) {cs ds : List Char}
    {ls : List Lexeme} (h : cut p mode cs = some ls) (hds : Breaks p ds) :
    cut p mode (cs ++ ds) = (cut p .plain ds).map (ls ++ ·) := by
  induction cs generalizing mode ls with
  | nil =>
    cases ds with
    | nil =>
      rw [List.append_nil, h]
      simp [cut]
    | cons d ds =>
      obtain ⟨hword, hquote⟩ := hds d rfl
      rw [List.nil_append, cut_cons, cut_cons, step, enter_of_breaks hword hquote]
      cases mode with
      | plain =>
        cases h
        simp [step, enter_of_breaks hword hquote, Function.comp_def]
      | word read =>
        cases h
        simp [step, hword, enter_of_breaks hword hquote, Function.comp_def]
      | quoted | escaped => cases h
      | closed q escapes =>
        cases h
        have hne : d ≠ q := by
          rintro rfl
          rw [hmode d rfl] at hquote
          cases hquote
        simp [step, hne, enter_of_breaks hword hquote, Function.comp_def]
  | cons c cs ih =>
    rw [cut_cons] at h
    obtain ⟨ls', hls, rfl⟩ := Option.map_eq_some_iff.mp h
    rw [List.cons_append, cut_cons, ih (fun q hq => isQuote_step hmode hq) hls, Option.map_map]
    congr 1
    funext ms
    simp

theorem cut_append {cs ds : List Char} {ls ms : List Lexeme} (hcs : cut p .plain cs = some ls)
    (hds : cut p .plain ds = some ms) (hbreaks : Breaks p ds) : cut p .plain (cs ++ ds) = some (ls ++ ms) := by
  rw [cut_append_of_mode (by simp [Mode.quote?]) hcs hbreaks, hds]
  rfl

theorem cut_single {c : Char} (hword : isWordChar c = false) (hquote : p.isQuote c = false) (cs : List Char) :
    cut p .plain (c :: cs) = (cut p .plain cs).map (single c :: ·) := by
  rw [cut_cons, step, enter_of_breaks hword hquote]
  rfl

theorem depth_append (n : Nat) (ls ms : List Lexeme) :
    depth n (ls ++ ms) = (depth n ls).bind fun k => depth k ms := by
  induction ls generalizing n with
  | nil => rfl
  | cons l ls ih =>
    cases l with
    | word | mark | inner => simp only [List.cons_append, depth, ih]
    | opening => simp only [List.cons_append, depth, ih]
    | closing =>
      cases n with
      | zero => rfl
      | succ n => simp only [List.cons_append, depth, ih]

/-- Parentheses that nest do so inside of others. -/
theorem depth_add {n m : Nat} {ls : List Lexeme} (h : depth n ls = some m) (k : Nat) :
    depth (n + k) ls = some (m + k) := by
  induction ls generalizing n with
  | nil =>
    cases h
    rfl
  | cons l ls ih =>
    cases l with
    | word | mark | inner => exact ih h
    | opening =>
      rw [depth, Nat.add_right_comm]
      exact ih h
    | closing =>
      cases n with
      | zero => cases h
      | succ n =>
        rw [Nat.add_right_comm, depth]
        exact ih h

/-! ## Balanced texts -/

theorem Balanced.append {cs ds : List Char} (hcs : Balanced p cs) (hds : Balanced p ds) (hbreaks : Breaks p ds) :
    Balanced p (cs ++ ds) := by
  obtain ⟨ls, hls, hdepth⟩ := hcs
  obtain ⟨ms, hms, hdepth'⟩ := hds
  refine ⟨ls ++ ms, cut_append hls hms hbreaks, ?_⟩
  rw [depth_append, hdepth]
  exact hdepth'

theorem isQuote_parenthesis {c : Char} (h : c = '(' ∨ c = ')') : isWordChar c = false ∧ p.isQuote c = false := by
  rcases h with rfl | rfl <;> cases p <;> exact ⟨rfl, rfl⟩

theorem cut_parentheses {cs : List Char} {ls : List Lexeme} (h : cut p .plain cs = some ls) :
    cut p .plain ('(' :: cs ++ [')']) = some (.opening :: ls ++ [.closing]) := by
  obtain ⟨hword, hquote⟩ := isQuote_parenthesis (p := p) (.inl rfl)
  obtain ⟨hword', hquote'⟩ := isQuote_parenthesis (p := p) (.inr rfl)
  have hclosing : cut p .plain [')'] = some [.closing] := by
    rw [cut_single hword' hquote']
    rfl
  rw [List.cons_append, cut_single hword hquote, cut_append h hclosing (breaks_closing [])]
  rfl

theorem Balanced.parentheses {cs : List Char} (h : Balanced p cs) : Balanced p ('(' :: cs ++ [')']) := by
  obtain ⟨ls, hls, hdepth⟩ := h
  refine ⟨_, cut_parentheses hls, ?_⟩
  have hinner : depth 1 ls = some 1 := depth_add hdepth 1
  rw [List.cons_append, depth, depth_append, hinner]
  rfl

theorem depth_single {c : Char} (hopen : c ≠ '(') (hclose : c ≠ ')') (n : Nat) (ls : List Lexeme) :
    depth n (single c :: ls) = depth n ls := by
  rw [single, if_neg hopen, if_neg hclose, depth]

/-- A mark in front changes no balance. -/
theorem balanced_cons_iff {c : Char} (hword : isWordChar c = false) (hquote : p.isQuote c = false) (hopen : c ≠ '(')
    (hclose : c ≠ ')') {cs : List Char} : Balanced p (c :: cs) ↔ Balanced p cs := by
  constructor
  · rintro ⟨ls, hls, hdepth⟩
    rw [cut_single hword hquote] at hls
    obtain ⟨ls, hls', rfl⟩ := Option.map_eq_some_iff.mp hls
    exact ⟨ls, hls', by rwa [depth_single hopen hclose] at hdepth⟩
  · rintro ⟨ls, hls, hdepth⟩
    exact ⟨single c :: ls, by rw [cut_single hword hquote, hls]; rfl, by rwa [depth_single hopen hclose]⟩

/-- A character that no platform takes for a quote, and no parenthesis. -/
def isPlain (c : Char) : Bool := c != '\x27' && c != '\x22' && c != '\x60' && c != '(' && c != ')'

theorem isQuote_of_isPlain {c : Char} (h : isPlain c = true) : p.isQuote c = false ∧ c ≠ '(' ∧ c ≠ ')' := by
  simp only [isPlain, Bool.and_eq_true, bne_iff_ne] at h
  obtain ⟨⟨⟨⟨hsingle, hdouble⟩, hback⟩, hopen⟩, hclose⟩ := h
  exact ⟨by simp [Platform.isQuote, hsingle, hdouble, hback], hopen, hclose⟩

/-- Text of plain characters is balanced. -/
theorem Balanced.of_plain {cs : List Char} (h : cs.all isPlain = true) : Balanced p cs := by
  rw [List.all_eq_true] at h
  have hcut : ∀ mode, mode.quote? = none → ∃ ls, cut p mode cs = some ls ∧ depth 0 ls = some 0 := by
    induction cs with
    | nil =>
      intro mode hmode
      cases mode with
      | plain => exact ⟨[], rfl, rfl⟩
      | word read => exact ⟨[.word read.reverse], rfl, rfl⟩
      | quoted | escaped | closed => cases hmode
    | cons c cs ih =>
      obtain ⟨hquote, hopen, hclose⟩ := isQuote_of_isPlain (p := p) (h c List.mem_cons_self)
      have hnext := ih fun d hd => h d (List.mem_cons_of_mem c hd)
      intro mode hmode
      have hstep : (step p mode c).1.quote? = none ∧ ∀ ls, depth 0 ((step p mode c).2 ++ ls) = depth 0 ls := by
        cases mode with
        | plain =>
          rw [step, enter, hquote]
          cases isWordChar c with
          | true => exact ⟨rfl, fun _ => rfl⟩
          | false => exact ⟨rfl, depth_single hopen hclose 0⟩
        | word read =>
          rw [step, enter, hquote]
          cases isWordChar c with
          | true => exact ⟨rfl, fun _ => rfl⟩
          | false => exact ⟨rfl, depth_single hopen hclose 0⟩
        | quoted | escaped | closed => cases hmode
      obtain ⟨ls, hls, hdepth⟩ := hnext _ hstep.1
      exact ⟨_, by rw [cut_cons, hls]; rfl, by rw [hstep.2, hdepth]⟩
  exact hcut .plain rfl

end

end Raw
end Listing
