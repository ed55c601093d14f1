import Listing.Proofs.Condition.Lexemes
/-!
# What raw text refers to

Filters and orders name columns in raw text. A column is named by what stands in quotes or by a bare word
that is no keyword; a word behind a colon is a parameter. `references` gives these names as they stand, with
their quotes, so names that differ in one character are different references. An identifier in quotes is one
reference whatever it consists of (`references_quote`), and different identifiers are different references
(`quote_injective`).
-/
namespace Listing.Raw

/-- The words by which filters and orders are written. -/
def keywords : List String :=
  ["WHERE", "AND", "OR", "NOT", "IN", "IS", "NULL", "LIKE", "BETWEEN", "lower", "ORDER", "BY", "ASC", "DESC",
    "NULLS", "FIRST", "LAST"]

/-- Names behind a character in quotes, which belongs to the first one if the quotes go on. -/
def quoteFront (c : Char) (rest : List Lexeme) (names : List (List Char)) : List (List Char) :=
  match rest, names with
  | .inner _ :: _, name :: names => (c :: name) :: names
  | _, names => [c] :: names

/-- The names in quotes, and the words that are neither keywords nor parameters. -/
def namesIn : List Lexeme → List (List Char)
  | [] => []
  | .inner c :: ls => quoteFront c ls (namesIn ls)
  | .mark ':' :: .word _ :: ls => namesIn ls
  | .word cs :: ls => if .ofList cs ∈ keywords then namesIn ls else cs :: namesIn ls
  | .mark _ :: ls | .opening :: ls | .closing :: ls => namesIn ls

/-- The references of a text as they stand; `none` if quotes are left open. -/
def references (p : Platform) (cs : List Char) : Option (List (List Char)) := (cut p .plain cs).map namesIn

/-! ## Texts in a row -/

/-- Lexemes that go on with no word and with no quotes. -/
def Fresh (ls : List Lexeme) : Prop := ∀ l ∈ ls.head?, (∀ cs, l ≠ .word cs) ∧ ∀ c, l ≠ .inner c

theorem fresh_single (c : Char) (ls : List Lexeme) : Fresh (single c :: ls) := by
  rintro l ⟨⟩
  unfold single
  split
  · exact ⟨fun _ => nofun, fun _ => nofun⟩
  · split <;> exact ⟨fun _ => nofun, fun _ => nofun⟩

theorem namesIn_mark {c : Char} {ls : List Lexeme} (h : ∀ cs rest, ls = .word cs :: rest → c ≠ ':') :
    namesIn (.mark c :: ls) = namesIn ls := by
  rw [namesIn]
  exact h

theorem quoteFront_append {ms : List Lexeme} (hms : Fresh ms) (c : Char) (ls : List Lexeme) :
    quoteFront c (ls ++ ms) (namesIn ls ++ namesIn ms) = quoteFront c ls (namesIn ls) ++ namesIn ms := by
  cases ls with
  | nil =>
    cases ms with
    | nil => rfl
    | cons m ms =>
      obtain ⟨-, hinner⟩ := hms m rfl
      cases m with
      | inner d => exact absurd rfl (hinner d)
      | _ => rfl
  | cons l ls =>
    cases l with
    | inner d =>
      obtain ⟨name, names, hnames⟩ : ∃ name names, namesIn (.inner d :: ls) = name :: names := by
        rw [namesIn]
        unfold quoteFront
        split <;> exact ⟨_, _, rfl⟩
      rw [hnames]
      rfl
    | _ => rfl

theorem namesIn_append {ms : List Lexeme} (hms : Fresh ms) (ls : List Lexeme) :
    namesIn (ls ++ ms) = namesIn ls ++ namesIn ms := by
  fun_induction namesIn ls with
  | case1 => rfl
  | case2 c ls ih => rw [List.cons_append, namesIn, ih, quoteFront_append hms]
  | case3 cs ls ih => simpa [namesIn] using ih
  | case4 cs ls hkeyword ih => simpa [namesIn, hkeyword] using ih
  | case5 cs ls hkeyword ih => simpa [namesIn, hkeyword] using ih
  | case6 c ls hparameter ih =>
    have hbehind : ∀ cs rest, ls ++ ms = .word cs :: rest → c ≠ ':' := by
      intro cs rest hword
      cases ls with
      | nil =>
        rw [List.nil_append] at hword
        exact absurd rfl ((hms (.word cs) (by rw [hword]; rfl)).1 cs)
      | cons l ls =>
        cases hword
        exact hparameter _ _ rfl
    rw [List.cons_append, namesIn_mark hbehind, ih]
  | case7 ls ih => simpa [namesIn] using ih
  | case8 ls ih => simpa [namesIn] using ih

section
variable {p : Platform} {cs ds : List Char} {xs ys : List (List Char)}

theorem references_eq_some :
    references p cs = some xs ↔ ∃ ls, cut p .plain cs = some ls ∧ namesIn ls = xs := Option.map_eq_some_iff

theorem fresh_of_breaks {ms : List Lexeme} (hbreaks : Breaks p ds) (hms : cut p .plain ds = some ms) : Fresh ms := by
  cases ds with
  | nil =>
    cases hms
    simp [Fresh]
  | cons d ds =>
    obtain ⟨hword, hquote⟩ := hbreaks d rfl
    rw [cut_single hword hquote] at hms
    obtain ⟨ms, _, rfl⟩ := Option.map_eq_some_iff.mp hms
    exact fresh_single d ms

/-- Texts refer to what each of them refers to, if the second one breaks words. -/
theorem references_append (hcs : references p cs = some xs) (hds : references p ds = some ys)
    (hbreaks : Breaks p ds) : references p (cs ++ ds) = some (xs ++ ys) := by
  obtain ⟨ls, hls, rfl⟩ := references_eq_some.mp hcs
  obtain ⟨ms, hms, rfl⟩ := references_eq_some.mp hds
  exact references_eq_some.mpr ⟨_, cut_append hls hms hbreaks, namesIn_append (fresh_of_breaks hbreaks hms) ls⟩

/-- A mark in front refers to nothing, unless it makes a parameter of the word behind it. -/
theorem references_cons {c : Char} (hword : isWordChar c = false) (hquote : p.isQuote c = false) (hcolon : c ≠ ':') :
    references p (c :: cs) = references p cs := by
  have hnames : ∀ ls, namesIn (single c :: ls) = namesIn ls := by
    intro ls
    unfold single
    split
    · rw [namesIn]
    · split
      · rw [namesIn]
      · exact namesIn_mark fun _ _ _ => hcolon
  rw [references, references, cut_single hword hquote, Option.map_map]
  congr 1
  funext ls
  exact hnames ls

theorem references_space : references p (' ' :: cs) = references p cs := by
  cases p <;> exact references_cons rfl rfl (by decide)

/-- A space keeps texts apart. -/
theorem references_spaced (hcs : references p cs = some xs) (hds : references p ds = some ys) :
    references p (cs ++ ' ' :: ds) = some (xs ++ ys) := by
  exact references_append hcs (by rw [references_space, hds]) (breaks_space ds)

theorem references_parentheses (h : references p cs = some xs) : references p ('(' :: cs ++ [')']) = some xs := by
  obtain ⟨hword, hquote⟩ := isQuote_parenthesis (p := p) (.inl rfl)
  have hclosing : references p [')'] = some [] := by cases p <;> rfl
  rw [List.cons_append, references_cons hword hquote (by decide)]
  simpa using references_append h hclosing (breaks_closing [])

/-! ## Parameters and identifiers -/

theorem cut_word (read : List Char) (hcs : ∀ c ∈ cs, isWordChar c = true) :
    cut p (.word read) cs = some [.word (read.reverse ++ cs)] := by
  induction cs generalizing read with
  | nil => simp [cut]
  | cons c cs ih =>
    rw [List.forall_mem_cons] at hcs
    rw [cut_cons, step, if_pos hcs.1, ih (c :: read) hcs.2]
    simp

/-- A colon makes a parameter of a word. -/
theorem references_parameter {name : List Char} (hne : name ≠ []) (hname : ∀ c ∈ name, isWordChar c = true)
    (hquote : ∀ c ∈ name, p.isQuote c = false) : references p (':' :: name) = some [] := by
  obtain ⟨c, cs, rfl⟩ := List.exists_cons_of_ne_nil hne
  rw [List.forall_mem_cons] at hname hquote
  have hcolon : isWordChar ':' = false ∧ p.isQuote ':' = false := by cases p <;> exact ⟨rfl, rfl⟩
  have hcut : cut p .plain (':' :: c :: cs) = some [.mark ':', .word (c :: cs)] := by
    rw [cut_single hcolon.1 hcolon.2, cut_cons, step, enter, hquote.1, hname.1, if_neg Bool.false_ne_true, if_pos rfl,
      cut_word [c] hname.2]
    rfl
  exact references_eq_some.mpr ⟨_, hcut, rfl⟩

theorem namesIn_inner (c : Char) (cs : List Char) : namesIn ((c :: cs).map .inner) = [c :: cs] := by
  induction cs generalizing c with
  | nil => rfl
  | cons d cs ih =>
    rw [List.map_cons, namesIn, ih d]
    rfl

/-- A character of an identifier as it stands in quotes. -/
def inQuotes (q c : Char) : List Char := if c = q then [q, q] else [c]

theorem quoteWith_eq (q : Char) (cs : List Char) : Platform.quoteWith q cs = q :: cs.flatMap (inQuotes q) ++ [q] := rfl

theorem cut_inQuotes (q c : Char) (rest : List Char) :
    cut p (.quoted q false) (inQuotes q c ++ rest) =
      (cut p (.quoted q false) rest).map ((inQuotes q c).map .inner ++ ·) := by
  unfold inQuotes
  split
  · simp [cut_cons, step, Function.comp_def]
  · next hc => simp [cut_cons, step, hc]

/-- What a platform writes in quotes, it reads as one text in quotes. -/
theorem cut_quoteWith (identifier : List Char) :
    cut p .plain (Platform.quoteWith p.quoteChar identifier) =
      some ((Platform.quoteWith p.quoteChar identifier).map .inner) := by
  have hquote : p.isQuote p.quoteChar = true ∧ p.escapes [] p.quoteChar = false := by cases p <;> exact ⟨rfl, rfl⟩
  have hinside : ∀ cs : List Char, cut p (.quoted p.quoteChar false) (cs.flatMap (inQuotes p.quoteChar) ++ [p.quoteChar]) =
      some ((cs.flatMap (inQuotes p.quoteChar) ++ [p.quoteChar]).map .inner) := by
    intro cs
    induction cs with
    | nil => simp [cut, step]
    | cons c cs ih =>
      rw [List.flatMap_cons, List.append_assoc, cut_inQuotes, ih]
      simp
  rw [quoteWith_eq, List.cons_append, cut_cons, step, enter, if_pos hquote.1, hquote.2, hinside]
  rfl

/-- An identifier in quotes is one reference. -/
theorem references_quote (identifier : String) :
    references p (p.quote identifier).toList = some [(p.quote identifier).toList] := by
  rw [Platform.quote, String.toList_ofList]
  exact references_eq_some.mpr ⟨_, cut_quoteWith identifier.toList, namesIn_inner _ _⟩

end

theorem inQuotes_eq (q c : Char) : inQuotes q c = c :: if c = q then [q] else [] := by
  unfold inQuotes
  split
  · next hc => rw [hc]
  · rfl

theorem eq_of_flatMap_inQuotes {q : Char} {cs ds : List Char}
    (h : cs.flatMap (inQuotes q) = ds.flatMap (inQuotes q)) : cs = ds := by
  induction cs generalizing ds with
  | nil =>
    cases ds with
    | nil => rfl
    | cons d ds =>
      rw [List.flatMap_cons, inQuotes_eq] at h
      cases h
  | cons c cs ih =>
    cases ds with
    | nil =>
      rw [List.flatMap_cons, inQuotes_eq] at h
      cases h
    | cons d ds =>
      rw [List.flatMap_cons, List.flatMap_cons, inQuotes_eq, inQuotes_eq] at h
      obtain ⟨rfl, hrest⟩ := List.cons.inj h
      rw [ih (List.append_cancel_left hrest)]

/-- Identifiers that differ do so in quotes. -/
theorem quote_injective (p : Platform) : Function.Injective p.quote := by
  intro a b h
  have hquoted := String.ofList_injective h
  rw [quoteWith_eq, quoteWith_eq] at hquoted
  have hinside := (List.cons.inj (List.append_cancel_right hquoted)).2
  exact String.toList_injective (eq_of_flatMap_inQuotes hinside)

example : references .postgres "(lower(\"a \"\"b\") NOT IN(:ab_1) OR c IS NULL)".toList =
    some ["\"a \"\"b\"".toList, ['c']] := by decide +kernel

end Listing.Raw
