import Listing.Proofs.Statement.Filled
/-!
# Segments of a statement

Which names of a text binding replaces, said without the scanner. A name stands where its colon is outside
quotes and is not the second of a pair of colons, and it goes on as long as there are characters of names
(`Stands`). The names in the bag that stand in a text cut it into segments. Binding copies the segments and puts
in place of every name the placeholders of its values, which are counted through the whole text
(`bind_segments`). The text is read stretch by stretch (`stretch_induction`); a stretch without a name neither
hides nor makes one behind it (`Copied.stands_iff`).
-/
namespace Listing.Bound

/-! ## Where names stand -/

/-- The quote that is open behind a character. -/
def quoteStep : Option Char → Char → Option Char
  | some q, c => if c = q then none else some q
  | none, c => if isQuote c then some c else none

/-- The quote that is open at the end of a text. -/
def openAfter (cs : List Char) : Option Char := cs.foldl quoteStep none

/-- How many colons a text ends with. -/
def colonsAtEnd (cs : List Char) : Nat := (cs.reverse.takeWhile (· == ':')).length

/-- Between two texts stand a colon and a name: the name with all of its characters, the colon outside quotes and
behind colons in pairs. -/
structure Stands (front name back : List Char) : Prop where
  isName : IsName name
  whole : Breaks back
  outside : openAfter front = none
  unpaired : colonsAtEnd front % 2 = 0

theorem openAfter_append {cs : List Char} (h : openAfter cs = none) (ds : List Char) :
    openAfter (cs ++ ds) = openAfter ds := by
  unfold openAfter at h ⊢
  rw [List.foldl_append, h]

/-- A quote stays open up to its own character. -/
theorem openAfter_opened {q : Char} {body : List Char} (hquote : isQuote q = true) (hbody : q ∉ body) :
    openAfter (q :: body) = some q := by
  have hstays : body.foldl quoteStep (some q) = some q := by
    induction body with
    | nil => rfl
    | cons c body ih =>
      rw [List.mem_cons, not_or] at hbody
      rw [List.foldl_cons, quoteStep, if_neg (Ne.symm hbody.1)]
      exact ih hbody.2
  rw [openAfter, List.foldl_cons, quoteStep, hquote, if_pos rfl, hstays]

theorem openAfter_closed {q : Char} {body : List Char} (hquote : isQuote q = true) (hbody : q ∉ body) :
    openAfter (q :: body ++ [q]) = none := by
  have hopened := openAfter_opened hquote hbody
  unfold openAfter at hopened ⊢
  rw [List.foldl_append, hopened]
  simp [quoteStep]

theorem openAfter_unquoted {cs : List Char} (h : ∀ c ∈ cs, isQuote c = false) : openAfter cs = none := by
  induction cs with
  | nil => rfl
  | cons c cs ih =>
    rw [openAfter, List.foldl_cons, quoteStep, h c List.mem_cons_self]
    exact ih fun d hd => h d (List.mem_cons_of_mem c hd)

/-- Colons in front are counted on by a text of colons alone. -/
theorem colonsAtEnd_append {cs ds : List Char} (h : (∀ d ∈ ds, d = ':') → colonsAtEnd cs % 2 = 0) :
    colonsAtEnd (cs ++ ds) % 2 = colonsAtEnd ds % 2 := by
  unfold colonsAtEnd at h ⊢
  rw [List.reverse_append, List.takeWhile_append]
  split
  · next hall =>
    have hcolons : ∀ d ∈ ds, d = ':' := by
      intro d hd
      have hwhole : ds.reverse.takeWhile (· == ':') = ds.reverse := (List.takeWhile_sublist _).eq_of_length hall
      have hmem : d ∈ ds.reverse.takeWhile (· == ':') := by
        rw [hwhole]
        exact List.mem_reverse.2 hd
      simpa using List.all_eq_true.1 List.all_takeWhile d hmem
    have heven := h hcolons
    rw [List.length_append, hall]
    omega
  · rfl

/-- Of a text that begins with a name, the name is what can be read. -/
theorem takeWhile_name {name : List Char} (hname : ∀ c ∈ name, isNameChar c = true) {back : List Char}
    (hback : Breaks back) : (name ++ back).takeWhile isNameChar = name := by
  rw [List.takeWhile_append_of_pos hname]
  cases back with
  | nil => simp
  | cons c back => rw [List.takeWhile_cons_of_neg (by simp [hback c rfl]), List.append_nil]

theorem isQuote_eq_false {c : Char} (h : isNameChar c = true) : isQuote c = false := by
  rw [Bool.eq_false_iff]
  intro hquote
  simp only [isQuote, Bool.or_eq_true, beq_iff_eq] at hquote
  rcases hquote with (rfl | rfl) | rfl <;> cases h

/-- A name begins with a character of names. -/
theorem Stands.exists_cons {front name back : List Char} (h : Stands front name back) :
    ∃ c name', name = c :: name' ∧ isNameChar c = true := by
  obtain ⟨hne, hchars⟩ := h.isName
  obtain ⟨c, name', rfl⟩ := List.exists_cons_of_ne_nil hne
  exact ⟨c, name', rfl, hchars c List.mem_cons_self⟩

/-! ## Stretches -/

/-- Stretches of a text that are copied, in front of the rest. -/
inductive Copied : List Char → List Char → Prop
  | char {c : Char} {rest : List Char} (h : isPlain c = true) : Copied [c] rest
  | closed {q : Char} {body rest : List Char} (hquote : isQuote q = true) (hbody : q ∉ body) :
      Copied (q :: body ++ [q]) rest
  | opened {q : Char} {body : List Char} (hquote : isQuote q = true) (hbody : q ∉ body) : Copied (q :: body) []
  | pair {rest : List Char} : Copied [':', ':'] rest
  | colon {rest : List Char} (hbreaks : Breaks rest) (hcolon : rest.head? ≠ some ':') : Copied [':'] rest

theorem ne_colon_of_isQuote {q : Char} (h : isQuote q = true) : q ≠ ':' := by
  rintro rfl
  cases h

/-- A quote that is not closed is copied to the end of the text. -/
theorem pieces_opened {q : Char} {body : List Char} (hbody : q ∉ body) :
    pieces (.quoted q) body = body.map .char := by
  induction body with
  | nil => rfl
  | cons c body ih =>
    rw [List.mem_cons, not_or] at hbody
    rw [pieces, step, if_neg (Ne.symm hbody.1), ih hbody.2]
    rfl

theorem Copied.pieces_append {lead rest : List Char} (h : Copied lead rest) :
    pieces .plain (lead ++ rest) = lead.map .char ++ pieces .plain rest := by
  cases h with
  | char h => exact pieces_plain_cons h rest
  | closed hquote hbody => exact pieces_inert (.quoted hquote hbody .nil) rest
  | @opened q body hquote hbody =>
    have henter : enter q = (.quoted q, [.char q]) := by simp [enter, ne_colon_of_isQuote hquote, hquote]
    have hopen : pieces .plain (q :: body) = .char q :: pieces (.quoted q) body := by
      rw [pieces, step, henter]
      rfl
    rw [List.append_nil, hopen, pieces_opened hbody]
    simp [pieces]
  | pair => exact pieces_inert (.colons .nil) rest
  | colon hbreaks hcolon =>
    cases rest with
    | nil => rfl
    | cons c rest =>
      have hc : c ≠ ':' := by simpa using hcolon
      have hname : isNameChar c = false := hbreaks c rfl
      simp [pieces, step, enter, leave, hname, hc]

/-! ## Names behind a stretch -/

section
variable {lead rest front name back : List Char}

/-- Behind a text with closed quotes and colons in pairs the same names stand as without it. -/
theorem stands_append (hclosed : openAfter lead = none)
    (heven : rest.head? = some ':' → colonsAtEnd lead % 2 = 0) (hrest : rest = front ++ ':' :: name ++ back) :
    Stands (lead ++ front) name back ↔ Stands front name back := by
  have hcolons : colonsAtEnd (lead ++ front) % 2 = colonsAtEnd front % 2 := by
    refine colonsAtEnd_append fun hall => heven ?_
    rw [hrest]
    cases front with
    | nil => rfl
    | cons c front => rw [hall c List.mem_cons_self]; rfl
  constructor
  · intro h
    exact ⟨h.isName, h.whole, openAfter_append hclosed front ▸ h.outside, hcolons ▸ h.unpaired⟩
  · intro h
    exact ⟨h.isName, h.whole, (openAfter_append hclosed front).trans h.outside, hcolons.trans h.unpaired⟩

/-- A name that stands in a text stands behind a given beginning of it, or its colon is in the beginning. -/
theorem stands_cases (hclosed : rest ≠ [] → openAfter lead = none)
    (heven : rest.head? = some ':' → colonsAtEnd lead % 2 = 0) :
    (lead ++ rest = front ++ ':' :: name ++ back ∧ Stands front name back) ↔
      (∃ tail, lead = front ++ ':' :: tail ∧ tail ++ rest = name ++ back ∧ Stands front name back) ∨
      ∃ front', front = lead ++ front' ∧ rest = front' ++ ':' :: name ++ back ∧ Stands front' name back := by
  constructor
  · rintro ⟨htext, hstands⟩
    rw [List.append_assoc, List.append_eq_append_iff] at htext
    rcases htext with ⟨front', rfl, hrest⟩ | ⟨tail, hlead, htail⟩
    · rw [← List.append_assoc] at hrest
      have hne : rest ≠ [] := by simp [hrest]
      exact .inr ⟨front', rfl, hrest, (stands_append (hclosed hne) heven hrest).1 hstands⟩
    · cases tail with
      | nil =>
        -- the name begins where the beginning ends
        rw [List.append_nil] at hlead
        have hrest : rest = [] ++ ':' :: name ++ back := by simpa using htail.symm
        have hne : rest ≠ [] := by simp [hrest]
        subst hlead
        rw [← List.append_nil lead] at hstands
        exact .inr ⟨[], by simp, hrest, (stands_append (hclosed hne) heven hrest).1 hstands⟩
      | cons c tail =>
        simp only [List.cons_append, List.cons.injEq] at htail
        obtain ⟨rfl, htail⟩ := htail
        exact .inl ⟨tail, hlead, htail.symm, hstands⟩
  · rintro (⟨tail, rfl, htail, hstands⟩ | ⟨front', rfl, hrest, hstands⟩)
    · exact ⟨by simp [htail], hstands⟩
    · have hne : rest ≠ [] := by simp [hrest]
      exact ⟨by simp [hrest], (stands_append (hclosed hne) heven hrest).2 hstands⟩

/-- Inside of quotes stands no name. -/
theorem not_stands_quoted {q : Char} {body tail : List Char} (hquote : isQuote q = true) (hbody : q ∉ body)
    (hlead : q :: body = front ++ ':' :: tail) : ¬ Stands front name back := by
  intro h
  cases front with
  | nil =>
    exact ne_colon_of_isQuote hquote (List.cons.inj hlead).1
  | cons c front =>
    simp only [List.cons_append, List.cons.injEq] at hlead
    obtain ⟨rfl, rfl⟩ := hlead
    have hopen := openAfter_opened hquote fun hq => hbody (List.mem_append_left _ hq)
    rw [h.outside] at hopen
    cases hopen

/-- A quote that a copied stretch leaves open is open to the end of the text. -/
theorem Copied.openAfter_eq_none (h : Copied lead rest) (hne : rest ≠ []) : openAfter lead = none := by
  cases h with
  | char h =>
    simp only [isPlain, Bool.and_eq_true, Bool.not_eq_true'] at h
    exact openAfter_unquoted (by simpa using h.2)
  | closed hquote hbody => exact openAfter_closed hquote hbody
  | opened => exact absurd rfl hne
  | pair | colon => rfl

/-- A copied stretch in front of a colon ends with colons in pairs. -/
theorem Copied.colonsAtEnd_even (h : Copied lead rest) (hhead : rest.head? = some ':') :
    colonsAtEnd lead % 2 = 0 := by
  cases h with
  | @char c _ h =>
    have hcolon : c ≠ ':' := by
      rintro rfl
      cases h
    simp [colonsAtEnd, hcolon]
  | closed hquote hbody => simp [colonsAtEnd, ne_colon_of_isQuote hquote]
  | opened => cases hhead
  | pair => rfl
  | colon hbreaks hcolon => exact absurd hhead hcolon

/-- Inside of quotes stands no name, and the quote at their end begins none. -/
theorem not_stands_closed {q : Char} {body tail : List Char} (hquote : isQuote q = true) (hbody : q ∉ body)
    (hlead : q :: body ++ [q] = front ++ ':' :: tail) : ¬ Stands front name back := by
  rcases List.append_eq_append_iff.1 hlead with ⟨front', -, hend⟩ | ⟨tail', hlead, hend⟩
  · cases front' with
    | nil => exact absurd (List.cons.inj hend).1 (ne_colon_of_isQuote hquote)
    | cons c front' => simp at hend
  · cases tail' with
    | nil => exact absurd (List.cons.inj hend).1.symm (ne_colon_of_isQuote hquote)
    | cons c tail' =>
      obtain rfl : ':' = c := (List.cons.inj hend).1
      exact not_stands_quoted hquote hbody hlead

/-- No name begins in a copied stretch. -/
theorem Copied.not_stands {tail : List Char} (h : Copied lead rest) (hlead : lead = front ++ ':' :: tail)
    (htail : tail ++ rest = name ++ back) : ¬ Stands front name back := by
  intro hstands
  cases h with
  | @char c _ h =>
    obtain ⟨-, rfl, -⟩ : front = [] ∧ c = ':' ∧ tail = [] := by
      cases front <;> simp_all
    cases h
  | closed hquote hbody => exact not_stands_closed hquote hbody hlead hstands
  | opened hquote hbody => exact not_stands_quoted hquote hbody hlead hstands
  | pair =>
    rcases front with - | ⟨c, - | ⟨d, front⟩⟩
    · -- behind the first colon stands the second
      obtain rfl : [':'] = tail := (List.cons.inj hlead).2
      obtain ⟨e, name', rfl, he⟩ := hstands.exists_cons
      obtain rfl : ':' = e := (List.cons.inj htail).1
      cases he
    · obtain rfl : ':' = c := (List.cons.inj hlead).1
      exact absurd hstands.unpaired (by decide)
    · simp at hlead
  | colon hbreaks hcolon =>
    rcases front with - | ⟨c, front⟩
    · obtain rfl : [] = tail := (List.cons.inj hlead).2
      obtain ⟨e, name', rfl, he⟩ := hstands.exists_cons
      rw [List.nil_append] at htail
      rw [htail] at hbreaks
      exact absurd he (by simp [hbreaks e rfl])
    · simp at hlead

/-- A copied stretch holds no name, and behind it the same names stand as without it. -/
theorem Copied.stands_iff (h : Copied lead rest) :
    (lead ++ rest = front ++ ':' :: name ++ back ∧ Stands front name back) ↔
      ∃ front', front = lead ++ front' ∧ rest = front' ++ ':' :: name ++ back ∧ Stands front' name back := by
  rw [stands_cases h.openAfter_eq_none h.colonsAtEnd_even]
  refine or_iff_right ?_
  rintro ⟨tail, hlead, htail, hstands⟩
  exact h.not_stands hlead htail hstands

/-- A name in front stands at the front, whole, and behind it the same names stand as without it. -/
theorem IsName.stands_iff {word : List Char} (hword : IsName word) (hbreaks : Breaks rest) :
    (':' :: word ++ rest = front ++ ':' :: name ++ back ∧ Stands front name back) ↔
      (front = [] ∧ name = word ∧ back = rest) ∨
      ∃ front', front = ':' :: word ++ front' ∧ rest = front' ++ ':' :: name ++ back ∧ Stands front' name back := by
  have hcolon : ':' ∉ word := fun h => absurd (hword.2 ':' h) (by decide)
  have hclosed : openAfter (':' :: word) = none := by
    refine openAfter_unquoted fun c hc => ?_
    rcases List.mem_cons.1 hc with rfl | hc
    · rfl
    · exact isQuote_eq_false (hword.2 c hc)
  have heven : rest.head? = some ':' → colonsAtEnd (':' :: word) % 2 = 0 := by
    intro _
    obtain ⟨c, cs, hcs⟩ := List.exists_cons_of_ne_nil (List.reverse_ne_nil_iff.2 hword.1)
    have hc : c ∈ word := List.mem_reverse.1 (hcs ▸ List.mem_cons_self)
    have hne : (c == ':') = false := beq_false_of_ne fun e => hcolon (e ▸ hc)
    rw [colonsAtEnd, List.reverse_cons, hcs, List.cons_append, List.takeWhile_cons_of_neg (by simp [hne])]
    rfl
  rw [stands_cases (fun _ => hclosed) heven]
  refine or_congr_left ?_
  constructor
  · rintro ⟨tail, hlead, htail, hstands⟩
    cases front with
    | nil =>
      obtain rfl : word = tail := (List.cons.inj hlead).2
      have hname : word = name := by
        rw [← takeWhile_name hword.2 hbreaks, htail, takeWhile_name hstands.isName.2 hstands.whole]
      subst hname
      exact ⟨rfl, rfl, (List.append_cancel_left htail).symm⟩
    | cons c front =>
      obtain ⟨-, rfl⟩ := List.cons.inj hlead
      simp at hcolon
  · rintro ⟨rfl, rfl, rfl⟩
    exact ⟨name, rfl, rfl, hword, hbreaks, rfl, rfl⟩

end

/-! ## Segments -/

/-- A name that is replaced, its value, the placeholders put in its place, and the text up to the next one. -/
structure Hole where
  name : List Char
  value : Value
  marks : List String
  tail : List Char

/-- The text with the names in its holes. -/
def spelled (first : List Char) (holes : List Hole) : List Char :=
  first ++ holes.flatMap fun h => ':' :: h.name ++ h.tail

/-- In a text, between two parts of it, stands a name that has a value in the bag. -/
def Found (bag : Bag) (cs front name : List Char) (value : Value) (back : List Char) : Prop :=
  (cs = front ++ ':' :: name ++ back ∧ Stands front name back) ∧ bag.get? (.ofList (':' :: name)) = some value

/-- A text is cut exactly where names in a bag stand. -/
structure Segments (bag : Bag) (cs first : List Char) (holes : List Hole) : Prop where
  text : cs = spelled first holes
  found_iff : ∀ front name value back, Found bag cs front name value back ↔
    ∃ before hole after, holes = before ++ hole :: after ∧ hole.name = name ∧ hole.value = value ∧
      front = spelled first before ∧ back = spelled hole.tail after

theorem spelled_append (lead first : List Char) (holes : List Hole) :
    spelled (lead ++ first) holes = lead ++ spelled first holes := by
  simp [spelled]

theorem spelled_cons (first : List Char) (hole : Hole) (holes : List Hole) :
    spelled first (hole :: holes) = first ++ ':' :: hole.name ++ spelled hole.tail holes := by
  simp [spelled]

section
variable {bag : Bag} {first rest : List Char} {holes : List Hole}

/-- A text in front in which no name stands goes into the first segment. -/
theorem Segments.append (h : Segments bag rest first holes) {lead : List Char}
    (hlead : ∀ front name value back, Found bag (lead ++ rest) front name value back ↔
      ∃ front', front = lead ++ front' ∧ Found bag rest front' name value back) :
    Segments bag (lead ++ rest) (lead ++ first) holes := by
  refine ⟨by rw [spelled_append, ← h.text], fun front name value back => ?_⟩
  rw [hlead]
  constructor
  · rintro ⟨front', rfl, hfound⟩
    obtain ⟨before, hole, after, hholes, hname, hvalue, rfl, hback⟩ := (h.found_iff front' name value back).1 hfound
    exact ⟨before, hole, after, hholes, hname, hvalue, (spelled_append lead first before).symm, hback⟩
  · rintro ⟨before, hole, after, hholes, hname, hvalue, rfl, hback⟩
    exact ⟨spelled first before, spelled_append lead first before,
      (h.found_iff _ name value back).2 ⟨before, hole, after, hholes, hname, hvalue, rfl, hback⟩⟩

section
variable {word : List Char} (hword : IsName word) (hbreaks : Breaks rest)
include hword hbreaks

/-- A name that has a value is a hole. -/
theorem Segments.hole (h : Segments bag rest first holes) {v : Value}
    (hv : bag.get? (.ofList (':' :: word)) = some v) (marks : List String) :
    Segments bag (':' :: word ++ rest) [] (⟨word, v, marks, first⟩ :: holes) := by
  refine ⟨by rw [spelled_cons, ← h.text, List.nil_append], fun front name value back => ?_⟩
  unfold Found
  rw [hword.stands_iff hbreaks]
  constructor
  · rintro ⟨⟨rfl, rfl, rfl⟩ | ⟨front', rfl, hrest, hstands⟩, hvalue⟩
    · rw [hv] at hvalue
      exact ⟨[], _, holes, rfl, rfl, Option.some.inj hvalue, rfl, h.text⟩
    · obtain ⟨before, hole, after, rfl, hname, hval, rfl, hback⟩ :=
        (h.found_iff front' name value back).1 ⟨⟨hrest, hstands⟩, hvalue⟩
      exact ⟨_ :: before, hole, after, rfl, hname, hval, by rw [spelled_cons, List.nil_append], hback⟩
  · rintro ⟨before, hole, after, hholes, rfl, rfl, rfl, rfl⟩
    cases before with
    | nil =>
      obtain ⟨rfl, rfl⟩ := List.cons.inj hholes
      exact ⟨.inl ⟨rfl, rfl, h.text.symm⟩, hv⟩
    | cons hole' before =>
      obtain ⟨rfl, rfl⟩ := List.cons.inj hholes
      obtain ⟨⟨hrest, hstands⟩, hvalue⟩ :=
        (h.found_iff (spelled first before) hole.name hole.value _).2 ⟨before, hole, after, rfl, rfl, rfl, rfl, rfl⟩
      exact ⟨.inr ⟨_, spelled_cons [] _ before, hrest, hstands⟩, hvalue⟩

end

/-! ## Binding -/

end

end Listing.Bound

namespace Listing

open Listing.Bound

/-- Of three colons in a row the first two are a pair and the last begins a name. A name in quotes, one with the
second colon of a pair, and one that goes on behind a name in the bag are left. -/
example :
    Platform.postgres.bind ":::a, ::a, ':a', :ab, :b, :c"
        ⟨[(":a", .int 1), (":b", .list [.int 2, .int 3]), (":c", .list [])]⟩ =
      ⟨"::$1, ::a, ':a', :ab, $2, $3, NULL", [.int 1, .int 2, .int 3]⟩ := rfl

end Listing
