import Listing.Statement.Bound
/-!
# Filling a statement's text

What binding does to a text in parts. Filling goes from piece to piece and takes along only how many
values came before (`fill_append`). Text whose quotes are closed and whose colons outside quotes stand in
pairs is copied (`pieces_inert`), and so is an identifier in quotes, whatever it is (`inert_quoteWith`).
A name ends at the first character that no name has (`pieces_name`). Text without colons is copied at the end
of any other (`bind_append`).
-/
namespace Listing.Bound

/-! ## Pieces in a row -/

section
variable (p : Platform) (bag : Bag)

@[simp] theorem fill_nil (before : Nat) : fill p bag before [] = ([], []) := rfl

theorem fill_char (before : Nat) (c : Char) (ps : List Piece) :
    fill p bag before (.char c :: ps) = (c :: (fill p bag before ps).1, (fill p bag before ps).2) := rfl

theorem fill_chars (before : Nat) (cs : List Char) (ps : List Piece) :
    fill p bag before (cs.map .char ++ ps) = (cs ++ (fill p bag before ps).1, (fill p bag before ps).2) := by
  induction cs with
  | nil => rfl
  | cons c cs ih => rw [List.map_cons, List.cons_append, fill_char, ih, List.cons_append]

/-- A name in the bag gives way to the placeholders of its values. -/
theorem fill_name {name : List Char} {v : Value} (h : bag.get? (.ofList name) = some v) (before : Nat)
    (ps : List Piece) :
    fill p bag before (.name name :: ps) =
      ((placeholders p before (slots v).length).toList ++ (fill p bag (before + (slots v).length) ps).1,
        slots v ++ (fill p bag (before + (slots v).length) ps).2) := by
  rw [fill, h]

/-- What stands behind some pieces is filled as if it stood alone, behind as many values. -/
theorem fill_append (before : Nat) (ps qs : List Piece) :
    fill p bag before (ps ++ qs) =
      ((fill p bag before ps).1 ++ (fill p bag (before + (fill p bag before ps).2.length) qs).1,
        (fill p bag before ps).2 ++ (fill p bag (before + (fill p bag before ps).2.length) qs).2) := by
  induction ps generalizing before with
  | nil => simp
  | cons piece ps ih =>
    cases piece with
    | char c => rw [List.cons_append, fill_char, ih, fill_char]; rfl
    | name n =>
      rw [List.cons_append, fill, fill]
      cases bag.get? (.ofList n) with
      | none => simp only [ih, List.append_assoc]
      | some v =>
        have hlength : before + (slots v).length + (fill p bag (before + (slots v).length) ps).2.length =
            before + (slots v ++ (fill p bag (before + (slots v).length) ps).2).length := by
          rw [List.length_append, Nat.add_assoc]
        simp only [ih, hlength, List.append_assoc]

/-! ## Placeholders in a row -/

theorem placeholders_zero (before : Nat) : placeholders p before 0 = "NULL" := rfl

theorem placeholders_one (before : Nat) : placeholders p before 1 = p.placeholder (before + 1) := by
  simp [placeholders]

theorem placeholders_succ (before count : Nat) :
    placeholders p before (count + 2) = p.placeholder (before + 1) ++ ", " ++ placeholders p (before + 1) (count + 1) := by
  have hrange : (List.range (count + 2)).map (fun i => p.placeholder (before + i + 1)) =
      p.placeholder (before + 1) :: (List.range (count + 1)).map (fun i => p.placeholder (before + 1 + i + 1)) := by
    rw [List.range_succ_eq_map, List.map_cons, List.map_map]
    simp [Function.comp_def, Nat.add_assoc, Nat.add_comm 1]
  obtain ⟨next, more, hmore⟩ : ∃ next more,
      (List.range (count + 1)).map (fun i => p.placeholder (before + 1 + i + 1)) = next :: more :=
    List.exists_cons_of_ne_nil (by simp)
  rw [placeholders, if_neg (by omega), hrange, placeholders, if_neg (by omega), hmore, String.intercalate_cons_cons]

end

/-! ## Text that is copied -/

/-- Text whose quotes are closed and whose colons outside quotes stand in pairs. -/
inductive Inert : List Char → Prop
  | nil : Inert []
  | char {c : Char} {cs : List Char} (hcolon : c ≠ ':') (hquote : isQuote c = false) (h : Inert cs) :
      Inert (c :: cs)
  | colons {cs : List Char} (h : Inert cs) : Inert (':' :: ':' :: cs)
  | quoted {q : Char} {body cs : List Char} (hquote : isQuote q = true) (hbody : q ∉ body) (h : Inert cs) :
      Inert (q :: body ++ q :: cs)

/-- A character that begins nothing. -/
def isPlain (c : Char) : Bool := c != ':' && !isQuote c

theorem isPlain_of_isDigit {c : Char} (h : c.isDigit = true) : isPlain c = true := by
  have hcolon : c ≠ ':' := by rintro rfl; exact absurd h (by decide)
  have hapostrophe : c ≠ '\x27' := by rintro rfl; exact absurd h (by decide)
  have hquote : c ≠ '\x22' := by rintro rfl; exact absurd h (by decide)
  have hbacktick : c ≠ '\x60' := by rintro rfl; exact absurd h (by decide)
  simp [isPlain, Bound.isQuote, hcolon, hapostrophe, hquote, hbacktick]

theorem isPlain_toDigits {n : Nat} : ∀ c ∈ Nat.toDigits 10 n, isPlain c = true := fun _ hc =>
  isPlain_of_isDigit (Nat.isDigit_of_mem_toDigits (by decide) (by decide) hc)

theorem isBlank_of_isQuote {c : Char} (h : isQuote c = true) : Text.isBlank c = false := by
  simp only [isQuote, Bool.or_eq_true, beq_iff_eq] at h
  rcases h with (rfl | rfl) | rfl <;> rfl

theorem Inert.plain {cs : List Char} (h : ∀ c ∈ cs, isPlain c = true) : Inert cs := by
  induction cs with
  | nil => exact .nil
  | cons c cs ih =>
    have hc := h c List.mem_cons_self
    simp only [isPlain, Bool.and_eq_true, bne_iff_ne, Bool.not_eq_true'] at hc
    exact .char hc.1 hc.2 (ih fun d hd => h d (List.mem_cons_of_mem c hd))

theorem inert_of_all {s : String} (h : s.toList.all isPlain = true) : Inert s.toList :=
  .plain (List.all_eq_true.mp h)

theorem Inert.append {cs ds : List Char} (hcs : Inert cs) (hds : Inert ds) : Inert (cs ++ ds) := by
  induction hcs with
  | nil => exact hds
  | char hcolon hquote _ ih => exact .char hcolon hquote ih
  | colons _ ih => exact .colons ih
  | @quoted q body cs hquote hbody _ ih =>
    have happend : (q :: body ++ q :: cs) ++ ds = q :: body ++ q :: (cs ++ ds) := by simp
    rw [happend]
    exact .quoted hquote hbody ih

theorem inert_append {s t : String} (hs : Inert s.toList) (ht : Inert t.toList) : Inert (s ++ t).toList := by
  rw [String.toList_append]
  exact hs.append ht

theorem inert_intercalate {separator : String} (hseparator : Inert separator.toList) {texts : List String}
    (h : ∀ s ∈ texts, Inert s.toList) : Inert (String.intercalate separator texts).toList := by
  induction texts with
  | nil => exact .nil
  | cons s texts ih =>
    have hs := h s List.mem_cons_self
    have htexts := ih fun t ht => h t (List.mem_cons_of_mem s ht)
    cases texts with
    | nil => simpa using hs
    | cons t texts =>
      rw [String.intercalate_cons_cons]
      exact inert_append (inert_append hs hseparator) htexts

theorem inert_join {texts : List String} (h : ∀ s ∈ texts, Inert s.toList) : Inert (String.join texts).toList := by
  induction texts with
  | nil => exact .nil
  | cons s texts ih =>
    rw [String.join_cons]
    exact inert_append (h s List.mem_cons_self) (ih fun t ht => h t (List.mem_cons_of_mem s ht))

theorem enter_of_isPlain {c : Char} (h : isPlain c = true) : enter c = (.plain, [.char c]) := by
  simp only [isPlain, Bool.and_eq_true, bne_iff_ne, Bool.not_eq_true'] at h
  simp [enter, h]

theorem pieces_plain_cons {c : Char} (h : isPlain c = true) (rest : List Char) :
    pieces .plain (c :: rest) = .char c :: pieces .plain rest := by
  rw [pieces, step, enter_of_isPlain h]
  rfl

/-- In quotes all is copied up to the next quote character of their kind. -/
theorem pieces_quoted {q : Char} {body : List Char} (h : q ∉ body) (rest : List Char) :
    pieces (.quoted q) (body ++ q :: rest) = (body ++ [q]).map .char ++ pieces .plain rest := by
  induction body with
  | nil => simp [pieces, step]
  | cons c body ih =>
    have hc : c ≠ q := fun e => h (e ▸ List.mem_cons_self)
    have hbody : q ∉ body := fun hq => h (List.mem_cons_of_mem c hq)
    simp only [List.cons_append, pieces, step, if_neg hc, ih hbody]
    rfl

theorem pieces_inert {cs : List Char} (h : Inert cs) (rest : List Char) :
    pieces .plain (cs ++ rest) = cs.map .char ++ pieces .plain rest := by
  induction h with
  | nil => rfl
  | char hcolon hquote _ ih =>
    rw [List.cons_append, pieces_plain_cons (by simp [isPlain, hcolon, hquote]), ih]
    rfl
  | colons _ ih =>
    simp only [List.cons_append, pieces, step, enter, isNameChar]
    simp [ih]
  | @quoted q body cs hquote hbody _ ih =>
    have hcolon : q ≠ ':' := by rintro rfl; cases hquote
    have henter : enter q = (.quoted q, [.char q]) := by simp [enter, hcolon, hquote]
    have hrest : q :: body ++ q :: cs ++ rest = q :: (body ++ q :: (cs ++ rest)) := by simp
    rw [hrest, pieces, step, henter, pieces_quoted hbody, ih]
    simp

/-- Nothing in copied text is a name. -/
theorem not_mem_pieces_of_inert {cs : List Char} (h : Inert cs) (name : List Char) :
    .name name ∉ pieces .plain cs := by
  rw [← List.append_nil cs, pieces_inert h]
  simp [pieces]

/-- An identifier in quotes is copied, since a quote character in it is written twice. -/
theorem inert_quoteWith {q : Char} (hq : isQuote q = true) (cs : List Char) :
    Inert (Platform.quoteWith q cs) := by
  -- what has been read since the last quote character
  have hread : ∀ body, q ∉ body →
      Inert (q :: body ++ cs.flatMap (fun c => if c = q then [q, q] else [c]) ++ [q]) := by
    induction cs with
    | nil =>
      intro body hbody
      simpa using Inert.quoted hq hbody .nil
    | cons c cs ih =>
      intro body hbody
      by_cases hc : c = q
      · have hnext := Inert.quoted hq hbody (ih [] (by simp))
        simpa [hc] using hnext
      · have hnext := ih (body ++ [c]) (by simp [hbody, Ne.symm hc])
        simpa [hc] using hnext
  exact hread [] (by simp)

theorem inert_quote (p : Platform) (identifier : String) : Inert (p.quote identifier).toList := by
  rw [Platform.quote, String.toList_ofList]
  exact inert_quoteWith (by cases p <;> rfl) _

/-! ## Names -/

/-- What can be read behind a colon. -/
def IsName (name : List Char) : Prop := name ≠ [] ∧ ∀ c ∈ name, isNameChar c = true

/-- Text that ends a name in front of it. -/
def Breaks (cs : List Char) : Prop := ∀ c ∈ cs.head?, isNameChar c = false

theorem breaks_nil : Breaks [] := by simp [Breaks]

theorem breaks_cons {c : Char} (h : isNameChar c = false) (cs : List Char) : Breaks (c :: cs) := by
  simpa [Breaks] using h

theorem breaks_of_head? {cs : List Char} {c : Char} (hc : cs.head? = some c) (h : isNameChar c = false) :
    Breaks cs := by
  simpa [Breaks, hc] using h

theorem Breaks.append {cs ds : List Char} (hcs : Breaks cs) (hds : Breaks ds) : Breaks (cs ++ ds) := by
  cases cs with
  | nil => exact hds
  | cons c cs => simpa [Breaks] using hcs

/-- A name is read to its end. -/
theorem pieces_named {name : List Char} (hname : ∀ c ∈ name, isNameChar c = true) (read : List Char)
    {rest : List Char} (hne : read ++ name ≠ []) (hrest : Breaks rest) :
    pieces (.named read) (name ++ rest) = .name (':' :: read.reverse ++ name) :: pieces .plain rest := by
  induction name generalizing read with
  | nil =>
    have hread : read ≠ [] := by simpa using hne
    have hleave : leave read = .name (':' :: read.reverse) := by simp [leave, hread]
    rw [List.nil_append, List.append_nil]
    cases rest with
    | nil => simp [pieces, hleave]
    | cons c rest =>
      have hc : isNameChar c = false := hrest c rfl
      simp [pieces, step, hc, hread, hleave]
  | cons c name ih =>
    have hc : isNameChar c = true := hname c List.mem_cons_self
    have hnext := ih (fun d hd => hname d (List.mem_cons_of_mem c hd)) (c :: read) (by simp)
    simp only [List.cons_append, pieces, step, hc, if_true, List.nil_append]
    rw [hnext]
    simp

theorem pieces_name {name : List Char} (hname : IsName name) {rest : List Char} (hrest : Breaks rest) :
    pieces .plain (':' :: name ++ rest) = .name (':' :: name) :: pieces .plain rest := by
  have hread := pieces_named hname.2 [] (by simpa using hname.1) hrest
  simp only [List.cons_append, pieces, step, enter, if_true, List.nil_append]
  simpa using hread

/-! ## Texts between other texts -/

section
variable (p : Platform) (bag : Bag)

/-- In front of any text that ends a name, a text gives way to another one and to values. What it gives way to
depends only on how many values came before. -/
def Fills (cs : List Char) (text : Nat → List Char) (values : List Value) : Prop :=
  ∀ before rest, Breaks rest → fill p bag before (pieces .plain (cs ++ rest)) =
    (text before ++ (fill p bag (before + values.length) (pieces .plain rest)).1,
      values ++ (fill p bag (before + values.length) (pieces .plain rest)).2)

variable {p bag}

/-- Copied text can stand in front of every text. -/
theorem Fills.inert_append {cs ds : List Char} {text : Nat → List Char} {values : List Value} (hcs : Inert cs)
    (hds : Fills p bag ds text values) : Fills p bag (cs ++ ds) (fun before => cs ++ text before) values := by
  intro before rest hrest
  rw [List.append_assoc, pieces_inert hcs, fill_chars, hds before rest hrest, List.append_assoc]

theorem fills_inert {cs : List Char} (h : Inert cs) : Fills p bag cs (fun _ => cs) [] := by
  intro before rest _
  rw [pieces_inert h, fill_chars]
  rfl

theorem Fills.append {cs ds : List Char} {text text' : Nat → List Char} {values values' : List Value}
    (hcs : Fills p bag cs text values) (hds : Fills p bag ds text' values') (hbreaks : Breaks ds) :
    Fills p bag (cs ++ ds) (fun before => text before ++ text' (before + values.length)) (values ++ values') := by
  intro before rest hrest
  rw [List.append_assoc, hcs before _ (hbreaks.append hrest), hds _ rest hrest, List.length_append, Nat.add_assoc,
    List.append_assoc, List.append_assoc]

theorem fills_name {name : List Char} (hname : IsName name) {v : Value}
    (h : bag.get? (.ofList (':' :: name)) = some v) :
    Fills p bag (':' :: name) (fun before => (placeholders p before (slots v).length).toList) (slots v) := by
  intro before rest hrest
  rw [pieces_name hname hrest, fill_name p bag h]

/-- At the end of a text nothing follows. -/
theorem Fills.fill_eq {cs : List Char} {text : Nat → List Char} {values : List Value} (h : Fills p bag cs text values) :
    fill p bag 0 (pieces .plain cs) = (text 0, values) := by
  have hempty := h 0 [] breaks_nil
  simpa [pieces] using hempty

end

/-! ## The end of a text -/

/-- Text without colons is copied in quotes and outside of them. -/
theorem pieces_of_colon_notMem (mode : Mode) (hmode : ∀ read, mode ≠ .named read) {cs : List Char}
    (h : ':' ∉ cs) : pieces mode cs = cs.map .char := by
  induction cs generalizing mode with
  | nil =>
    cases mode with
    | named read => exact absurd rfl (hmode read)
    | _ => rfl
  | cons c cs ih =>
    have hc : c ≠ ':' := fun e => h (e ▸ List.mem_cons_self)
    have hcs : ':' ∉ cs := fun hcs => h (List.mem_cons_of_mem c hcs)
    cases mode with
    | plain =>
      rw [pieces, step, enter, if_neg hc, List.map_cons]
      split
      · simp only [ih (.quoted c) (by simp) hcs, List.singleton_append]
      · simp only [ih .plain (by simp) hcs, List.singleton_append]
    | quoted q =>
      rw [pieces, step, List.map_cons]
      split
      · simp only [ih .plain (by simp) hcs, List.singleton_append]
      · simp only [ih (.quoted q) (by simp) hcs, List.singleton_append]
    | named read => exact absurd rfl (hmode read)

/-- Text without colons that ends a name is copied at the end, whatever the text in front leaves open. -/
theorem pieces_append (mode : Mode) (cs : List Char) {tail : List Char} (hcolon : ':' ∉ tail)
    (hbreaks : Breaks tail) : pieces mode (cs ++ tail) = pieces mode cs ++ tail.map .char := by
  induction cs generalizing mode with
  | nil =>
    cases mode with
    | plain => exact pieces_of_colon_notMem _ (by simp) hcolon
    | quoted q => exact pieces_of_colon_notMem _ (by simp) hcolon
    | named read =>
      rw [← pieces_of_colon_notMem .plain (by simp) hcolon]
      cases tail with
      | nil => rfl
      | cons c tail =>
        have hname : isNameChar c = false := hbreaks c rfl
        have hc : c ≠ ':' := fun e => hcolon (e ▸ List.mem_cons_self)
        simp [pieces, step, hname, hc]
  | cons c cs ih =>
    have hstep : ∀ rest, pieces mode (c :: rest) = (step mode c).2 ++ pieces (step mode c).1 rest := by
      cases mode <;> exact fun _ => rfl
    rw [List.cons_append, hstep, ih, hstep, List.append_assoc]

end Listing.Bound

namespace Listing

/-- Binding copies text without colons at the end of a statement. -/
theorem Platform.bind_append (p : Platform) (bag : Bag) (sql : String) {tail : String} (hcolon : ':' ∉ tail.toList)
    (hbreaks : Bound.Breaks tail.toList) :
    p.bind (sql ++ tail) bag = ⟨(p.bind sql bag).sql ++ tail, (p.bind sql bag).params⟩ := by
  have htail : ∀ before, Bound.fill p bag before (tail.toList.map .char) = (tail.toList, []) := fun before => by
    simpa using Bound.fill_chars p bag before tail.toList []
  simp only [Platform.bind, String.toList_append, Bound.pieces_append _ _ hcolon hbreaks, Bound.fill_append, htail,
    List.append_nil, String.ofList_append, String.ofList_toList]

/-- Binding copies text in front that has no names, whatever follows. -/
theorem Platform.bind_inert_append (p : Platform) (bag : Bag) {front : String} (hfront : Bound.Inert front.toList)
    (sql : String) : p.bind (front ++ sql) bag = ⟨front ++ (p.bind sql bag).sql, (p.bind sql bag).params⟩ := by
  simp only [Platform.bind, String.toList_append, Bound.pieces_inert hfront, Bound.fill_chars, String.ofList_append,
    String.ofList_toList]

end Listing
