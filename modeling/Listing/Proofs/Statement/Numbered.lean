import Mathlib.Data.List.Forall2
import Listing.Proofs.Statement.Decoded
import Listing.Proofs.Statement.Filled
/-!
# Placeholders numbered anew

What is left of a statement when its texts are written in. The statement is read in parts: characters, texts in
quotes, and placeholders (`exists_read`). A part is copied, gives way to the literal of its value, or gets the next
number, and its value the next place (`Renumbers`). So the placeholders that are left are numbered from one, and the
values that are left are theirs (`Bound.inlineTexts_numbered`). Binding numbers placeholders in the same way, so a
bound statement without texts stays as it is (`inlineTexts_bind`).
-/
namespace Listing

open Sql (startsWith)

namespace Inlined

/-! ## Statements in parts -/

/-- A part of a statement. -/
inductive Part where
  | char (c : Char)
  /-- A text with its quotes; at the end of a statement they may be open. -/
  | quoted (cs : List Char)
  | slot (digits : List Char)
  /-- A text that was written in. -/
  | literal (s : String)
deriving DecidableEq, Repr

namespace Part

/-- The part as it stands in a statement. -/
def text : Part → List Char
  | char c => [c]
  | quoted cs => cs
  | slot digits => '$' :: digits
  | literal s => Literal.write s.toList

/-- The digits of a placeholder. -/
def digits? : Part → Option (List Char)
  | slot digits => some digits
  | char _ | quoted _ | literal _ => none

/-- The position that a placeholder names. -/
def position? (p : Part) : Option Nat := p.digits?.map Text.digitsToNat

/-- The value of a placeholder; positions are counted from one. -/
def value? (params : List Value) (p : Part) : Option Value := p.position?.bind fun n => params[n - 1]?

def isLiteral : Part → Bool
  | literal _ => true
  | char _ | quoted _ | slot _ => false

/-- Whether the part is read as it is meant in front of a text. -/
inductive Stands : Part → List Char → Prop
  | char {c : Char} {rest : List Char} (hquote : isQuote c = false)
      (hslot : c = '$' → startsWith Char.isDigit rest = false) : Stands (.char c) rest
  | closed {q : Char} {body rest : List Char} (hquote : isQuote q = true) (hbody : q ∉ body) :
      Stands (.quoted (q :: body ++ [q])) rest
  | opened {q : Char} {body : List Char} (hquote : isQuote q = true) (hbody : q ∉ body) :
      Stands (.quoted (q :: body)) []
  | slot {digits rest : List Char} (hne : digits ≠ []) (hdigits : ∀ d ∈ digits, d.isDigit = true)
      (hrest : startsWith Char.isDigit rest = false) : Stands (.slot digits) rest
  | literal {s : String} {rest : List Char} : Stands (.literal s) rest

end Part

/-- The statement that parts make. -/
def textOf (ps : List Part) : List Char := ps.flatMap Part.text

@[simp] theorem textOf_nil : textOf [] = [] := rfl

@[simp] theorem textOf_cons (p : Part) (ps : List Part) : textOf (p :: ps) = p.text ++ textOf ps := rfl

/-- Each part is read as it is meant in front of the others. -/
def Read : List Part → Prop
  | [] => True
  | p :: ps => p.Stands (textOf ps) ∧ Read ps

theorem read_chars {cs : List Char} (h : cs.all (fun c => !isQuote c && c != '$') = true) {ps : List Part} (hps : Read ps) :
    Read (cs.map .char ++ ps) := by
  induction cs with
  | nil => exact hps
  | cons c cs ih =>
    rw [List.all_cons, Bool.and_eq_true, Bool.and_eq_true, Bool.not_eq_true', bne_iff_ne] at h
    exact ⟨.char h.1.1 fun hc => absurd hc h.1.2, ih h.2⟩

/-- A literal begins with its quote or with `E`. -/
theorem exists_write (cs : List Char) : ∃ c rest, Literal.write cs = c :: rest ∧ c.isDigit = false := by
  by_cases h : '\\' ∈ cs.flatMap Literal.escape
  · exact ⟨'E', _, if_pos h, rfl⟩
  · exact ⟨'\x27', _, if_neg h, rfl⟩

theorem Part.Stands.text_ne_nil {p : Part} {rest : List Char} (h : p.Stands rest) : p.text ≠ [] := by
  cases h with
  | @literal s =>
    obtain ⟨c, cs, hwrite, -⟩ := exists_write s.toList
    simp [Part.text, hwrite]
  | char | closed | opened | slot => simp [Part.text]

theorem eq_nil_of_textOf {ps : List Part} (h : Read ps) (htext : textOf ps = []) : ps = [] := by
  cases ps with
  | nil => rfl
  | cons p ps =>
    rw [textOf_cons, List.append_eq_nil_iff] at htext
    exact absurd htext.1 h.1.text_ne_nil

/-- Every text begins with a part. -/
theorem exists_part (c : Char) (cs : List Char) :
    ∃ (p : Part) (rest : List Char), p.text ++ rest = c :: cs ∧ p.Stands rest ∧ p.isLiteral = false := by
  by_cases hquote : isQuote c = true
  · by_cases hclosed : c ∈ cs
    · obtain ⟨body, rest, rfl, hbody⟩ := List.eq_append_cons_of_mem hclosed
      exact ⟨.quoted (c :: body ++ [c]), rest, by simp [Part.text], .closed hquote hbody, rfl⟩
    · exact ⟨.quoted (c :: cs), [], by simp [Part.text], .opened hquote hclosed, rfl⟩
  rw [Bool.not_eq_true] at hquote
  by_cases hslot : c = '$' ∧ startsWith Char.isDigit cs = true
  · obtain ⟨rfl, hdigit⟩ := hslot
    have hsplit : '$' :: cs.takeWhile Char.isDigit ++ cs.dropWhile Char.isDigit = '$' :: cs := by
      rw [List.cons_append, List.takeWhile_append_dropWhile]
    exact ⟨.slot (cs.takeWhile Char.isDigit), _, hsplit, .slot (Sql.takeWhile_ne_nil hdigit)
      (List.all_eq_true.mp List.all_takeWhile) (Sql.startsWith_dropWhile cs), rfl⟩
  · exact ⟨.char c, cs, rfl, .char hquote fun hc => by simpa [hc] using hslot, rfl⟩

/-- Every statement can be read in parts. -/
theorem exists_read (cs : List Char) : ∃ ps, Read ps ∧ (∀ p ∈ ps, p.isLiteral = false) ∧ textOf ps = cs := by
  induction hlength : cs.length using Nat.strong_induction_on generalizing cs with
  | h n ih =>
    cases cs with
    | nil => exact ⟨[], trivial, by simp, rfl⟩
    | cons c cs =>
      obtain ⟨p, rest, htext, hstands, hliteral⟩ := exists_part c cs
      have hshorter : rest.length < n := by
        have hpos := List.length_pos_of_ne_nil hstands.text_ne_nil
        rw [← hlength, ← htext, List.length_append]
        omega
      obtain ⟨ps, hread, hnone, rfl⟩ := ih rest.length hshorter rest rfl
      refine ⟨p :: ps, ⟨hstands, hread⟩, ?_, htext⟩
      simpa [hliteral] using hnone

/-! ## Copied parts -/

section
variable {params : List Value}

theorem pieces_opened {q : Char} {body : List Char} (h : q ∉ body) : pieces (.quoted q) body = body.map .char := by
  induction body with
  | nil => rfl
  | cons c body ih =>
    rw [List.mem_cons, not_or] at h
    rw [pieces_cons, step, if_neg (Ne.symm h.1), ih h.2]
    rfl

theorem pieces_quote {q : Char} (h : isQuote q = true) (cs : List Char) :
    pieces .plain (q :: cs) = .char q :: pieces (.quoted q) cs := by
  have hslot : q ≠ '$' := by
    rintro rfl
    cases h
  simp [pieces, step, enter, hslot, h]

/-- A part that is no placeholder is copied. -/
theorem fill_part {p : Part} {rest : List Char} (h : p.Stands rest) (hslot : p.digits? = none)
    (hliteral : p.isLiteral = false) (before : Nat) :
    fill params before (pieces .plain (p.text ++ rest)) =
      (p.text ++ (fill params before (pieces .plain rest)).1, (fill params before (pieces .plain rest)).2) := by
  cases h with
  | char hquote hslot => exact fill_char before hquote hslot
  | @closed q body rest hquote hbody =>
    have hpieces : pieces .plain (q :: body ++ [q] ++ rest) = (q :: body ++ [q]).map .char ++ pieces .plain rest := by
      rw [List.append_assoc, List.cons_append, pieces_quote hquote, List.singleton_append, pieces_quoted hbody]
      rfl
    rw [Part.text, hpieces, fill_chars]
  | @opened q body hquote hbody =>
    have hpieces : pieces .plain (q :: body) = (q :: body).map .char ++ [] := by
      rw [pieces_quote hquote, pieces_opened hbody, List.append_nil]
      rfl
    rw [List.append_nil, Part.text, hpieces, fill_chars]
    rfl
  | slot => cases hslot
  | literal => cases hliteral

/-! ## What parts become -/

variable (params) in
/-- What parts behind `before` values become, and which of their values are left. -/
inductive Renumbers : Nat → List Part → List Part → List Value → Prop
  | nil {before : Nat} : Renumbers before [] [] []
  | kept {before : Nat} {p : Part} {ps ps' : List Part} {values : List Value} (hp : p.digits? = none)
      (h : Renumbers before ps ps' values) : Renumbers before (p :: ps) (p :: ps') values
  | text {before : Nat} {digits : List Char} {s : String} {ps ps' : List Part} {values : List Value}
      (hvalue : (Part.slot digits).value? params = some (.str s)) (h : Renumbers before ps ps' values) :
      Renumbers before (.slot digits :: ps) (.literal s :: ps') values
  | slot {before : Nat} {digits : List Char} {v : Value} {ps ps' : List Part} {values : List Value}
      (hvalue : (Part.slot digits).value? params = some v) (hv : v.isText = false)
      (h : Renumbers (before + 1) ps ps' values) :
      Renumbers before (.slot digits :: ps) (.slot (toString (before + 1)).toList :: ps') (v :: values)

/-- Every placeholder names one of so many values. -/
def InRange (count : Nat) (ps : List Part) : Prop := ∀ p ∈ ps, ∀ n ∈ p.position?, 1 ≤ n ∧ n ≤ count

instance (count : Nat) (ps : List Part) : Decidable (InRange count ps) :=
  inferInstanceAs (Decidable (∀ p ∈ ps, ∀ n ∈ p.position?, 1 ≤ n ∧ n ≤ count))

theorem exists_value? {digits : List Char} (h : 1 ≤ Text.digitsToNat digits ∧ Text.digitsToNat digits ≤ params.length) :
    ∃ v, (Part.slot digits).value? params = some v ∧ valueAt? params digits = some v := by
  obtain ⟨hpos, hle⟩ := h
  have hlt : Text.digitsToNat digits - 1 < params.length := by omega
  have hvalue := List.getElem?_eq_getElem hlt
  exact ⟨_, hvalue, (valueAt?_eq (Nat.sub_add_cancel hpos).symm).trans hvalue⟩

/-- Where every placeholder names a value, the pass over the statement renumbers its parts. -/
theorem exists_renumbers {ps : List Part} (hread : Read ps) (hliteral : ∀ p ∈ ps, p.isLiteral = false)
    (hrange : InRange params.length ps) (before : Nat) :
    ∃ ps', textOf ps' = (fill params before (pieces .plain (textOf ps))).1 ∧
      Renumbers params before ps ps' (fill params before (pieces .plain (textOf ps))).2 := by
  induction ps generalizing before with
  | nil => exact ⟨[], rfl, .nil⟩
  | cons p ps ih =>
    obtain ⟨hstands, hread⟩ := hread
    have hnext := ih hread (fun q hq => hliteral q (List.mem_cons_of_mem p hq))
      fun q hq => hrange q (List.mem_cons_of_mem p hq)
    rw [textOf_cons]
    cases hp : p.digits? with
    | none =>
      obtain ⟨ps', htext, h⟩ := hnext before
      rw [fill_part hstands hp (hliteral p List.mem_cons_self)]
      exact ⟨p :: ps', by rw [textOf_cons, htext], .kept hp h⟩
    | some digits =>
      obtain rfl : p = .slot digits := by
        cases p with
        | slot => exact congrArg Part.slot (Option.some.inj hp)
        | char | quoted | literal => cases hp
      obtain ⟨v, hvalue, hat⟩ := exists_value? (hrange _ List.mem_cons_self _ rfl)
      cases hstands with
      | slot _ hdigits hrest =>
        rw [Part.text, pieces_slot hdigits hrest]
        cases htext : v.isText with
        | true =>
          obtain ⟨s, rfl⟩ := exists_str htext
          obtain ⟨ps', htext, h⟩ := hnext before
          rw [fill_str hat]
          exact ⟨.literal s :: ps', by rw [textOf_cons, htext, Part.text], .text hvalue h⟩
        | false =>
          obtain ⟨ps', htext', h⟩ := hnext (before + 1)
          rw [fill_other hat htext]
          exact ⟨_ :: ps', by rw [textOf_cons, htext', Part.text], .slot hvalue htext h⟩

variable {before : Nat} {ps ps' : List Part} {values : List Value}

theorem isDigit_toString {n : Nat} : ∀ d ∈ (toString n).toList, d.isDigit = true := by
  intro d hd
  rw [toList_toString] at hd
  exact Nat.isDigit_of_mem_toDigits (by decide) (by decide) hd

/-- Where no digit stood no digit stands. -/
theorem Renumbers.startsWith (h : Renumbers params before ps ps' values) (hread : Read ps)
    (hdigit : startsWith Char.isDigit (textOf ps) = false) : startsWith Char.isDigit (textOf ps') = false := by
  cases h with
  | nil => rfl
  | @kept _ p _ _ _ hp h =>
    rw [textOf_cons] at hdigit ⊢
    cases htext : p.text with
    | nil => exact absurd htext hread.1.text_ne_nil
    | cons c cs =>
      rw [htext] at hdigit
      exact hdigit
  | @text _ _ s =>
    obtain ⟨c, cs, hwrite, hc⟩ := exists_write s.toList
    rw [textOf_cons, Part.text, hwrite]
    exact hc
  | slot => rfl

/-- What parts that are read as they are meant become is read as it is meant. -/
theorem Renumbers.read (h : Renumbers params before ps ps' values) (hread : Read ps) : Read ps' := by
  induction h with
  | nil => trivial
  | @kept before p ps ps' values hp h ih =>
    obtain ⟨hstands, hread⟩ := hread
    refine ⟨?_, ih hread⟩
    generalize hrest : textOf ps = rest at hstands
    cases hstands with
    | char hquote hslot => exact .char hquote fun hc => h.startsWith hread (hrest ▸ hslot hc)
    | closed hquote hbody => exact .closed hquote hbody
    | opened hquote hbody =>
      -- open quotes hold all the rest, so no part follows
      obtain rfl := eq_nil_of_textOf hread hrest
      cases h
      exact .opened hquote hbody
    | slot => cases hp
    | literal => exact .literal
  | text _ _ ih => exact ⟨.literal, ih hread.2⟩
  | slot _ _ h ih =>
    obtain ⟨hstands, hread⟩ := hread
    refine ⟨?_, ih hread⟩
    cases hstands with
    | slot _ _ hrest => exact .slot (by simp) isDigit_toString (h.startsWith hread hrest)

/-- What a part becomes: a placeholder of a text the literal of that text, any other placeholder one of the same
value, and everything else itself. -/
inductive Becomes (params values : List Value) : Part → Part → Prop
  | kept {p : Part} (hp : p.digits? = none) : Becomes params values p p
  | text {p : Part} {s : String} (hvalue : p.value? params = some (.str s)) : Becomes params values p (.literal s)
  | slot {p p' : Part} {v : Value} (hvalue : p.value? params = some v) (hv : v.isText = false)
      (hvalue' : p'.value? values = some v) : Becomes params values p p'

theorem value?_toString (values : List Value) (n : Nat) :
    (Part.slot (toString (n + 1)).toList).value? values = values[n]? := by
  have hposition : Text.digitsToNat (toString (n + 1)).toList = n + 1 := by
    rw [toList_toString]
    exact Nat.ofDigitChars_ten_toDigits
  show values[Text.digitsToNat (toString (n + 1)).toList - 1]? = values[n]?
  rw [hposition, Nat.add_sub_cancel]

theorem Renumbers.becomes (h : Renumbers params before ps ps' values) (front : List Value)
    (hfront : front.length = before) : List.Forall₂ (Becomes params (front ++ values)) ps ps' := by
  induction h generalizing front with
  | nil => exact .nil
  | kept hp _ ih => exact .cons (.kept hp) (ih front hfront)
  | text hvalue _ ih => exact .cons (.text hvalue) (ih front hfront)
  | @slot before digits v ps ps' values hvalue hv _ ih =>
    subst hfront
    have hnext := ih (front ++ [v]) (by simp)
    rw [List.append_assoc, List.singleton_append] at hnext
    refine .cons (.slot hvalue hv ?_) hnext
    rw [value?_toString, List.getElem?_append_right (Nat.le_refl _), Nat.sub_self]
    rfl

/-- The placeholders that are left are numbered one after the other. -/
theorem Renumbers.digits (h : Renumbers params before ps ps' values) :
    ps'.filterMap Part.digits? = (List.range' (before + 1) values.length).map fun n => (toString n).toList := by
  induction h with
  | nil => rfl
  | kept hp _ ih => rw [List.filterMap_cons_none hp, ih]
  | text _ _ ih => rw [List.filterMap_cons_none rfl, ih]
  | @slot before _ _ _ _ _ _ _ _ ih =>
    have hdigits : (Part.slot (toString (before + 1)).toList).digits? = some (toString (before + 1)).toList := rfl
    rw [List.filterMap_cons_some hdigits, ih, List.length_cons, List.range'_succ, List.map_cons]

/-- The values that are left are those of the placeholders that stand for no text. -/
theorem Renumbers.values_eq (h : Renumbers params before ps ps' values) :
    values = (ps.filterMap (Part.value? params)).filter (!·.isText) := by
  induction h with
  | nil => rfl
  | kept hp _ ih =>
    rw [List.filterMap_cons_none (by simp [Part.value?, Part.position?, hp])]
    exact ih
  | text hvalue _ ih =>
    rw [List.filterMap_cons_some hvalue]
    exact ih
  | slot hvalue hv _ ih =>
    rw [List.filterMap_cons_some hvalue, List.filter_cons_of_pos (by simp [hv]), ← ih]

end

/-! ## Bound statements -/

section
variable {params : List Value} {before : Nat}

theorem toList_placeholder (position : Nat) :
    (Platform.postgres.placeholder position).toList = '$' :: (toString position).toList :=
  String.toList_append

theorem fill_placeholder {v : Value} (hvalue : params[before]? = some v) (hv : v.isText = false) {rest : List Char}
    (hrest : startsWith Char.isDigit rest = false) :
    fill params before (pieces .plain ((Platform.postgres.placeholder (before + 1)).toList ++ rest)) =
      ((Platform.postgres.placeholder (before + 1)).toList ++ (fill params (before + 1) (pieces .plain rest)).1,
        v :: (fill params (before + 1) (pieces .plain rest)).2) := by
  rw [toList_placeholder, pieces_slot isDigit_toString hrest, fill_other ((valueAt?_toString params before).trans hvalue) hv]

/-- Placeholders begin with `$`, and what stands for none of them is a word. -/
theorem startsWith_placeholders (before count : Nat) (rest : List Char) :
    startsWith Char.isDigit ((Bound.placeholders .postgres before count).toList ++ rest) = false := by
  match count with
  | 0 =>
    rw [Bound.placeholders_zero]
    rfl
  | 1 =>
    rw [Bound.placeholders_one, toList_placeholder]
    rfl
  | count + 2 =>
    rw [Bound.placeholders_succ, String.append_assoc, String.toList_append, toList_placeholder]
    rfl

/-- The placeholders of values that are no texts are numbered as they were. -/
theorem fill_placeholders (front : List Value) {values back : List Value} (hparams : params = front ++ values ++ back)
    (hvalues : ∀ v ∈ values, v.isText = false) {rest : List Char} (hrest : startsWith Char.isDigit rest = false) :
    fill params front.length
        (pieces .plain ((Bound.placeholders .postgres front.length values.length).toList ++ rest)) =
      ((Bound.placeholders .postgres front.length values.length).toList ++
          (fill params (front.length + values.length) (pieces .plain rest)).1,
        values ++ (fill params (front.length + values.length) (pieces .plain rest)).2) := by
  induction values generalizing front with
  | nil =>
    rw [List.length_nil, Bound.placeholders_zero]
    exact fill_plain front.length (by simp [isQuote]) rfl hrest
  | cons v values ih =>
    have hvalue : params[front.length]? = some v := by simp [hparams]
    have hv := hvalues v List.mem_cons_self
    cases values with
    | nil =>
      rw [List.length_singleton, Bound.placeholders_one, fill_placeholder hvalue hv hrest]
      rfl
    | cons w values =>
      have hnext := ih (front ++ [v]) (by simp [hparams]) fun u hu => hvalues u (List.mem_cons_of_mem v hu)
      have hlength : front.length + 1 + (values.length + 1) = front.length + (values.length + 1 + 1) := by omega
      have hcomma : ∀ more, startsWith Char.isDigit (", ".toList ++ more) = false := fun _ => rfl
      rw [List.length_append, List.length_singleton, List.length_cons, hlength] at hnext
      rw [List.length_cons, List.length_cons, Bound.placeholders_succ, String.toList_append, String.toList_append,
        List.append_assoc, List.append_assoc, fill_placeholder hvalue hv (hcomma _),
        fill_plain (front.length + 1) (by simp [isQuote]) rfl (startsWith_placeholders ..), hnext]
      simp only [List.append_assoc, List.cons_append]

end

/-! ## Filling what was filled -/

section
variable (bag : Bag)

/-- The text of some pieces, read on from a mode, is filled as it was if none of their values is a text. -/
def Settled (mode : Mode) (ps : List Bound.Piece) : Prop :=
  ∀ front : List Value, (∀ v ∈ (Bound.fill .postgres bag front.length ps).2, v.isText = false) →
    fill (front ++ (Bound.fill .postgres bag front.length ps).2) front.length
      (pieces mode (Bound.fill .postgres bag front.length ps).1) = Bound.fill .postgres bag front.length ps

/-- The text of some pieces begins with no digit, so a placeholder can stand in front of it. -/
def Ends (ps : List Bound.Piece) : Prop :=
  ∀ before, startsWith Char.isDigit (Bound.fill .postgres bag before ps).1 = false

variable {bag} {ps : List Bound.Piece}

theorem settled_char {mode mode' : Mode} {c : Char} (hc : ∀ cs, pieces mode (c :: cs) = .char c :: pieces mode' cs)
    (h : Settled bag mode' ps) : Settled bag mode (.char c :: ps) := by
  intro front hvalues
  rw [Bound.fill_char] at hvalues ⊢
  rw [hc, fill, h front hvalues]

theorem hasSlot_of_notMem {cs : List Char} (h : '$' ∉ cs) : Sql.hasSlot cs = false := by
  induction cs with
  | nil => rfl
  | cons c cs ih =>
    rw [List.mem_cons, not_or] at h
    rw [Sql.hasSlot, beq_eq_false_iff_ne.2 (Ne.symm h.1), ih h.2]
    rfl

theorem settled_name {name : List Char} (hslot : '$' ∉ name) (hquote : ∀ c ∈ name, isQuote c = false)
    (hends : Ends bag ps) (h : Settled bag .plain ps) : Settled bag .plain (.name name :: ps) := by
  intro front hvalues
  cases hv : bag.get? (.ofList name) with
  | none =>
    rw [Bound.fill, hv] at hvalues ⊢
    rw [fill_plain _ hquote (hasSlot_of_notMem hslot) (hends _), h front hvalues]
  | some v =>
    rw [Bound.fill_name _ _ hv] at hvalues ⊢
    have hfirst : ∀ u ∈ Bound.slots v, u.isText = false := fun u hu => hvalues u (List.mem_append_left _ hu)
    have hnext := h (front ++ Bound.slots v)
    rw [List.length_append, List.append_assoc] at hnext
    rw [fill_placeholders front (List.append_assoc ..).symm hfirst (hends _),
      hnext fun u hu => hvalues u (List.mem_append_right _ hu)]

theorem isQuote_of_isNameChar {c : Char} (h : Bound.isNameChar c = true) : isQuote c = false := by
  refine isQuote_of_isWordChar ?_
  rw [Bound.isNameChar] at h
  simp only [Sql.isWordChar, Sql.isWordStart, h, Bool.true_or]

theorem ends_leave (read : List Char) : Ends bag (Bound.leave read :: ps) := by
  intro before
  unfold Bound.leave
  split
  · rfl
  · rw [Bound.fill]
    split
    · rfl
    · exact startsWith_placeholders ..

theorem ends_named (read cs : List Char) : Ends bag (Bound.pieces (.named read) cs) := by
  induction cs generalizing read with
  | nil => exact ends_leave read
  | cons c cs ih =>
    rw [Bound.pieces, Bound.step]
    split
    · exact ih (c :: read)
    · split
      · exact fun _ => rfl
      · exact ends_leave read

theorem ends_of_breaks {cs : List Char} (h : Bound.Breaks cs) : Ends bag (Bound.pieces .plain cs) := by
  cases cs with
  | nil => exact fun _ => rfl
  | cons c cs =>
    have hname : Bound.isNameChar c = false := h c rfl
    have hc : c.isDigit = false := by
      simp only [Bound.isNameChar, Char.isAlphanum, Bool.or_eq_false_iff] at hname
      exact hname.1.2
    rw [Bound.pieces, Bound.step, Bound.enter]
    split
    · exact ends_named [] cs
    · split <;> exact fun _ => hc

theorem settled_leave {read : List Char} (hread : ∀ c ∈ read, Bound.isNameChar c = true) (hends : Ends bag ps)
    (h : Settled bag .plain ps) : Settled bag .plain (Bound.leave read :: ps) := by
  unfold Bound.leave
  split
  · exact settled_char (pieces_plain (by decide) rfl) h
  · refine settled_name ?_ ?_ hends h
    · intro hmem
      have hread := hread '$' (by simpa using hmem)
      cases hread
    · intro c hc
      rcases List.mem_cons.1 hc with rfl | hc
      · rfl
      · exact isQuote_of_isNameChar (hread c (List.mem_reverse.1 hc))

/-- Wherever the scanner of names is, the scanner of placeholders follows: they take the same quotes. -/
theorem settled_pieces {cs : List Char} (hslot : '$' ∉ cs) (hbacktick : '\x60' ∉ cs) :
    Settled bag .plain (Bound.pieces .plain cs) ∧
    (∀ q, Settled bag (.quoted q) (Bound.pieces (.quoted q) cs)) ∧
    ∀ read, (∀ c ∈ read, Bound.isNameChar c = true) → Settled bag .plain (Bound.pieces (.named read) cs) := by
  have hnil : ∀ mode : Mode, pieces mode [] = [] → Settled bag mode [] := by
    intro mode hmode front _
    simp [Bound.fill, hmode, fill]
  induction cs with
  | nil => exact ⟨hnil _ rfl, fun q => hnil _ rfl, fun read hread => settled_leave hread (fun _ => rfl) (hnil _ rfl)⟩
  | cons c cs ih =>
    rw [List.mem_cons, not_or] at hslot hbacktick
    obtain ⟨hplain, hquoted, hnamed⟩ := ih hslot.2 hbacktick.2
    have hfirst : Settled bag .plain (Bound.pieces .plain (c :: cs)) := by
      rw [Bound.pieces, Bound.step, Bound.enter]
      split
      · exact hnamed [] (by simp)
      · have hquote : Bound.isQuote c = isQuote c := by
          simp [Bound.isQuote, isQuote, Ne.symm hbacktick.1]
        rw [hquote]
        split
        · next hc => exact settled_char (pieces_quote hc) (hquoted c)
        · next hc => exact settled_char (pieces_plain (Ne.symm hslot.1) (by simpa using hc)) hplain
    refine ⟨hfirst, fun q => ?_, fun read hread => ?_⟩
    · rw [Bound.pieces, Bound.step]
      refine settled_char (fun cs => by rw [pieces_cons, step]; rfl) ?_
      split
      · exact hplain
      · exact hquoted q
    · rw [Bound.pieces, Bound.step]
      split
      · next hc => exact hnamed (c :: read) (by simpa [hc] using hread)
      · next hc =>
        split
        · exact settled_char (pieces_plain (by decide) rfl) (settled_char (pieces_plain (by decide) rfl) hplain)
        · exact settled_leave hread (ends_of_breaks (Bound.breaks_cons (by simpa using hc) cs)) hfirst

end

end Inlined

open Inlined

/-- A bound statement without texts among its values stays as it is. -/
theorem Platform.inlineTexts_bind {sql : String} {bag : Bag} (hslot : '$' ∉ sql.toList) (hbacktick : '\x60' ∉ sql.toList)
    (hvalues : ∀ v ∈ (postgres.bind sql bag).params, v.isText = false) :
    (postgres.bind sql bag).inlineTexts = postgres.bind sql bag := by
  have hsettled := (settled_pieces hslot hbacktick).1 [] hvalues
  rw [List.nil_append, List.length_nil] at hsettled
  simp only [Bound.inlineTexts, bind, String.toList_ofList, hsettled]

/-- A statement's parts and its values with the texts written in. -/
structure Inlined.WrittenIn (params values : List Value) (ps ps' : List Part) : Prop where
  becomes : List.Forall₂ (Becomes params values) ps ps'
  /-- The placeholders that are left are numbered one after the other. -/
  numbered : ps'.filterMap Part.digits? = (List.range' 1 values.length).map fun n => (toString n).toList
  /-- The values that are left are those of the placeholders that stand for no text. -/
  values_eq : values = (ps.filterMap (Part.value? params)).filter (!·.isText)

/-- Writing the texts into a statement keeps what is bound. The statement can be read in parts; however it is read,
if its placeholders name values, the parts of the outcome are these parts with the texts written in, each read as
it is meant. A statement that binding made keeps its text and its values if none of them is a text. -/
theorem Bound.inlineTexts_numbered (b : Bound) :
    (∃ ps, Read ps ∧ (∀ p ∈ ps, p.isLiteral = false) ∧ textOf ps = b.sql.toList) ∧
    (∀ ps, Read ps → (∀ p ∈ ps, p.isLiteral = false) → textOf ps = b.sql.toList → InRange b.params.length ps →
      ∃ ps', Read ps' ∧ textOf ps' = b.inlineTexts.sql.toList ∧
        WrittenIn b.params b.inlineTexts.params ps ps') ∧
    ∀ sql bag, b = Platform.postgres.bind sql bag → '$' ∉ sql.toList → '\x60' ∉ sql.toList →
      (∀ v ∈ b.params, v.isText = false) → b.inlineTexts = b := by
  refine ⟨exists_read _, ?_, ?_⟩
  · intro ps hread hliteral htext hrange
    obtain ⟨ps', htext', h⟩ := exists_renumbers hread hliteral hrange 0
    rw [htext] at htext' h
    refine ⟨ps', h.read hread, ?_, h.becomes [] rfl, h.digits, h.values_eq⟩
    rw [htext', inlineTexts, String.toList_ofList]
  · rintro sql bag rfl hslot hbacktick hvalues
    exact Platform.inlineTexts_bind hslot hbacktick hvalues

/-- Fairs in a town; one placeholder is used twice, one never, one not in order, and one is quoted. -/
def fairs : Bound where
  sql := "SELECT \x27$9\x27 FROM fair WHERE size > $3 AND town = $1 AND year IN ($4, $3)"
  params := [.str "L\x27Aquila", .bool true, .int 2, .int 1990]

/-- How that statement is read. -/
def fairParts : List Part :=
  "SELECT ".toList.map .char ++ .quoted "\x27$9\x27".toList :: (" FROM fair WHERE size > ".toList.map .char ++
    .slot ['3'] :: (" AND town = ".toList.map .char ++ .slot ['1'] :: (" AND year IN (".toList.map .char ++
      .slot ['4'] :: (", ".toList.map .char ++ [.slot ['3'], .char ')']))))

/-- The town is written in, and the other placeholders are numbered anew. -/
theorem Bound.inlineTexts_numbered_fairs :
    Read fairParts ∧ InRange 4 fairParts ∧
    (∃ ps', Read ps' ∧ textOf ps' = fairs.inlineTexts.sql.toList ∧
      WrittenIn fairs.params fairs.inlineTexts.params fairParts ps') ∧
    fairs.inlineTexts.sql =
      "SELECT \x27$9\x27 FROM fair WHERE size > $1 AND town = E\x27L\\\x27Aquila\x27 AND year IN ($2, $3)" ∧
    (Platform.postgres.bind "SELECT :size::int" ⟨[(":size", .int 2)]⟩).inlineTexts = ⟨"SELECT $1::int", [.int 2]⟩ := by
  have hquoted : ∀ rest, (Part.quoted "\x27$9\x27".toList).Stands rest := fun _ =>
    @Part.Stands.closed '\x27' "$9".toList _ rfl (by decide)
  have hslot : ∀ {d : Char} {rest : List Char}, d.isDigit = true → startsWith Char.isDigit rest = false →
      (Part.slot [d]).Stands rest := fun hd hrest => .slot (by simp) (List.forall_mem_singleton.2 hd) hrest
  have hread : Read fairParts := by
    refine read_chars (by decide) ⟨hquoted _, read_chars (by decide) ⟨hslot rfl rfl, ?_⟩⟩
    refine read_chars (by decide) ⟨hslot rfl rfl, read_chars (by decide) ⟨hslot rfl rfl, ?_⟩⟩
    exact read_chars (by decide) ⟨hslot rfl rfl, .char rfl (by decide), trivial⟩
  have hrange : InRange 4 fairParts := by decide
  have hbound : Platform.postgres.bind "SELECT :size::int" ⟨[(":size", .int 2)]⟩ = ⟨"SELECT $1::int", [.int 2]⟩ :=
    rfl
  obtain ⟨-, hparts, -⟩ := inlineTexts_numbered fairs
  obtain ⟨-, -, hkept⟩ := inlineTexts_numbered (Platform.postgres.bind "SELECT :size::int" ⟨[(":size", .int 2)]⟩)
  exact ⟨hread, hrange, hparts fairParts hread (by decide) rfl hrange, by decide +kernel,
    (hkept _ _ rfl (by decide) (by decide) (by rw [hbound]; decide)).trans hbound⟩

end Listing
