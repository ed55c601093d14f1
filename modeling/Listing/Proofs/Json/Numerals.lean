import Listing.Json.Printer
import Listing.Json.Token
import Mathlib.Data.List.DropRight
import Mathlib.Data.UInt
/-!
# Numbers in a text

A numeral is a number as a text may write it: a sign, digits before and after the point, and an exponent with its sign.
What follows does not change how it is read, as long as the number does not go on there (`Numeral.number?_text`). An
integer is written as a numeral (`Numeral.text_ofInt`) and, if 64 bits hold it, signed or unsigned, read as what it is
(`Numeral.value?_ofInt`). A finite double is written as some numeral (`exists_text_float`); which number that is read as
is another matter, since its digits are scaled with a rounding at every step.
-/
namespace Listing.Json

/-! ## Digits -/

/-- At least one digit and nothing else. -/
def Digits (ds : List Char) : Prop := ds ≠ [] ∧ ∀ d ∈ ds, d.isDigit = true

/-- The characters by which a number may go on. -/
def inNumber (c : Char) : Bool := c.isDigit || c == '.' || c == 'e' || c == 'E'

/-- A number ends in front of the text. -/
def Ends (rest : List Char) : Prop := ∀ c ∈ rest.head?, inNumber c = false

variable {ds rest : List Char} {c : Char}

theorem ends_nil : Ends [] := nofun

theorem ends_cons : Ends (c :: rest) ↔ inNumber c = false := by simp [Ends]

theorem not_isDigit_of_not_inNumber (h : inNumber c = false) : c.isDigit = false := by
  simp only [inNumber, Bool.or_eq_false_iff] at h
  exact h.1.1.1

theorem digits_toDigits (n : Nat) : Digits (Nat.toDigits 10 n) :=
  ⟨Nat.toDigits_ne_nil, fun _ hd => Nat.isDigit_of_mem_toDigits (by decide) (by decide) hd⟩

theorem isDigit_of_mem_zeros {count : Nat} : ∀ d ∈ List.replicate count '0', d.isDigit = true := fun d hd => by
  rw [List.eq_of_mem_replicate hd]
  rfl

theorem Digits.append (hds : Digits ds) {es : List Char} (hes : ∀ d ∈ es, d.isDigit = true) : Digits (ds ++ es) :=
  ⟨fun h => hds.1 (List.append_eq_nil_iff.1 h).1, List.forall_mem_append.2 ⟨hds.2, hes⟩⟩

theorem Digits.prepend (hds : Digits ds) {es : List Char} (hes : ∀ d ∈ es, d.isDigit = true) : Digits (es ++ ds) :=
  ⟨fun h => hds.1 (List.append_eq_nil_iff.1 h).2, List.forall_mem_append.2 ⟨hes, hds.2⟩⟩

theorem digits_zero : Digits ['0'] := ⟨nofun, by simp⟩

/-- Digits are read up to the first other character. -/
theorem digits?_append (hds : Digits ds) (hrest : ∀ c ∈ rest.head?, c.isDigit = false) :
    digits? (ds ++ rest) = some (ds, rest) := by
  have htake : rest.takeWhile Char.isDigit = [] := by
    cases rest with
    | nil => rfl
    | cons c rest => exact List.takeWhile_cons_of_neg (by simp [hrest c rfl])
  have hdrop : rest.dropWhile Char.isDigit = rest := by
    cases rest with
    | nil => rfl
    | cons c rest => exact List.dropWhile_cons_of_neg (by simp [hrest c rfl])
  obtain ⟨d, ds, rfl⟩ := List.exists_cons_of_ne_nil hds.1
  rw [digits?, List.takeWhile_append_of_pos hds.2, htake, List.append_nil, List.dropWhile_append_of_pos hds.2, hdrop]

/-! ## Numerals -/

structure Numeral where
  negative : Bool := false
  whole : List Char
  fraction : Option (List Char) := none
  /-- Whether it is below zero, and its digits. -/
  exponent : Option (Bool × List Char) := none
  digits_whole : Digits whole
  /-- No zero stands in front of other digits. -/
  leading : ¬ (whole.head? = some '0' ∧ 1 < whole.length)
  digits_fraction : ∀ ds ∈ fraction, Digits ds
  digits_exponent : ∀ e ∈ exponent, Digits e.2

namespace Numeral

/-- The point and the digits behind it. -/
def fractionText : Option (List Char) → List Char
  | some ds => '.' :: ds
  | none => []

def exponentText : Option (Bool × List Char) → List Char
  | some (negative, ds) => 'e' :: (if negative then '-' else '+') :: ds
  | none => []

/-- The text without the sign. -/
def body (n : Numeral) : List Char := n.whole ++ (fractionText n.fraction ++ exponentText n.exponent)

def text (n : Numeral) : List Char := if n.negative then '-' :: n.body else n.body

/-- What the number is read as. -/
def value? (n : Numeral) : Option Json :=
  numberOf? n.negative n.whole n.fraction (n.exponent.map fun e =>
    if e.1 then -(Text.digitsToNat e.2 : Int) else Text.digitsToNat e.2)

theorem exponent?_text {exponent : Option (Bool × List Char)} (hds : ∀ e ∈ exponent, Digits e.2) (hrest : Ends rest) :
    exponent? (exponentText exponent ++ rest) = some (exponent.map fun e =>
      if e.1 then -(Text.digitsToNat e.2 : Int) else Text.digitsToNat e.2, rest) := by
  cases exponent with
  | none =>
    cases rest with
    | nil => rfl
    | cons c rest =>
      have hc : ¬ (c = 'e' ∨ c = 'E') := by
        rintro (rfl | rfl) <;> cases ends_cons.1 hrest
      exact if_neg hc
  | some e =>
    obtain ⟨negative, ds⟩ := e
    have hread : digits? (ds ++ rest) = some (ds, rest) :=
      digits?_append (hds _ rfl) fun c hc => not_isDigit_of_not_inNumber (hrest c hc)
    cases negative <;> simp [exponentText, exponent?, hread]

/-- No digit stands at the front of an exponent or of what follows it. -/
theorem head_exponentText (exponent : Option (Bool × List Char)) (hrest : Ends rest) :
    ∀ c ∈ (exponentText exponent ++ rest).head?, c.isDigit = false ∧ c ≠ '.' := by
  cases exponent with
  | none =>
    intro c hc
    have hnot := hrest c hc
    refine ⟨not_isDigit_of_not_inNumber hnot, ?_⟩
    rintro rfl
    cases hnot
  | some e =>
    rintro c ⟨⟩
    exact ⟨rfl, by decide⟩

theorem fraction?_text {fraction : Option (List Char)} (hds : ∀ ds ∈ fraction, Digits ds)
    (hrest : ∀ c ∈ rest.head?, c.isDigit = false ∧ c ≠ '.') :
    fraction? (fractionText fraction ++ rest) = some (fraction, rest) := by
  cases fraction with
  | none =>
    cases rest with
    | nil => rfl
    | cons c rest =>
      have hc : c ≠ '.' := (hrest c rfl).2
      rw [fractionText, List.nil_append, fraction?]
      rintro _ ⟨⟩
      exact hc rfl
  | some ds =>
    show (digits? (ds ++ rest)).map _ = _
    rw [digits?_append (hds ds rfl) fun c hc => (hrest c hc).1]
    rfl

/-- A numeral is read whole, whatever follows. -/
theorem number?_text (n : Numeral) (hrest : Ends rest) : number? (n.text ++ rest) = some (n.value?, rest) := by
  have hexponent := head_exponentText n.exponent hrest
  have hwhole : ∀ c ∈ (fractionText n.fraction ++ (exponentText n.exponent ++ rest)).head?, c.isDigit = false := by
    cases n.fraction with
    | none => exact fun c hc => (hexponent c hc).1
    | some ds =>
      rintro c ⟨⟩
      rfl
  have hread : digits? (n.body ++ rest) =
      some (n.whole, fractionText n.fraction ++ (exponentText n.exponent ++ rest)) := by
    rw [body, List.append_assoc, List.append_assoc]
    exact digits?_append n.digits_whole hwhole
  have hfraction := fraction?_text n.digits_fraction hexponent
  have hexponent := exponent?_text n.digits_exponent hrest
  cases hneg : n.negative with
  | true =>
    rw [text, hneg, if_pos rfl, List.cons_append, number?]
    simp [hread, n.leading, hfraction, hexponent, value?, hneg]
  | false =>
    rw [text, hneg, if_neg Bool.false_ne_true, number?]
    · simp [hread, n.leading, hfraction, hexponent, value?, hneg]
    · intro cs hcs
      obtain ⟨d, ds, hwhole⟩ := List.exists_cons_of_ne_nil n.digits_whole.1
      have hd : d.isDigit = true := n.digits_whole.2 d (hwhole ▸ List.mem_cons_self)
      rw [body, hwhole] at hcs
      cases hcs
      cases hd

end Numeral

/-! ## Integers -/

theorem gather_eq {significand : Nat} (h : Nat.ofDigitChars 10 ds significand < UInt64.size) :
    gather significand ds = (Nat.ofDigitChars 10 ds significand, 0) := by
  induction ds generalizing significand with
  | nil => rfl
  | cons d ds ih =>
    rw [Nat.ofDigitChars_cons] at h ⊢
    have hnext : 10 * significand + (d.toNat - '0'.toNat) < UInt64.size := by
      refine lt_of_le_of_lt ?_ h
      rw [Nat.ofDigitChars_eq_ofDigitChars_zero]
      exact (Nat.le_mul_of_pos_left _ (Nat.pow_pos (by decide))).trans (Nat.le_add_right _ _)
    rw [gather, if_pos hnext, ih h]

theorem head_toDigits {n : Nat} (h : 0 < n) : (Nat.toDigits 10 n).head? ≠ some '0' := by
  induction n using Nat.strongRecOn with
  | ind n ih =>
    rw [Nat.toDigits_eq_if (by decide)]
    split
    · next hlt =>
      have hdigit : ∀ n < 10, 0 < n → n.digitChar ≠ '0' := by decide
      exact fun heq => hdigit n hlt h (Option.some.inj heq)
    · next hge =>
      obtain ⟨d, ds, hds⟩ := List.exists_cons_of_ne_nil (Nat.toDigits_ne_nil (b := 10) (n := n / 10))
      have hhead := ih (n / 10) (Nat.div_lt_self h (by decide)) (Nat.div_pos (Nat.le_of_not_lt hge) (by decide))
      rw [hds] at hhead ⊢
      exact hhead

theorem leading_toDigits (n : Nat) : ¬ ((Nat.toDigits 10 n).head? = some '0' ∧ 1 < (Nat.toDigits 10 n).length) := by
  rintro ⟨hhead, hlength⟩
  rcases Nat.eq_zero_or_pos n with rfl | hpos
  · exact absurd hlength (by decide)
  · exact head_toDigits hpos hhead

/-- An integer as it is written. -/
def Numeral.ofInt (n : Int) : Numeral where
  negative := n < 0
  whole := Nat.toDigits 10 n.natAbs
  digits_whole := digits_toDigits n.natAbs
  leading := leading_toDigits n.natAbs
  digits_fraction := by simp
  digits_exponent := by simp

theorem Numeral.text_ofInt (n : Int) : (ofInt n).text = (compact (.int n)).toList := by
  have hbody : (ofInt n).body = Nat.toDigits 10 n.natAbs := List.append_nil _
  rw [text, hbody, compact, Int.toString_eq_repr, Int.repr_eq_if]
  by_cases h : 0 ≤ n
  · have hnat : n.toNat = n.natAbs := by omega
    have hneg : (ofInt n).negative = false := decide_eq_false (by omega)
    rw [hneg, if_pos h, if_neg Bool.false_ne_true, Nat.toList_repr, hnat]
  · have hnat : (-n).toNat = n.natAbs := by omega
    have hneg : (ofInt n).negative = true := decide_eq_true (by omega)
    rw [hneg, if_neg h, if_pos rfl, String.toList_append, Nat.toList_repr, hnat]
    rfl

/-- An integer of 64 bits is read as itself. -/
theorem Numeral.value?_ofInt {n : Int} (hlow : Int64.minValue.toInt ≤ n) (hhigh : n < UInt64.size) :
    (ofInt n).value? = some (.int n) := by
  have hgather : gather 0 (Nat.toDigits 10 n.natAbs) = (n.natAbs, 0) := by
    have hdigits : Nat.ofDigitChars 10 (Nat.toDigits 10 n.natAbs) 0 = n.natAbs := Nat.ofDigitChars_ten_toDigits
    have hbound : n.natAbs < UInt64.size := by
      have hmin : Int64.minValue.toInt = -9223372036854775808 := rfl
      have hsize : UInt64.size = 18446744073709551616 := rfl
      omega
    rw [gather_eq (hdigits.symm ▸ hbound), hdigits]
  rw [value?]
  show numberOf? (decide (n < 0)) (Nat.toDigits 10 n.natAbs) none none = _
  rw [numberOf?, hgather]
  by_cases hneg : n < 0
  · have habs : -(n.natAbs : Int) = n := by omega
    have hnot : ¬ (n.natAbs = 0 ∨ n < Int64.minValue.toInt) := by omega
    simp only [hneg, decide_true, Bool.not_true, Bool.false_eq_true, if_false, habs, if_neg hnot]
  · have habs : (n.natAbs : Int) = n := by omega
    simp only [hneg, decide_false, Bool.not_false, if_true, habs]

/-! ## Doubles -/

/-- The significant digits begin with the first digit, no zero unless the number is. -/
theorem significant_eq {n : Nat} (h : 0 < n) :
    Digits (Number.significant n) ∧ (Number.significant n).head? ≠ some '0' := by
  obtain ⟨d, ds, hds⟩ := List.exists_cons_of_ne_nil (Nat.toDigits_ne_nil (b := 10) (n := n))
  have hd : d ≠ '0' := fun hzero => head_toDigits h (by rw [hds, hzero]; rfl)
  have hprefix : (Nat.toDigits 10 n).rdropWhile (· == '0') <+: Nat.toDigits 10 n := List.rdropWhile_prefix _ _
  have hne : (Nat.toDigits 10 n).rdropWhile (· == '0') ≠ [] := by
    rw [Ne, List.rdropWhile_eq_nil_iff]
    exact fun hzeros => hd (by simpa using hzeros d (hds ▸ List.mem_cons_self))
  have hsignificant : Number.significant n = (Nat.toDigits 10 n).rdropWhile (· == '0') := by
    rw [Number.significant]
    split
    · next hnil => exact absurd hnil hne
    · rfl
  obtain ⟨back, hback⟩ := hprefix
  obtain ⟨e, es, hes⟩ := List.exists_cons_of_ne_nil hne
  rw [hsignificant]
  refine ⟨⟨hne, fun c hc => (digits_toDigits n).2 c (hback ▸ List.mem_append_left _ hc)⟩, fun hhead => ?_⟩
  rw [hes] at hback hhead
  rw [hds] at hback
  cases hback
  exact hd (Option.some.inj hhead)

/-- Digits with a point are a numeral if no zero stands in front of others. -/
theorem exists_body_positional {point : Int} (hds : Digits ds) (hlead : ds.head? = some '0' → ds = ['0'] ∧ point = 1) :
    ∃ n : Numeral, n.body = (Number.writePositional ".0" ds point).toList := by
  rw [Number.writePositional]
  split
  · refine ⟨⟨false, ds ++ List.replicate (point.toNat - ds.length) '0', some ['0'], none,
      hds.append isDigit_of_mem_zeros, ?_, by simpa using digits_zero, by simp⟩, ?_⟩
    · rintro ⟨hhead, hlength⟩
      rw [List.head?_append_of_ne_nil _ hds.1] at hhead
      obtain ⟨rfl, rfl⟩ := hlead hhead
      exact absurd hlength (by decide)
    · rw [Numeral.body, String.toList_append, String.toList_ofList]
      rfl
  · next hlong =>
    split
    · next hpos =>
      have hfront : ds.take point.toNat ≠ [] := List.ne_nil_of_length_pos (by rw [List.length_take]; omega)
      have hback : ds.drop point.toNat ≠ [] := List.ne_nil_of_length_pos (by rw [List.length_drop]; omega)
      refine ⟨⟨false, ds.take point.toNat, some (ds.drop point.toNat), none,
        ⟨hfront, fun d hd => hds.2 d (List.mem_of_mem_take hd)⟩, ?_, ?_, by simp⟩, ?_⟩
      · rintro ⟨hhead, -⟩
        rw [List.head?_take, if_neg (by omega)] at hhead
        obtain ⟨rfl, rfl⟩ := hlead hhead
        exact hlong le_rfl
      · rintro _ ⟨⟩
        exact ⟨hback, fun d hd => hds.2 d (List.mem_of_mem_drop hd)⟩
      · rw [Numeral.body, String.toList_ofList]
        exact congrArg _ (List.append_nil _)
    · have hzeros : Digits (List.replicate (-point).toNat '0' ++ ds) := hds.prepend isDigit_of_mem_zeros
      refine ⟨⟨false, ['0'], some (List.replicate (-point).toNat '0' ++ ds), none, digits_zero, by decide,
        by simpa using hzeros, by simp⟩, ?_⟩
      rw [Numeral.body, String.toList_ofList]
      exact congrArg (_ :: _ :: ·) (List.append_nil _)

theorem exists_body_scientific {exponent : Int} (hds : Digits ds) :
    ∃ n : Numeral, n.body = (Number.writeScientific ds exponent).toList := by
  obtain ⟨d, es, rfl⟩ := List.exists_cons_of_ne_nil hds.1
  obtain ⟨hd, hes⟩ := List.forall_mem_cons.1 hds.2
  have hwhole : Digits [d] := ⟨nofun, List.forall_mem_singleton.2 hd⟩
  have hshort : ¬ ([d].head? = some '0' ∧ 1 < [d].length) := fun h => absurd h.2 (lt_irrefl 1)
  have hexponent : ∀ e ∈ some (decide (exponent < 0), Nat.toDigits 10 exponent.natAbs), Digits e.2 := by
    rintro _ ⟨⟩
    exact digits_toDigits _
  have hsign : (if exponent < 0 then "e-" else "e+").toList = ['e', if exponent < 0 then '-' else '+'] := by
    split <;> rfl
  cases es with
  | nil =>
    refine ⟨⟨false, [d], none, some _, hwhole, hshort, by simp, hexponent⟩, ?_⟩
    simp [Numeral.body, Numeral.fractionText, Numeral.exponentText, Number.writeScientific, hsign]
  | cons e es =>
    refine ⟨⟨false, [d], some (e :: es), some _, hwhole, hshort, ?_, hexponent⟩, ?_⟩
    · rintro _ ⟨⟩
      exact ⟨nofun, hes⟩
    · simp [Numeral.body, Numeral.fractionText, Numeral.exponentText, Number.writeScientific, hsign]

/-- A shortest decimal has digits other than zero if the numbers around it are above zero. -/
theorem digits_pos_of_pointOn? {tie : Number.Tie} {n : Number.Neighbourhood} {g : Int} {d : Number.Decimal}
    (hlow : 0 < n.low) (h : n.pointOn? tie g = some d) : 0 < d.digits := by
  unfold Number.Neighbourhood.pointOn? at h
  extract_lets up unit inside below rest at h
  have hup : 0 < up := Nat.mul_pos (Nat.pow_pos (by decide)) (Nat.pow_pos (by decide))
  have hzero : inside 0 = false := by
    have hpos : 0 < n.low * up := Nat.mul_pos hlow hup
    simp only [inside, Nat.zero_mul]
    split <;> simp [Nat.ne_of_gt hpos]
  have hpos : ∀ p, inside p = true → 0 < p := fun p hp => by
    rcases Nat.eq_zero_or_pos p with rfl | hp'
    · rw [hzero] at hp
      cases hp
    · exact hp'
  split at h
  · cases h
  · next hbelow _ =>
    cases h
    exact hpos _ hbelow
  · cases h
    exact Nat.succ_pos _
  · next hbelow _ =>
    have hchoice : d.digits = below ∨ d.digits = below + 1 := by
      split at h
      · cases h
        exact .inl rfl
      · split at h
        · cases h
          exact .inr rfl
        · cases tie <;> cases h
          · dsimp only
            split
            · exact .inl rfl
            · exact .inr rfl
          · exact .inr rfl
    have := hpos _ hbelow
    omega

theorem low_pos {x : Double} (hx : x.isZero = false) : 0 < (Number.Neighbourhood.ofDouble x).low := by
  have hparts : 0 < x.parts.1 := by
    have hne : x.magnitudeBits ≠ 0 := by simpa [Double.isZero] using hx
    simp only [Double.parts]
    split
    · next hfield =>
      have := Nat.div_add_mod x.magnitudeBits Double.leadingBit
      simp only [hfield] at this
      show 0 < _
      omega
    · have : Double.leadingBit = 0x10000000000000 := rfl
      show 0 < _
      omega
  simp only [Number.Neighbourhood.ofDouble]
  split <;> omega

/-- Without other digits than zero a shortest decimal is plain zero. -/
theorem exponent_shortest {tie : Number.Tie} {x : Double} (h : (Number.shortest tie x).digits = 0) :
    (Number.shortest tie x).exponent = 0 := by
  rw [Number.shortest] at h ⊢
  split at h
  · next hzero => rw [if_pos hzero]
  · next hzero =>
    rw [if_neg hzero]
    cases hfind : Number.gridExponents.findSome? ((Number.Neighbourhood.ofDouble x).pointOn? tie) with
    | none => rfl
    | some d =>
      rw [hfind] at h
      obtain ⟨g, -, hg⟩ := List.exists_of_findSome?_eq_some hfind
      exact absurd h (digits_pos_of_pointOn? (low_pos (by simpa using hzero)) hg).ne'

/-- A finite double is written as a numeral. -/
theorem exists_text_float {x : Double} (hx : x.isFinite = true) :
    ∃ n : Numeral, n.text = (compact (.float x)).toList := by
  have hbody : ∀ b : String, (∃ n : Numeral, n.body = b.toList) →
      ∃ n : Numeral, n.text = ((if x.isNegative then "-" else "") ++ b).toList := by
    rintro b ⟨n, hn⟩
    refine ⟨{ n with negative := x.isNegative }, ?_⟩
    show (if x.isNegative then '-' :: n.body else n.body) = _
    rw [hn]
    cases x.isNegative <;> simp
  have hdigits : Digits (Number.significant (Number.shortest Number.jsonStyle.tie x).digits) := by
    rcases Nat.eq_zero_or_pos (Number.shortest Number.jsonStyle.tie x).digits with hzero | hpos
    · rw [hzero]
      exact digits_zero
    · exact (significant_eq hpos).1
  have hlayout : ∀ (positional : Bool) (p s : String), (∃ n : Numeral, n.body = p.toList) →
      (∃ n : Numeral, n.body = s.toList) → ∃ n : Numeral, n.body = (if positional then p else s).toList := by
    rintro (_ | _) p s hp hs
    · exact hs
    · exact hp
  rw [compact, Number.write, if_pos hx]
  refine hbody _ (hlayout _ _ _ ?_ ?_)
  · refine exists_body_positional hdigits fun hhead => ?_
    rcases Nat.eq_zero_or_pos (Number.shortest Number.jsonStyle.tie x).digits with hzero | hpos
    · rw [exponent_shortest hzero, hzero]
      exact ⟨rfl, rfl⟩
    · exact absurd hhead (significant_eq hpos).2
  · exact exists_body_scientific hdigits

end Listing.Json
