import Listing.Number.Written
import Listing.Text.Lowercase
/-!
# Texts in lower case

A text is in lower case if lower-casing leaves it as it is. That is so just when each of its characters
stays as it is on its own (`inLowerCase_iff`). No image of a run in the case table stands in a run again,
so what lower-casing gives is in lower case (`inLowerCase_lowercase`). Numbers are written in lower case, but
not what is no number (`inLowerCase_write`).
-/
namespace Listing.Text

/-- Lower-casing leaves the text as it is. -/
def InLowerCase (s : String) : Prop := lowercase s = s

/-- Lower-casing leaves the character as it is. -/
def Stays (c : Char) : Prop := c ≠ 'Σ' ∧ lowerChar c = [c]

instance (c : Char) : Decidable (Stays c) := inferInstanceAs (Decidable (_ ∧ _))

/-! ## The case table -/

namespace CaseRun

/-- The last of the images. -/
def lastImage (r : CaseRun) : Nat := r.image + (r.last - r.first)

/-- The images of `r` are all before `r'`, all behind it, or all between its characters. -/
def Apart (r r' : CaseRun) : Bool :=
  r.lastImage.blt r'.first || r'.last.blt r.image ||
    (r.first == r.last || r.step == 2) && r'.step == 2 && (r.image + r'.first) % 2 == 1

/-- The images are code points of characters, and `İ` is not among them. -/
def Proper (r : CaseRun) : Bool :=
  (r.lastImage < 0xD800 || 0xDFFF < r.image && r.lastImage < 0x110000) &&
    (r.lastImage < 0x130 || 0x130 < r.image)

theorem lower?_eq_some {r : CaseRun} {n m : Nat} (h : r.lower? n = some m) :
    r.first ≤ n ∧ n ≤ r.last ∧ (n - r.first) % r.step = 0 ∧ m = r.image + (n - r.first) := by
  unfold lower? at h
  split at h
  · next hn => exact ⟨hn.1, hn.2.1, hn.2.2, (Option.some.inj h).symm⟩
  · cases h

theorem lower?_image {r r' : CaseRun} (hapart : r.Apart r') {n m : Nat} (h : r.lower? n = some m) :
    r'.lower? m = none := by
  obtain ⟨hfirst, hlast, hstep, rfl⟩ := lower?_eq_some h
  refine if_neg ?_
  rintro ⟨hfirst', hlast', hstep'⟩
  simp only [Apart, Bool.or_eq_true, Bool.and_eq_true, Nat.blt_eq, beq_iff_eq] at hapart
  unfold lastImage at hapart
  rcases hapart with (hbefore | hbehind) | ⟨⟨hone | htwo, htwo'⟩, hodd⟩
  · omega
  · omega
  · rw [htwo'] at hstep'
    omega
  · rw [htwo] at hstep
    rw [htwo'] at hstep'
    omega

theorem isValidChar_of_lower? {r : CaseRun} (hproper : r.Proper) {n m : Nat} (h : r.lower? n = some m) :
    m.isValidChar ∧ m ≠ 0x130 := by
  obtain ⟨hfirst, hlast, -, rfl⟩ := lower?_eq_some h
  simp only [Proper, Bool.and_eq_true, Bool.or_eq_true, decide_eq_true_eq] at hproper
  unfold lastImage at hproper
  unfold Nat.isValidChar
  omega

end CaseRun

theorem apart_caseRuns : ∀ r ∈ caseRuns, ∀ r' ∈ caseRuns, r.Apart r' = true := by
  -- as one test, which takes the kernel half as long as the two bounded quantifiers
  have h : (caseRuns.all fun r => caseRuns.all r.Apart) = true := by decide +kernel
  simpa only [List.all_eq_true] using h

theorem proper_caseRuns : ∀ r ∈ caseRuns, r.Proper = true := by decide +kernel

/-! ## Characters -/

theorem stays_of_not_mem {c : Char} (hdot : c ≠ 'İ') (hruns : ∀ r ∈ caseRuns, r.lower? c.toNat = none) :
    Stays c := by
  have hnone : caseRuns.findSome? (·.lower? c.toNat) = none := List.findSome?_eq_none_iff.2 hruns
  refine ⟨?_, ?_⟩
  · rintro rfl
    exact absurd hnone (by decide +kernel)
  · rw [lowerChar, if_neg hdot, hnone]

/-- All upper-case characters come behind the digits. -/
theorem stays_of_lt {c : Char} (h : c.toNat < 0x41) : Stays c := by
  have hfirst : ∀ r ∈ caseRuns, 0x41 ≤ r.first := by decide +kernel
  refine stays_of_not_mem ?_ fun r hr => ?_
  · rintro rfl
    exact absurd h (by decide)
  · have := hfirst r hr
    exact if_neg (by omega)

theorem stays_ofNat {r : CaseRun} (hr : r ∈ caseRuns) {n m : Nat} (h : r.lower? n = some m) :
    Stays (Char.ofNat m) := by
  obtain ⟨hvalid, hdot⟩ := CaseRun.isValidChar_of_lower? (proper_caseRuns r hr) h
  have hm : (Char.ofNat m).toNat = m := by rw [Char.ofNat, dif_pos hvalid]; rfl
  refine stays_of_not_mem ?_ fun r' hr' => ?_
  · intro hc
    exact hdot (by rw [← hm, hc]; rfl)
  · rw [hm]
    exact CaseRun.lower?_image (apart_caseRuns r hr r' hr') h

theorem stays_lowerChar {c d : Char} (hd : d ∈ lowerChar c) : Stays d := by
  unfold lowerChar at hd
  split at hd
  · simp only [List.mem_cons, List.not_mem_nil, or_false] at hd
    rcases hd with rfl | rfl <;> decide +kernel
  · next hdot =>
    split at hd
    · next m hm =>
      obtain ⟨r, hr, hm⟩ := List.exists_of_findSome?_eq_some hm
      rw [List.mem_singleton] at hd
      rw [hd]
      exact stays_ofNat hr hm
    · next hnone =>
      rw [List.mem_singleton] at hd
      rw [hd]
      exact stays_of_not_mem hdot (List.findSome?_eq_none_iff.1 hnone)

/-! ## Texts -/

/-- What lower-casing gives stays as it is, whatever stood before it. -/
theorem stays_lowerAfter {before cs : List Char} : ∀ d ∈ lowerAfter before cs, Stays d := by
  induction cs generalizing before with
  | nil => simp [lowerAfter]
  | cons c after ih =>
    intro d hd
    rw [lowerAfter, List.mem_append] at hd
    rcases hd with hd | hd
    · by_cases hc : c = 'Σ'
      · rw [if_pos hc, List.mem_singleton] at hd
        rw [hd]
        split <;> decide +kernel
      · rw [if_neg hc] at hd
        exact stays_lowerChar hd
    · exact ih d hd

theorem lowerAfter_of_stays {before cs : List Char} (h : ∀ c ∈ cs, Stays c) : lowerAfter before cs = cs := by
  induction cs generalizing before with
  | nil => rfl
  | cons c after ih =>
    obtain ⟨hsigma, hlower⟩ := h c List.mem_cons_self
    rw [lowerAfter, if_neg hsigma, hlower, ih fun d hd => h d (List.mem_cons_of_mem c hd)]
    rfl

/-- A text is in lower case just when its characters are. -/
theorem inLowerCase_iff {s : String} : InLowerCase s ↔ ∀ c ∈ s.toList, Stays c := by
  unfold InLowerCase lowercase
  constructor
  · intro h c hc
    rw [← h, String.toList_ofList] at hc
    exact stays_lowerAfter c hc
  · intro h
    rw [lowerAfter_of_stays h, String.ofList_toList]

theorem inLowerCase_lowercase (s : String) : InLowerCase (lowercase s) := by
  rw [inLowerCase_iff, lowercase, String.toList_ofList]
  exact stays_lowerAfter

theorem InLowerCase.append {s s' : String} (h : InLowerCase s) (h' : InLowerCase s') : InLowerCase (s ++ s') := by
  rw [inLowerCase_iff] at h h' ⊢
  intro c hc
  rw [String.toList_append, List.mem_append] at hc
  exact hc.elim (h c) (h' c)

/-! ## Numbers -/

theorem stays_of_isDigit {c : Char} (h : c.isDigit = true) : Stays c := by
  simp only [Char.isDigit, Bool.and_eq_true, decide_eq_true_eq, UInt32.le_iff_toNat_le] at h
  have hnine : '9'.val.toNat = 57 := rfl
  have hval : c.toNat = c.val.toNat := rfl
  exact stays_of_lt (by omega)

theorem stays_toDigits (n : Nat) : ∀ c ∈ Nat.toDigits 10 n, Stays c := fun _ hc =>
  stays_of_isDigit (Nat.isDigit_of_mem_toDigits (by decide) (by decide) hc)

theorem inLowerCase_nat (n : Nat) : InLowerCase (toString n) := by
  have hdigits : (toString n).toList = Nat.toDigits 10 n := Nat.toList_repr
  rw [inLowerCase_iff, hdigits]
  exact stays_toDigits n

theorem inLowerCase_int (n : Int) : InLowerCase (toString n) := by
  cases n with
  | ofNat m => exact inLowerCase_nat m
  | negSucc m => exact InLowerCase.append rfl (inLowerCase_nat (m + 1))

open Number

theorem stays_significant (n : Nat) : ∀ c ∈ significant n, Stays c := by
  intro c hc
  unfold significant at hc
  split at hc
  · rw [List.mem_singleton] at hc
    rw [hc]
    exact stays_of_lt (by decide)
  · have hsub := (List.dropWhile_sublist (· == '0') (l := (Nat.toDigits 10 n).reverse)).reverse.subset hc
    rw [List.reverse_reverse] at hsub
    exact stays_toDigits n c hsub

theorem inLowerCase_writePositional {integral : String} (hintegral : InLowerCase integral) {ds : List Char}
    (h : ∀ c ∈ ds, Stays c) (point : Int) : InLowerCase (writePositional integral ds point) := by
  have hzero : Stays '0' := stays_of_lt (by decide)
  have hpoint : Stays '.' := stays_of_lt (by decide)
  have htake := fun c hc => h c (List.mem_of_mem_take (i := point.toNat) hc)
  have hdrop := fun c hc => h c (List.mem_of_mem_drop (i := point.toNat) hc)
  unfold writePositional
  split
  · refine InLowerCase.append (inLowerCase_iff.2 ?_) hintegral
    simpa [or_imp, forall_and] using ⟨h, fun _ => hzero⟩
  · split <;> rw [inLowerCase_iff]
    · simpa [or_imp, forall_and] using ⟨htake, hpoint, hdrop⟩
    · simpa [or_imp, forall_and] using ⟨hzero, hpoint, fun _ => hzero, h⟩

/-- A number is written in digits, with a sign or a point, or as infinite. -/
theorem inLowerCase_write {x : Double} (h : x.magnitudeBits ≤ Double.infinityBits) :
    InLowerCase (write plainStyle x) := by
  have hsign : InLowerCase (if x.isNegative then "-" else "") := by split <;> rfl
  have hpositional : ∀ e, plainStyle.positional e = true := fun _ => rfl
  have hintegral : InLowerCase plainStyle.integral := rfl
  have hinfinite : InLowerCase plainStyle.infinite := rfl
  have hdistinct : plainStyle.infinite ≠ plainStyle.noNumber := by decide
  unfold write
  simp only [hpositional, if_true, if_neg hdistinct]
  split
  · exact hsign.append (inLowerCase_writePositional hintegral (stays_significant _) _)
  · next hfinite =>
    have hmagnitude : x.isInfinite = true := by
      simp only [Double.isFinite, decide_eq_true_eq, Nat.not_lt] at hfinite
      simpa [Double.isInfinite] using Nat.le_antisymm h hfinite
    rw [if_pos hmagnitude]
    exact hsign.append hinfinite

end Listing.Text
