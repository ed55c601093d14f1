import Listing.Text.Blank
/-!
# Texts that begin

A text begins if its first character is not blank. Trimming a text with such a character gives one that
begins, and trimming leaves the front of one that begins as it is. A text ends if its last character is
not blank; of a text in two parts with such an end, trimming changes the front alone (`trim_append`).
-/
namespace Listing.Text

/-- The text begins with a character that is not blank. -/
def Begins (cs : List Char) : Prop := ∃ c rest, cs = c :: rest ∧ isBlank c = false

theorem Begins.append {cs : List Char} (h : Begins cs) (ds : List Char) : Begins (cs ++ ds) := by
  obtain ⟨c, rest, rfl, hc⟩ := h
  exact ⟨c, rest ++ ds, rfl, hc⟩

theorem trimFront_of_begins {cs : List Char} (h : Begins cs) : trimFront cs = cs := by
  obtain ⟨c, rest, rfl, hc⟩ := h
  rw [trimFront, List.dropWhile_cons_of_neg (by simp [hc])]

theorem begins_trimFront {cs : List Char} (h : cs.all isBlank = false) : Begins (trimFront cs) := by
  induction cs with
  | nil => cases h
  | cons c cs ih =>
    cases hc : isBlank c with
    | true =>
      rw [trimFront, List.dropWhile_cons_of_pos hc]
      exact ih (by simpa [hc] using h)
    | false =>
      rw [trimFront_of_begins ⟨c, cs, rfl, hc⟩]
      exact ⟨c, cs, rfl, hc⟩

/-- Trimming at the end stops at the first character at the latest. -/
theorem begins_trimBack {cs : List Char} (h : Begins cs) : Begins (trimBack cs) := by
  obtain ⟨c, rest, rfl, hc⟩ := h
  rw [trimBack, List.reverse_cons, List.dropWhile_append]
  split
  · rw [List.dropWhile_cons_of_neg (by simp [hc])]
    exact ⟨c, [], rfl, hc⟩
  · rw [List.reverse_append]
    exact ⟨c, _, rfl, hc⟩

/-- What is left of a text that is not blank begins. -/
theorem begins_trim {s : String} (h : isBlankText s = false) : Begins (trim s).toList := by
  rw [trim, String.toList_ofList]
  exact begins_trimBack (begins_trimFront h)

/-! ## Texts that end -/

/-- The text ends with a character that is not blank. -/
def Ends (cs : List Char) : Prop := ∃ front c, cs = front ++ [c] ∧ isBlank c = false

theorem ends_of_getLast? {cs : List Char} {c : Char} (h : cs.getLast? = some c) (hc : isBlank c = false) : Ends cs := by
  obtain ⟨front, rfl⟩ := List.getLast?_eq_some_iff.mp h
  exact ⟨front, c, rfl, hc⟩

theorem ends_of_forall {cs : List Char} (hne : cs ≠ []) (h : ∀ c ∈ cs, isBlank c = false) : Ends cs :=
  ends_of_getLast? (List.getLast?_eq_some_getLast hne) (h _ (List.getLast_mem hne))

theorem Ends.append {ds : List Char} (h : Ends ds) (cs : List Char) : Ends (cs ++ ds) := by
  obtain ⟨front, c, rfl, hc⟩ := h
  exact ⟨cs ++ front, c, by rw [List.append_assoc], hc⟩

theorem trimBack_of_ends {cs : List Char} (h : Ends cs) : trimBack cs = cs := by
  obtain ⟨front, c, rfl, hc⟩ := h
  rw [trimBack, List.reverse_append, List.reverse_singleton, List.singleton_append,
    List.dropWhile_cons_of_neg (by simp [hc]), List.reverse_cons, List.reverse_reverse]

theorem trimFront_append {cs : List Char} (h : cs.all isBlank = false) (ds : List Char) :
    trimFront (cs ++ ds) = trimFront cs ++ ds := by
  have hne : (cs.dropWhile isBlank).isEmpty = false := by
    obtain ⟨c, rest, hcs, -⟩ := begins_trimFront h
    rw [trimFront] at hcs
    rw [hcs]
    rfl
  rw [trimFront, List.dropWhile_append, hne]
  rfl

/-- Trimming leaves the end of a text that ends, if there is something in front of it. -/
theorem trim_append {s t : String} (hs : isBlankText s = false) (ht : Ends t.toList) :
    trim (s ++ t) = .ofList (trimFront s.toList) ++ t := by
  rw [trim, trimChars, String.toList_append, trimFront_append hs, trimBack_of_ends (ht.append _),
    String.ofList_append, String.ofList_toList]

end Listing.Text
