import Listing.Expect
import Mathlib.Data.List.Forall2
import Mathlib.Data.List.Infix
/-!
# Texts in order

Texts that are expected one behind the other are looked for from the left, each at its first occurrence behind the
one before, and no choice is taken back. That finds them whenever they can be found at all: the first occurrence
leaves the most behind it (`cutAt?_leftmost`), and what can be found in the end of a text can be found in the whole
(`Follow.append`). So the expectation is met if and only if the texts have places in their order, none inside another
(`inOrder_iff_placed`).
-/
namespace Listing

namespace Text

/-- Of all occurrences the leftmost leaves the longest rest. -/
theorem cutAt?_leftmost {needle text before after : List Char} (h : text = before ++ needle ++ after) :
    ∃ first rest, cutAt? needle text = some (first, rest) ∧ after <:+ rest := by
  induction before generalizing text with
  | nil =>
    have hstrip : stripLead? needle text = some after := stripLead?_eq_some.2 h
    cases text with
    | nil => exact ⟨[], after, by rw [cutAt?, hstrip, Option.map_some], List.suffix_rfl⟩
    | cons c text => exact ⟨[], after, by rw [cutAt?, hstrip], List.suffix_rfl⟩
  | cons c before ih =>
    subst h
    rw [List.cons_append, List.cons_append, cutAt?]
    cases hstrip : stripLead? needle (c :: (before ++ needle ++ after)) with
    | none =>
      obtain ⟨first, rest, hcut, hsuffix⟩ := ih rfl
      exact ⟨c :: first, rest, by rw [hcut, Option.map_some], hsuffix⟩
    | some rest =>
      have htext := stripLead?_eq_some.1 hstrip
      have hafter : after <:+ needle ++ rest := by
        rw [← htext]
        exact ⟨c :: (before ++ needle), rfl⟩
      have hlength : after.length ≤ rest.length := by
        have := congrArg List.length htext
        simp only [List.length_cons, List.length_append] at this
        omega
      exact ⟨[], rest, rfl, List.suffix_of_suffix_length_le hafter (List.suffix_append _ _) hlength⟩

end Text

namespace Expect

variable {text : List Char} {needles : List String}

/-- The needles occur one behind the other. -/
def Follow (text : List Char) : List String → Prop
  | [] => True
  | needle :: needles => ∃ before after, text = before ++ needle.toList ++ after ∧ Follow after needles

theorem Follow.append (h : Follow text needles) (front : List Char) : Follow (front ++ text) needles := by
  cases needles with
  | nil => trivial
  | cons needle needles =>
    obtain ⟨before, after, rfl, hrest⟩ := h
    exact ⟨front ++ before, after, by simp only [List.append_assoc], hrest⟩

/-- Taking each needle at its first occurrence misses none. -/
theorem firstMissing?_eq_none (passed : Nat) : firstMissing? passed text needles = none ↔ Follow text needles := by
  induction needles generalizing passed text with
  | nil => exact ⟨fun _ => trivial, fun _ => rfl⟩
  | cons needle needles ih =>
    rw [firstMissing?]
    constructor
    · intro h
      split at h
      · cases h
      · next before after hcut => exact ⟨before, after, Text.cutAt?_eq_some hcut, (ih _).1 h⟩
    · rintro ⟨before, after, htext, hrest⟩
      obtain ⟨first, rest, hcut, front, rfl⟩ := Text.cutAt?_leftmost htext
      rw [hcut]
      exact (ih _).2 (hrest.append front)

/-- The needle that is missed is the first that cannot follow those before it. -/
theorem firstMissing?_eq_some {passed passed' : Nat} {needle : String}
    (h : firstMissing? passed text needles = some (needle, passed')) :
    ∃ front back, needles = front ++ needle :: back ∧ Follow text front ∧ ¬ Follow text (front ++ [needle]) := by
  induction needles generalizing passed text with
  | nil => cases h
  | cons n needles ih =>
    rw [firstMissing?] at h
    split at h
    · next hcut =>
      cases h
      refine ⟨[], needles, rfl, trivial, ?_⟩
      rintro ⟨before, after, htext, -⟩
      obtain ⟨first, rest, hfound, -⟩ := Text.cutAt?_leftmost htext
      rw [hcut] at hfound
      cases hfound
    · next before after hcut =>
      obtain ⟨front, back, rfl, hfront, hmissed⟩ := ih h
      refine ⟨n :: front, back, rfl, ⟨before, after, Text.cutAt?_eq_some hcut, hfront⟩, ?_⟩
      rw [← firstMissing?_eq_none passed, List.cons_append, firstMissing?, hcut]
      exact fun hnone => hmissed ((firstMissing?_eq_none _).1 hnone)

/-! ## Places -/

/-- The needle stands at a place in the text, counted in characters. -/
def StandsAt (text : List Char) (needle : String) (place : Nat) : Prop :=
  ∃ before after, text = before ++ needle.toList ++ after ∧ before.length = place

/-- Places of the needles in their order, each behind the whole of those before it. -/
structure Placed (text : List Char) (needles : List String) (places : List Nat) : Prop where
  stands : List.Forall₂ (StandsAt text) needles places
  apart : (needles.zip places).Pairwise fun x y => x.2 + x.1.toList.length ≤ y.2

theorem placed_cons {needle : String} {place : Nat} {places : List Nat} :
    Placed text (needle :: needles) (place :: places) ↔
      StandsAt text needle place ∧ Placed text needles places ∧ ∀ p ∈ places, place + needle.toList.length ≤ p := by
  constructor
  · rintro ⟨hstands, hapart⟩
    obtain ⟨hfirst, hrest⟩ := List.forall₂_cons.1 hstands
    rw [List.zip_cons_cons, List.pairwise_cons] at hapart
    refine ⟨hfirst, ⟨hrest, hapart.2⟩, fun p hp => ?_⟩
    have hsnd : (needles.zip places).map Prod.snd = places := List.map_snd_zip hrest.length_eq.ge
    obtain ⟨x, hx, rfl⟩ := List.mem_map.1 (hsnd ▸ hp)
    exact hapart.1 x hx
  · rintro ⟨hfirst, ⟨hrest, hapart⟩, hbehind⟩
    refine ⟨.cons hfirst hrest, ?_⟩
    rw [List.zip_cons_cons, List.pairwise_cons]
    exact ⟨fun x hx => hbehind x.2 (List.of_mem_zip hx).2, hapart⟩

/-- What stands behind a needle begins where the needle ends. -/
theorem StandsAt.exists_drop {needle : String} {place : Nat} (h : StandsAt text needle place) :
    place + needle.toList.length ≤ text.length ∧ ∀ start ≤ place,
      ∃ before, text.drop start = before ++ needle.toList ++ text.drop (place + needle.toList.length) := by
  obtain ⟨before, after, htext, rfl⟩ := h
  have hafter : text.drop (before.length + needle.toList.length) = after := by
    rw [htext, ← List.length_append, List.drop_left]
  refine ⟨?_, fun start hstart => ⟨before.drop start, ?_⟩⟩
  · rw [htext, List.length_append, List.length_append]
    exact Nat.le_add_right _ _
  · rw [hafter, htext, List.append_assoc, List.drop_append_of_le_length hstart, ← List.append_assoc]

/-- The needles follow one another from a place on if they have places from there on. -/
theorem follow_drop {start : Nat} (hstart : start ≤ text.length) :
    Follow (text.drop start) needles ↔ ∃ places, Placed text needles places ∧ ∀ p ∈ places, start ≤ p := by
  induction needles generalizing start with
  | nil => exact ⟨fun _ => ⟨[], ⟨.nil, .nil⟩, nofun⟩, fun _ => trivial⟩
  | cons needle needles ih =>
    constructor
    · rintro ⟨before, after, hdrop, hrest⟩
      have hstands : StandsAt text needle (start + before.length) := by
        refine ⟨text.take start ++ before, after, ?_, ?_⟩
        · rw [List.append_assoc, List.append_assoc, ← List.append_assoc before, ← hdrop, List.take_append_drop]
        · rw [List.length_append, List.length_take_of_le hstart]
      have hafter : after = text.drop (start + before.length + needle.toList.length) := by
        rw [Nat.add_assoc, ← List.drop_drop, hdrop, ← List.length_append, List.drop_left]
      obtain ⟨places, hplaced, hbehind⟩ := (ih hstands.exists_drop.1).1 (hafter ▸ hrest)
      refine ⟨(start + before.length) :: places, placed_cons.2 ⟨hstands, hplaced, hbehind⟩, ?_⟩
      rw [List.forall_mem_cons]
      exact ⟨Nat.le_add_right _ _, fun p hp => by have := hbehind p hp; omega⟩
    · rintro ⟨places, hplaced, hfrom⟩
      obtain ⟨place, places, -, -, rfl⟩ := List.forall₂_cons_left_iff.1 hplaced.stands
      obtain ⟨hstands, hrest, hbehind⟩ := placed_cons.1 hplaced
      obtain ⟨hend, hdrop⟩ := hstands.exists_drop
      obtain ⟨before, hbefore⟩ := hdrop start (hfrom place List.mem_cons_self)
      exact ⟨before, _, hbefore, (ih hend).2 ⟨places, hrest, hbehind⟩⟩

theorem follow_iff : Follow text needles ↔ ∃ places, Placed text needles places := by
  have h : Follow (text.drop 0) needles ↔ _ := follow_drop (Nat.zero_le _)
  simpa using h

/-- Texts are found in order if and only if they have places in that order, whichever these are. If they have none,
the complaint is about the first of them that no places of those before it leave room for. -/
theorem inOrder_iff_placed (text : String) (needles : List String) :
    (inOrder text needles = .ok () ↔ ∃ places, Placed text.toList needles places) ∧
    ∀ message, inOrder text needles = .error message → ∃ front needle back passed,
      message = "Expected \x27" ++ needle ++ "\x27 after byte " ++ toString (passed : Nat) ++ "\nActual: " ++ text ∧
      needles = front ++ needle :: back ∧ (∃ places, Placed text.toList front places) ∧
      ¬ ∃ places, Placed text.toList (front ++ [needle]) places := by
  rw [← follow_iff, ← firstMissing?_eq_none 0]
  unfold inOrder
  cases h : firstMissing? 0 text.toList needles with
  | none => exact ⟨iff_of_true rfl rfl, nofun⟩
  | some missing =>
    obtain ⟨needle, passed⟩ := missing
    obtain ⟨front, back, hneedles, hfront, hmissed⟩ := firstMissing?_eq_some h
    refine ⟨iff_of_false nofun nofun, ?_⟩
    rintro message ⟨⟩
    exact ⟨front, needle, back, passed, rfl, hneedles, follow_iff.1 hfront, mt follow_iff.2 hmissed⟩

/-- Three letters have room for one and two of them, but not for two and two, wherever these are looked for. -/
theorem inOrder_iff_placed_letters :
    inOrder "aaa" ["a", "aa"] = .ok () ∧ (∃ places, Placed "aaa".toList ["a", "aa"] places) ∧
    inOrder "aaa" ["aa", "aa"] = .error "Expected \x27aa\x27 after byte 2\nActual: aaa" ∧
    (¬ ∃ places, Placed "aaa".toList ["aa", "aa"] places) ∧
    ∃ front needle back, ["aa", "aa"] = front ++ needle :: back ∧
      ¬ ∃ places, Placed "aaa".toList (front ++ [needle]) places := by
  have hmet : inOrder "aaa" ["a", "aa"] = .ok () := by decide
  have hmissed : inOrder "aaa" ["aa", "aa"] = .error "Expected \x27aa\x27 after byte 2\nActual: aaa" := by decide
  obtain ⟨front, needle, back, -, -, hneedles, -, hfirst⟩ := (inOrder_iff_placed _ _).2 _ hmissed
  refine ⟨hmet, (inOrder_iff_placed _ _).1.1 hmet, hmissed, fun hplaced => ?_, front, needle, back, hneedles, hfirst⟩
  rw [(inOrder_iff_placed _ _).1.2 hplaced] at hmissed
  cases hmissed

end Expect
end Listing
