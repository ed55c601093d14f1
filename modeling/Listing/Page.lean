import Listing.Error
/-!
# Pages

Pages are counted from one. A list caps the size of its pages, and a page may not begin so far down
that the count of skipped rows leaves the signed 64 bits in which databases take it.
-/
namespace Listing

/-- The page size of a list when a request names none, and the greatest it gives out. -/
structure PageLimits where
  default : UInt64 := 50
  max : UInt64 := 500
deriving DecidableEq, Repr, Inhabited

namespace PageLimits

/-- The page size that is used for the one asked for. -/
def sizeFor (l : PageLimits) (page size : UInt64) : Except Error UInt64 :=
  if page = 0 then .error .pageTooSmall
  else if size = 0 then .error .sizeTooSmall
  else .ok (if size > l.max then l.max else size)

end PageLimits

/-- The greatest offset that databases take. -/
def maxOffset : Nat := 9223372036854775807

/-- The count of rows before a page. -/
def pageOffset (page size : UInt64) : Except Error Nat :=
  let offset := (page.toNat - 1) * size.toNat
  if page = 0 ∨ maxOffset < offset then .error (.pageOutOfRange page.toNat) else .ok offset

/-- One row more than the page holds, as far as 64 bits go: it tells whether another page follows. -/
def pageLimit (size : UInt64) : Nat := min (size.toNat + 1) (UInt64.size - 1)

theorem pageOffset_eq_ok {page size : UInt64} {n : Nat} :
    pageOffset page size = .ok n ↔
      page ≠ 0 ∧ n = (page.toNat - 1) * size.toNat ∧ n ≤ maxOffset := by
  simp only [pageOffset]
  split
  · next h =>
    simp only [reduceCtorEq, false_iff]
    rintro ⟨h₁, rfl, h₂⟩
    exact h.elim h₁ (Nat.not_lt.2 h₂)
  · next h =>
    rw [not_or, Nat.not_lt] at h
    constructor
    · intro e
      cases e
      exact ⟨h.1, rfl, h.2⟩
    · rintro ⟨-, rfl, -⟩
      rfl

end Listing
