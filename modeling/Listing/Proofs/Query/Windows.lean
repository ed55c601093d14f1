import Listing.Proofs.Query.Served
/-!
# Windows

The statement of a page ends with its window: how many rows are fetched and how many are skipped. Which pages
are given out, and with which numbers, is `page_window`. The offset is exact and never leaves the signed 64 bits
in which databases take it. The limit is exact but for the greatest size there is, and nothing keeps it in the
signed 64 bits except a cap on the size of pages (`page_leaves_range`).
-/
namespace Listing

/-- The size of the pages for a wished one. -/
def PageLimits.capped (l : PageLimits) (size : UInt64) : Nat := min size.toNat l.max.toNat

theorem one_le_iff {n : UInt64} : 1 ≤ n ↔ n ≠ 0 := by
  rw [UInt64.le_iff_toNat_le, UInt64.toNat_one, ne_eq, ← UInt64.toNat_inj, UInt64.toNat_zero]
  omega

theorem PageLimits.sizeFor_iff {l : PageLimits} {page size s : UInt64} :
    l.sizeFor page size = .ok s ↔ 1 ≤ page ∧ 1 ≤ size ∧ s.toNat = l.capped size := by
  rw [one_le_iff, one_le_iff, sizeFor]
  by_cases hpage : page = 0
  · simp [hpage]
  by_cases hsize : size = 0
  · simp [hpage, hsize]
  have hcapped : (if size > l.max then l.max else size).toNat = l.capped size := by
    unfold capped
    split
    · next h => rw [gt_iff_lt, UInt64.lt_iff_toNat_lt] at h; omega
    · next h => rw [gt_iff_lt, UInt64.lt_iff_toNat_lt] at h; omega
  rw [if_neg hpage, if_neg hsize, Except.ok.injEq, ← UInt64.toNat_inj, hcapped]
  simp [hpage, hsize, eq_comm]

/-- A capped size is one of 64 bits. -/
theorem PageLimits.exists_capped (l : PageLimits) (size : UInt64) : ∃ s : UInt64, s.toNat = l.capped size := by
  by_cases h : size.toNat ≤ l.max.toNat
  · exact ⟨size, (Nat.min_eq_left h).symm⟩
  · exact ⟨l.max, (Nat.min_eq_right (Nat.le_of_not_le h)).symm⟩

/-- Where a limit counts one row more than the page, and where it is a signed number of 64 bits. -/
theorem pageLimit_range (size : UInt64) :
    (pageLimit size = size.toNat + 1 ↔ size.toNat + 1 < UInt64.size) ∧
      (pageLimit size ≤ maxOffset ↔ size.toNat < maxOffset) := by
  have hsize := size.toNat_lt
  simp only [pageLimit, maxOffset, UInt64.size]
  omega

namespace Prepared

theorem page_iff {p : Prepared} {page size : UInt64} {b : Bound} :
    p.page page size = .ok b ↔
      1 ≤ page ∧ 1 ≤ size ∧ ∃ s : UInt64, s.toNat = p.limits.capped size ∧ p.pageOfSize page s = .ok b := by
  unfold Prepared.page
  rw [bind_eq_ok]
  constructor
  · rintro ⟨s, hs, hb⟩
    obtain ⟨hpage, hsize, hs⟩ := PageLimits.sizeFor_iff.1 hs
    exact ⟨hpage, hsize, s, hs, hb⟩
  · rintro ⟨hpage, hsize, s, hs, hb⟩
    exact ⟨s, PageLimits.sizeFor_iff.2 ⟨hpage, hsize, hs⟩, hb⟩

theorem exists_pageOfSize {p : Prepared} {page s : UInt64} (hpage : 1 ≤ page) :
    (∃ b, p.pageOfSize page s = .ok b) ↔ (page.toNat - 1) * s.toNat ≤ maxOffset := by
  constructor
  · rintro ⟨b, hb⟩
    obtain ⟨offset, hoffset, -⟩ := bind_eq_ok.1 hb
    obtain ⟨-, rfl, hle⟩ := pageOffset_eq_ok.1 hoffset
    exact hle
  · intro hle
    exact ⟨_, bind_eq_ok.2 ⟨_, pageOffset_eq_ok.2 ⟨one_le_iff.1 hpage, rfl, hle⟩, rfl⟩⟩

/-- Pages are counted from one, sizes too, and no page begins beyond the signed 64 bits; every other page is given
out. Its statement ends with the exact offset. The limit is the row after the page, as far as 64 bits go, and it
stays in the signed 64 bits exactly if the size, capped, is less than the greatest of them. -/
theorem page_window (p : Prepared) (page size : UInt64) :
    ((∃ b, p.page page size = .ok b) ↔
      1 ≤ page ∧ 1 ≤ size ∧ (page.toNat - 1) * p.limits.capped size ≤ maxOffset) ∧
    ∀ b, p.page page size = .ok b → ∃ front limit,
      b.sql = front ++ windowSql limit ((page.toNat - 1) * p.limits.capped size) ∧
      (page.toNat - 1) * p.limits.capped size ≤ maxOffset ∧
      limit = min (p.limits.capped size + 1) (UInt64.size - 1) ∧
      (limit = p.limits.capped size + 1 ↔ p.limits.capped size + 1 < UInt64.size) ∧
      (limit ≤ maxOffset ↔ p.limits.capped size < maxOffset) := by
  refine ⟨⟨?_, ?_⟩, ?_⟩
  · rintro ⟨b, hb⟩
    obtain ⟨hpage, hsize, s, hs, hb⟩ := page_iff.1 hb
    rw [← hs]
    exact ⟨hpage, hsize, (exists_pageOfSize hpage).1 ⟨b, hb⟩⟩
  · rintro ⟨hpage, hsize, hle⟩
    obtain ⟨s, hs⟩ := p.limits.exists_capped size
    rw [← hs] at hle
    obtain ⟨b, hb⟩ := (exists_pageOfSize (p := p) hpage).2 hle
    exact ⟨b, page_iff.2 ⟨hpage, hsize, s, hs, hb⟩⟩
  · intro b hb
    obtain ⟨hpage, -, s, hs, hb⟩ := page_iff.1 hb
    obtain ⟨front, hfront⟩ := pageOfSize_sql hb
    rw [← hs]
    exact ⟨front, pageLimit s, hfront, (exists_pageOfSize hpage).1 ⟨b, hb⟩, rfl, pageLimit_range s⟩

end Prepared

/-- A list of lakes whose pages may have any size. -/
def lakes : Prepared :=
  { statement := .base [⟨"name", "l.name"⟩] "lake" (some "l") [] [] []
    parameters := .empty
    order := []
    platform := .postgres
    limits := { max := 0xFFFFFFFFFFFFFFFF }
    aggregated := false }

/-- The greatest signed number of 64 bits is given out as a size, with a limit beyond it, and the greatest size of
all with a limit that is no longer one row more. The second page of such a size begins beyond the signed 64 bits,
and it is refused. -/
theorem Prepared.page_leaves_range :
    lakes.page 1 9223372036854775807 =
      .ok ⟨"SELECT l.name AS \"name\" FROM \"lake\" AS \"l\" LIMIT 9223372036854775808 OFFSET 0", []⟩ ∧
    maxOffset < 9223372036854775808 ∧
    lakes.page 1 18446744073709551615 =
      .ok ⟨"SELECT l.name AS \"name\" FROM \"lake\" AS \"l\" LIMIT 18446744073709551615 OFFSET 0", []⟩ ∧
    lakes.limits.capped 18446744073709551615 + 1 = 18446744073709551616 ∧
    lakes.page 2 18446744073709551615 = .error (.pageOutOfRange 2) := by
  refine ⟨rfl, by decide, rfl, rfl, rfl⟩

end Listing
