import Mathlib.Algebra.Order.Floor.Div
import Listing.Proofs.Query.Served
/-!
# Paging

On a page of size `s` an executor that heeds limits shows the `s` rows behind those of the pages before,
and the row fetched past them tells whether more follow (`run_fetch`). So the pages one after the other
are the whole table (`fetch_pages`).
-/
namespace Listing

/-! ## One page -/

/-- A table's page of a size, and where it stands. -/
def PageResult.shown (table : List Row) (page size : UInt64) (totalCount : Bool) : PageResult :=
  let rows := (table.drop ((page.toNat - 1) * size.toNat)).take size.toNat
  ⟨rows, some {
    size, page
    more := page.toNat * size.toNat < table.length
    rowsOnPage := rows.length
    totalRows := if totalCount then some table.length else none
    totalPages := if totalCount then some (table.length ⌈/⌉ size.toNat) else none }⟩

/-- The size of a request's pages. -/
def PageLimits.sizeOf (l : PageLimits) (r : PageRequest) : UInt64 :=
  let size := r.size.getD l.default
  if size > l.max then l.max else size

theorem PageLimits.toNat_sizeOf (l : PageLimits) (r : PageRequest) :
    (l.sizeOf r).toNat = min (r.size.getD l.default).toNat l.max.toNat := by
  simp only [sizeOf]
  split
  · next h => rw [gt_iff_lt, UInt64.lt_iff_toNat_lt] at h; omega
  · next h => rw [gt_iff_lt, UInt64.lt_iff_toNat_lt] at h; omega

theorem PageLimits.sizeFor_eq_ok {l : PageLimits} {r : PageRequest} (hpage : 1 ≤ r.page)
    (hsize : 1 ≤ r.size.getD l.default) :
    l.sizeFor r.page (r.size.getD l.default) = .ok (l.sizeOf r) := by
  have hpage' : r.page ≠ 0 := by rintro h; rw [h] at hpage; exact absurd hpage (by decide)
  have hsize' : r.size.getD l.default ≠ 0 := by intro h; rw [h] at hsize; exact absurd hsize (by decide)
  rw [sizeFor, if_neg hpage', if_neg hsize', sizeOf]

section
variable {p : Prepared} {e : Executor} {table : List Row}

theorem pageLimit_lt (size : UInt64) : pageLimit size < UInt64.size := by
  simp only [pageLimit, UInt64.size]
  omega

/-- The rows that a page statement fetches: those of the page and one more. -/
theorem Executor.Serves.rows_page (h : e.Serves p table) {page size : UInt64} {b : Bound}
    (hb : p.pageOfSize page size = .ok b) :
    e.rows b = some ((table.drop ((page.toNat - 1) * size.toNat)).take (pageLimit size)) := by
  obtain ⟨front, hfront⟩ := Prepared.pageOfSize_sql hb
  obtain ⟨offset, hoffset, -⟩ := bind_eq_ok.1 hb
  obtain ⟨-, -, hmax⟩ := pageOffset_eq_ok.1 hoffset
  have hlimit : (UInt64.ofNat (pageLimit size)).toNat = pageLimit size :=
    UInt64.toNat_ofNat_of_lt' (pageLimit_lt size)
  have hoffset : (UInt64.ofNat ((page.toNat - 1) * size.toNat)).toNat = (page.toNat - 1) * size.toNat := by
    refine UInt64.toNat_ofNat_of_lt' ?_
    obtain ⟨-, rfl, hle⟩ := pageOffset_eq_ok.1 hoffset
    simp only [maxOffset, UInt64.size] at *
    omega
  rw [← hlimit, ← hoffset] at hfront ⊢
  exact h.rows hb front _ _ hfront

/-- Where a page ends. -/
theorem page_end {page : Nat} (h : 1 ≤ page) (size : Nat) : (page - 1) * size + size = page * size := by
  rw [← Nat.succ_mul, Nat.succ_eq_add_one, Nat.sub_add_cancel h]

/-- A row past the page was fetched if the table goes on behind it. The limit falls short of that row only
where the page is longer than any table. -/
theorem lt_length_found {page : UInt64} (hpage : 1 ≤ page.toNat) (size : UInt64)
    (hlength : table.length ≤ maxOffset) :
    size.toNat < ((table.drop ((page.toNat - 1) * size.toNat)).take (pageLimit size)).length ↔
      page.toNat * size.toNat < table.length := by
  have hend := page_end hpage size.toNat
  have hsize := size.toNat_lt
  simp only [List.length_take, List.length_drop, pageLimit, maxOffset, UInt64.size] at *
  omega

theorem take_found (page size : UInt64) :
    (((table.drop ((page.toNat - 1) * size.toNat)).take (pageLimit size)).take size.toNat) =
      (table.drop ((page.toNat - 1) * size.toNat)).take size.toNat := by
  have hsize := size.toNat_lt
  have hle : size.toNat ≤ pageLimit size := by
    simp only [pageLimit, UInt64.size]
    omega
  rw [List.take_take, Nat.min_eq_left hle]

/-- The count, asked for or spared, is the number of the table's rows. -/
theorem run_counted {rows : List Row} {n : Navigation} (hn : n.size.toNat ≠ 0) (total : Nat) :
    ((Prepared.counted rows n total).run e).1 = .ok ⟨rows, some
      { n with totalRows := some total, totalPages := some (total ⌈/⌉ n.size.toNat) }⟩ := by
  have hsize : n.size ≠ 0 := by
    rintro h
    rw [h] at hn
    exact hn rfl
  rw [Prepared.counted, if_neg hsize, Exchange.run_done, Nat.ceilDiv_eq_add_pred_div]
  rfl

theorem PageLimits.sizeOf_pos {l : PageLimits} {r : PageRequest} (hmax : 1 ≤ l.max)
    (hsize : 1 ≤ r.size.getD l.default) : 0 < (l.sizeOf r).toNat := by
  rw [UInt64.le_iff_toNat_le, UInt64.toNat_one] at hmax hsize
  rw [toNat_sizeOf]
  omega

/-- A page that a list can give out shows its rows of the table. -/
theorem run_fetch (h : e.Serves p table) (hlength : table.length ≤ maxOffset) (hmax : 1 ≤ p.limits.max)
    {r : PageRequest} (hpage : 1 ≤ r.page) (hsize : 1 ≤ r.size.getD p.limits.default)
    (hnavigation : r.navigation = true)
    (hoffset : (r.page.toNat - 1) * (p.limits.sizeOf r).toNat ≤ maxOffset) :
    ((p.fetch r).run e).1 = .ok (.shown table r.page (p.limits.sizeOf r) r.totalCount) := by
  have hpositive : (p.limits.sizeOf r).toNat ≠ 0 := (PageLimits.sizeOf_pos hmax hsize).ne'
  have hpage' : 1 ≤ r.page.toNat := by simpa [UInt64.le_iff_toNat_le] using hpage
  have hnonzero : r.page ≠ 0 := by
    intro hzero
    rw [hzero] at hpage'
    exact absurd hpage' (by decide)
  have hfirst := PageLimits.sizeFor_eq_ok hpage hsize
  generalize p.limits.sizeOf r = size at *
  obtain ⟨b, hb⟩ : ∃ b, p.pageOfSize r.page size = .ok b :=
    ⟨_, bind_eq_ok.2 ⟨_, pageOffset_eq_ok.2 ⟨hnonzero, rfl, hoffset⟩, rfl⟩⟩
  have hmore := lt_length_found hpage' size hlength
  simp only [Prepared.fetch, hfirst, hb, Exchange.run_rows, h.rows_page hb, Prepared.received, take_found,
    hmore, hnavigation, Bool.not_true, Bool.false_eq_true, if_false]
  cases hcount : r.totalCount with
  | false => simp [PageResult.shown]
  | true =>
    simp only [Bool.not_true, Bool.false_eq_true, if_false]
    split
    · -- the rows are counted by the database
      have htotal : (Int64.ofNat table.length).toInt.toNat = table.length := by
        rw [Int64.toInt_ofNat_of_lt (by simp only [maxOffset] at hlength; omega), Int.toNat_natCast]
      simp only [Exchange.run_count, h.count, htotal]
      rw [run_counted hpositive]
      rfl
    · -- all rows are on the first page
      next hskip =>
      simp only [Bool.or_eq_true, decide_eq_true_eq, not_or, ne_eq, not_not] at hskip
      obtain ⟨hone, hall⟩ := hskip
      have htotal : ((table.drop ((r.page.toNat - 1) * size.toNat)).take size.toNat).length = table.length := by
        rw [hone, UInt64.toNat_one, Nat.one_mul] at hall
        rw [hone, UInt64.toNat_one, Nat.sub_self, Nat.zero_mul, List.drop_zero, List.length_take]
        omega
      rw [htotal, run_counted hpositive]
      simp only [PageResult.shown, htotal]
      rfl

/-! ## All pages -/

/-- Stretches of one length, one behind the other. -/
theorem flatMap_stretches {α : Type} (xs : List α) (size count : Nat) :
    ((List.range count).flatMap fun i => (xs.drop (i * size)).take size) = xs.take (count * size) := by
  induction count with
  | zero => simp
  | succ count ih =>
    rw [List.range_succ, List.flatMap_append, ih, Nat.succ_mul, List.take_add]
    simp

/-- Exactly the pages before the last end inside of the table. -/
theorem lt_ceilDiv {rows size i : Nat} (hsize : 0 < size) : i < rows ⌈/⌉ size ↔ i * size < rows := by
  have h := ceilDiv_le_iff_le_mul (b := rows) (c := i) hsize
  rw [Nat.mul_comm] at h
  omega

/-- Every page in reach shows its rows of the table. The pages from the first on, as many as the size goes
into the table, are the whole table in order, and all but the last say that more follow. -/
theorem fetch_pages (h : e.Serves p table) (hlength : table.length ≤ maxOffset) (hmax : 1 ≤ p.limits.max)
    {r : PageRequest} (hsize : 1 ≤ r.size.getD p.limits.default) (hnavigation : r.navigation = true) :
    (∀ page : UInt64, 1 ≤ page → (page.toNat - 1) * (p.limits.sizeOf r).toNat ≤ maxOffset →
      ((p.fetch { r with page }).run e).1 = .ok (.shown table page (p.limits.sizeOf r) r.totalCount)) ∧
    ∃ results : List PageResult, results.length = table.length ⌈/⌉ (p.limits.sizeOf r).toNat ∧
      (∀ i (hi : i < results.length), ∃ page : UInt64, page.toNat = i + 1 ∧
        ((p.fetch { r with page }).run e).1 = .ok results[i]) ∧
      results.flatMap PageResult.rows = table ∧
      ∀ i (hi : i < results.length), results[i].navigation.map Navigation.more =
        some (decide (i + 1 < results.length)) := by
  have hpage : ∀ page : UInt64, 1 ≤ page → (page.toNat - 1) * (p.limits.sizeOf r).toNat ≤ maxOffset →
      ((p.fetch { r with page }).run e).1 = .ok (.shown table page (p.limits.sizeOf r) r.totalCount) :=
    fun page h1 hoffset => run_fetch h hlength hmax (r := { r with page }) h1 hsize hnavigation hoffset
  refine ⟨hpage, ?_⟩
  have hpositive : 0 < (p.limits.sizeOf r).toNat := PageLimits.sizeOf_pos hmax hsize
  generalize p.limits.sizeOf r = size at *
  have hinside : ∀ i, i < table.length ⌈/⌉ size.toNat → i * size.toNat < table.length := fun i hi =>
    (lt_ceilDiv hpositive).1 hi
  have hnumber : ∀ i, i < table.length ⌈/⌉ size.toNat → (UInt64.ofNat (i + 1)).toNat = i + 1 := by
    intro i hi
    refine UInt64.toNat_ofNat_of_lt' ?_
    have hle : i * 1 ≤ i * size.toNat := Nat.mul_le_mul_left i hpositive
    have := hinside i hi
    simp only [maxOffset, UInt64.size] at *
    omega
  refine ⟨(List.range (table.length ⌈/⌉ size.toNat)).map fun i =>
    .shown table (.ofNat (i + 1)) size r.totalCount, by simp, ?_, ?_, ?_⟩
  · intro i hi
    rw [List.length_map, List.length_range] at hi
    refine ⟨.ofNat (i + 1), hnumber i hi, ?_⟩
    rw [List.getElem_map, List.getElem_range]
    refine hpage _ ?_ ?_
    · rw [UInt64.le_iff_toNat_le, hnumber i hi, UInt64.toNat_one]
      omega
    · rw [hnumber i hi, Nat.add_sub_cancel]
      have := hinside i hi
      omega
  · have hrows : ((List.range (table.length ⌈/⌉ size.toNat)).map fun i =>
          PageResult.shown table (.ofNat (i + 1)) size r.totalCount).flatMap PageResult.rows =
        (List.range (table.length ⌈/⌉ size.toNat)).flatMap fun i => (table.drop (i * size.toNat)).take size.toNat := by
      rw [List.flatMap_map]
      refine List.flatMap_congr fun i hi => ?_
      simp only [PageResult.shown, hnumber i (List.mem_range.1 hi), Nat.add_sub_cancel]
    rw [hrows, flatMap_stretches, List.take_of_length_le]
    rw [Nat.mul_comm, ← ceilDiv_le_iff_le_mul hpositive]
  · intro i hi
    rw [List.length_map, List.length_range] at hi
    simp only [List.getElem_map, List.getElem_range, List.length_map, List.length_range, PageResult.shown,
      Option.map_some, hnumber i hi, lt_ceilDiv hpositive]

end

/-- A list of rivers, not more than three on a page. -/
def rivers : Prepared :=
  { statement := .base [⟨"name", "r.name"⟩] "river" (some "r") [] [] []
    parameters := .empty
    order := [⟨"r.name", .asc⟩]
    platform := .postgres
    limits := { max := 3 }
    aggregated := false }

def fourRivers : MemoryTable :=
  { rows := ["Aare", "Doubs", "Inn", "Linth"].map fun name => [("name", Json.str name)] }

theorem fetch_pages_rivers :
    fourRivers.executor.Serves rivers fourRivers.rows ∧
    (∀ page : UInt64, 1 ≤ page → (page.toNat - 1) * 3 ≤ maxOffset →
      ((rivers.fetch { page, size := some 1000, totalCount := true }).run fourRivers.executor).1 =
        .ok (.shown fourRivers.rows page 3 true)) ∧
    ∃ results : List PageResult, results.length = 2 ∧ results.flatMap PageResult.rows = fourRivers.rows ∧
      ∀ i (hi : i < results.length), results[i].navigation.map Navigation.more = some (decide (i + 1 < 2)) := by
  have hserves := MemoryTable.serves_executor (t := fourRivers) rfl rfl rfl rfl rivers
  have hpages := fetch_pages hserves (by decide) (by decide)
    (r := { size := some 1000, totalCount := true }) (by decide) rfl
  obtain ⟨hpage, results, hlength, -, hrows, hmore⟩ := hpages
  have htwo : results.length = 2 := hlength
  refine ⟨hserves, hpage, results, htwo, hrows, fun i hi => ?_⟩
  rw [hmore i hi, htwo]

end Listing
