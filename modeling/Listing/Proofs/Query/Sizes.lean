import Listing.Proofs.Config
import Listing.Proofs.Query.Calls
import Listing.Proofs.Query.Windows
/-!
# Sizes of pages

The number of pages is a quotient by their size. A size may be zero: any wish for at least one row is admitted, and a
list that gives out no rows cuts it. `run_fetch_eq_divisionByZero` says which exchanges come to that division. The
limits of an accepted configuration begin at one, so that behind them none does, and every size that is reported is
one that the list gives out (`fetch_divides`).
-/
namespace Listing

namespace PageLimits

variable {l : PageLimits} {size : UInt64}

/-- Only a list that gives out no rows cuts a size to zero. -/
theorem capped_eq_zero (hsize : 1 ≤ size) : l.capped size = 0 ↔ l.max = 0 := by
  rw [UInt64.le_iff_toNat_le, UInt64.toNat_one] at hsize
  rw [capped, ← UInt64.toNat_inj, UInt64.toNat_zero]
  omega

theorem capped_le_max : l.capped size ≤ l.max.toNat := Nat.min_le_right ..

end PageLimits

namespace Prepared

variable {p : Prepared} {r : PageRequest} {e : Executor}

/-! ## Answers to the rows -/

theorem run_counted_eq_divisionByZero {rows : List Row} {n : Navigation} {total : Nat} :
    ((counted rows n total).run e).1 = .error .divisionByZero ↔ n.size = 0 := by
  unfold counted
  split
  · next hsize => simp [Exchange.refuse, hsize]
  · next hsize => simp [hsize]

/-- With the rows at hand pages are counted if the number of all rows is asked for, and known or found out. -/
theorem run_received_eq_divisionByZero {size : UInt64} {found : List Row} :
    ((p.received r size found).run e).1 = .error .divisionByZero ↔
      size = 0 ∧ r.navigation = true ∧ r.totalCount = true ∧
        ((∃ total, e.count p.count = some total) ∨ r.page = 1 ∧ found = []) := by
  simp only [received]
  cases r.navigation with
  | false => simp
  | true =>
    cases r.totalCount with
    | false => simp
    | true =>
      simp only [Bool.not_true, Bool.false_eq_true, if_false, true_and]
      split
      · -- the database counts the rows, and may fail
        next hasks =>
        rw [Exchange.run_count]
        cases hcount : e.count p.count with
        | none =>
          simp only [Exchange.refuse, Exchange.run_done, Except.error.injEq, reduceCtorEq, false_iff]
          rintro ⟨rfl, ⟨_, hnone⟩ | ⟨hpage, rfl⟩⟩
          · cases hnone
          · simp [hpage] at hasks
        | some total => simp [run_counted_eq_divisionByZero]
      · -- all rows are on the first page
        next hall =>
        rw [run_counted_eq_divisionByZero]
        refine ⟨fun hsize => ⟨hsize, .inr ?_⟩, fun h => h.1⟩
        have hsize' : size = 0 := hsize
        simpa [hsize', List.length_pos_iff] using hall

theorem size_of_run_counted {rows : List Row} {n n' : Navigation} {total : Nat} {result : PageResult}
    (h : ((counted rows n total).run e).1 = .ok result) (hn : result.navigation = some n') : n'.size = n.size := by
  unfold counted at h
  split at h
  · cases h
  · cases h
    cases hn
    rfl

/-- What is reported about a page has its size. -/
theorem size_of_run_received {size : UInt64} {found : List Row} {result : PageResult} {n : Navigation}
    (h : ((p.received r size found).run e).1 = .ok result) (hn : result.navigation = some n) : n.size = size := by
  simp only [received] at h
  split at h
  · cases h
    cases hn
  · split at h
    · cases h
      cases hn
      rfl
    · split at h
      · rw [Exchange.run_count] at h
        cases hcount : e.count p.count with
        | none =>
          rw [hcount] at h
          cases h
        | some total =>
          rw [hcount] at h
          exact size_of_run_counted h hn
      · exact size_of_run_counted h hn

/-! ## Exchanges -/

/-- A page that is refused is the client's fault. -/
theorem raises_page (page size : UInt64) : Raises (fun err => err.kind = .validation) (p.page page size) := by
  refine Raises.bind ?_ fun s _ => Raises.bind ?_ fun _ _ => raises_pure _ _
  · unfold PageLimits.sizeFor
    repeat' split
    all_goals simp [Error.kind]
  · simp only [pageOffset]
    split <;> simp [Error.kind]

/-- An exchange is refused for its page, fails at the rows, or goes on with the rows and the capped size. -/
theorem run_fetch_cases (p : Prepared) (r : PageRequest) (e : Executor) :
    (∃ err, p.page r.page (r.size.getD p.limits.default) = .error err ∧ ((p.fetch r).run e).1 = .error err) ∨
    ∃ b, p.page r.page (r.size.getD p.limits.default) = .ok b ∧
      (e.rows b = none ∧ ((p.fetch r).run e).1 = .error .database ∨
        ∃ found size, e.rows b = some found ∧ size.toNat = p.limits.capped (r.size.getD p.limits.default) ∧
          ((p.fetch r).run e).1 = ((p.received r size found).run e).1) := by
  cases hpage : p.page r.page (r.size.getD p.limits.default) with
  | error err => exact .inl ⟨err, rfl, by rw [fetch_of_page_eq_error hpage]; rfl⟩
  | ok b =>
    refine .inr ⟨b, rfl, ?_⟩
    obtain ⟨size, hsize, hb⟩ := bind_eq_ok.1 hpage
    cases hrows : e.rows b with
    | none =>
      left
      simp [fetch, hsize, hb, hrows, Exchange.refuse]
    | some found =>
      refine .inr ⟨found, size, rfl, (PageLimits.sizeFor_iff.1 hsize).2.2, ?_⟩
      simp [fetch, hsize, hb, hrows]

/-- The division is reached on lists that give out no rows, with an admitted page whose rows were read, if all rows
are to be counted, and either the database counts them or the first page has shown that there are none. -/
theorem run_fetch_eq_divisionByZero :
    ((p.fetch r).run e).1 = .error .divisionByZero ↔
      p.limits.max = 0 ∧ 1 ≤ r.page ∧ 1 ≤ r.size.getD p.limits.default ∧
        r.navigation = true ∧ r.totalCount = true ∧
        ∃ b found, p.page r.page (r.size.getD p.limits.default) = .ok b ∧ e.rows b = some found ∧
          ((∃ total, e.count p.count = some total) ∨ r.page = 1 ∧ found = []) := by
  rcases run_fetch_cases p r e with ⟨err, hpage, hrun⟩ | ⟨b, hpage, ⟨hrows, hrun⟩ | ⟨found, size, hrows, hsize, hrun⟩⟩
  · have hkind := raises_page _ _ err hpage
    have hne : err ≠ .divisionByZero := by
      rintro rfl
      cases hkind
    simp [hrun, hpage, hne]
  · simp [hrun, hpage, hrows]
  · obtain ⟨hone, hpositive, -⟩ := page_iff.1 hpage
    have hzero : size = 0 ↔ p.limits.max = 0 := by
      rw [← UInt64.toNat_inj, hsize, UInt64.toNat_zero, PageLimits.capped_eq_zero hpositive]
    rw [hrun, run_received_eq_divisionByZero, hzero]
    constructor
    · rintro ⟨hmax, hnavigation, hcount, htotal⟩
      exact ⟨hmax, hone, hpositive, hnavigation, hcount, b, found, hpage, hrows, htotal⟩
    · rintro ⟨hmax, -, -, hnavigation, hcount, b', found', hpage', hrows', htotal⟩
      obtain rfl := Except.ok.inj (hpage.symm.trans hpage')
      obtain rfl := Option.some.inj (hrows.symm.trans hrows')
      exact ⟨hmax, hnavigation, hcount, htotal⟩

/-- A size that is reported is one that the list gives out. -/
theorem size_of_run_fetch {result : PageResult} {n : Navigation} (h : ((p.fetch r).run e).1 = .ok result)
    (hn : result.navigation = some n) (hmax : 1 ≤ p.limits.max) : 1 ≤ n.size ∧ n.size ≤ p.limits.max := by
  rcases run_fetch_cases p r e with ⟨err, -, hrun⟩ | ⟨b, hpage, ⟨-, hrun⟩ | ⟨found, size, -, hsize, hrun⟩⟩
  · rw [hrun] at h
    cases h
  · rw [hrun] at h
    cases h
  · rw [hrun] at h
    obtain ⟨-, hpositive, -⟩ := page_iff.1 hpage
    rw [size_of_run_received h hn, UInt64.le_iff_toNat_le (b := p.limits.max), hsize]
    refine ⟨one_le_iff.2 fun hzero => ?_, PageLimits.capped_le_max⟩
    rw [hzero, UInt64.toNat_zero, eq_comm, PageLimits.capped_eq_zero hpositive] at hsize
    exact one_le_iff.1 hmax hsize

/-- Pages are divided by a size of zero on lists that give out no rows, and the list of a configuration gives out
some. -/
theorem fetch_divides (p : Prepared) (r : PageRequest) (e : Executor) :
    (((p.fetch r).run e).1 = .error .divisionByZero ↔
      p.limits.max = 0 ∧ 1 ≤ r.page ∧ 1 ≤ r.size.getD p.limits.default ∧
        r.navigation = true ∧ r.totalCount = true ∧
        ∃ b found, p.page r.page (r.size.getD p.limits.default) = .ok b ∧ e.rows b = some found ∧
          ((∃ total, e.count p.count = some total) ∨ r.page = 1 ∧ found = [])) ∧
    ∀ env config, Config.ofEnvironment env = .ok config →
      1 ≤ config.pageLimits.default ∧ config.pageLimits.default ≤ config.pageLimits.max ∧
        (p.limits = config.pageLimits → ((p.fetch r).run e).1 ≠ .error .divisionByZero ∧
          ∀ result n, ((p.fetch r).run e).1 = .ok result → result.navigation = some n →
            1 ≤ n.size ∧ n.size ≤ config.pageLimits.max) := by
  refine ⟨run_fetch_eq_divisionByZero, fun env config hconfig => ?_⟩
  obtain ⟨hdefault, hle⟩ := Config.limits_of_ofEnvironment hconfig
  refine ⟨hdefault, hle, fun hlimits => ?_⟩
  have hmax : 1 ≤ p.limits.max := hlimits ▸ UInt64.le_trans hdefault hle
  refine ⟨fun hdivides => ?_, fun result n h hn => hlimits ▸ size_of_run_fetch h hn hmax⟩
  exact one_le_iff.1 hmax (run_fetch_eq_divisionByZero.1 hdivides).1

end Prepared

/-- A list of meadows with limits of its pages. -/
def meadows (limits : PageLimits) : Prepared :=
  { statement := .base [⟨"name", "m.name"⟩] "meadow" (some "m") [] [] []
    parameters := .empty
    order := []
    platform := .sqlite
    limits
    aggregated := false }

def noRows : MemoryTable := { rows := [] }

/-- Where pages have twenty rows at most. -/
def twentyAtMost : Config.Environment := fun name => if name = "SPS_MAX_ITEMS_PER_PAGE" then some "20" else none

/-- Without a single meadow the first page divides by zero if the list gives out no rows, and it does not if the list
is configured. -/
theorem Prepared.fetch_divides_meadows :
    (((meadows { max := 0 }).fetch { size := some 30, totalCount := true }).run noRows.executor).1 =
      .error .divisionByZero ∧
    ∃ config, Config.ofEnvironment twentyAtMost = .ok config ∧ config.pageLimits = ⟨20, 20⟩ ∧
      (((meadows config.pageLimits).fetch { size := some 30, totalCount := true }).run noRows.executor).1 ≠
        .error .divisionByZero := by
  have hconfig : Config.ofEnvironment twentyAtMost = .ok { itemsPerPage := 20, maxItemsPerPage := 20 } := rfl
  refine ⟨(fetch_divides _ _ _).1.2 ⟨rfl, by decide, by decide, rfl, rfl, _, [], rfl, rfl, .inr ⟨rfl, rfl⟩⟩,
    _, hconfig, rfl, ?_⟩
  exact (((fetch_divides _ _ _).2 _ _ hconfig).2.2 rfl).1

end Listing
