import Mathlib
import Listing.Proofs.Filter.Refusals
import Listing.Proofs.Query.Paging
/-!
# Calls of a request

Whatever is wrong with a request is found before the first call (`ListQuery.Refuses`). A request that is
not refused asks for the rows once, and for their count at most once, after the rows. A call that fails ends
the exchange, and nothing else makes an error of the database (`run_keepsTo`).
-/
namespace Listing

/-! ## Errors before the first call -/

theorem Column.raises_ofDeclaration (declaration : String) : Raises Error.Early (ofDeclaration declaration) := by
  unfold ofDeclaration
  repeat' split
  all_goals simp [Error.Early, Error.kind]

theorem Skeleton.raises_statement (s : Skeleton) : Raises Error.Early s.statement := by
  have hcolumns : ∀ entries, Raises Error.Early (columnsOf entries) := by
    intro entries
    induction entries with
    | nil => simp [columnsOf]
    | cons entry rest ih => exact (Column.raises_ofDeclaration entry).bind fun _ _ => ih.bind fun _ _ => raises_pure _ _
  unfold statement
  split
  · simp [Error.Early, Error.kind]
  · split
    · simp [Error.Early, Error.kind]
    · exact (hcolumns s.select).bind fun _ _ => raises_pure _ _

theorem PageLimits.raises_sizeFor (l : PageLimits) (page size : UInt64) : Raises Error.Early (l.sizeFor page size) := by
  unfold sizeFor
  repeat' split
  all_goals simp [Error.Early, Error.kind]

theorem raises_pageOffset (page size : UInt64) : Raises Error.Early (pageOffset page size) := by
  simp only [pageOffset]
  split <;> simp [Error.Early, Error.kind]

namespace ListQuery

theorem raises_sortKeys (c : Catalog) (wrapped : Bool) (sort : List SortBy) :
    Raises Error.Early (sortKeys c wrapped sort) := by
  have hkey : ∀ s, Raises Error.Early (keyOf c wrapped s) := by
    intro s
    have hfield : Raises Error.Early (c.sortField s.field) := by
      unfold Catalog.sortField
      repeat' split
      all_goals simp [Error.Early, Error.kind]
    refine hfield.bind fun f _ => ?_
    have hdirection : Raises Error.Early (Direction.parse s.field s.direction) := by
      simp only [Direction.parse]
      repeat' split
      all_goals simp [Error.Early, Error.kind]
    exact hdirection.bind fun _ _ => raises_pure _ _
  have hkeys : ∀ keys, Raises Error.Early (keysFrom c wrapped keys sort) := by
    induction sort with
    | nil => intro keys; exact raises_ok _ _
    | cons s rest ih => intro keys; exact (hkey s).bind fun _ _ => ih _
  exact hkeys []

/-- What a request is refused for: its filter, the list's skeleton, its sort list, its page or the size of its
pages. Each is looked at if all before it is in order. -/
inductive Refuses (q : ListQuery) (r : Request) : Error → Prop
  | check {e : Error} (h : Spec.validate q.catalog r.filters = .error e) : Refuses q r e
  | build {count : Nat} {e : Error} (hcheck : Spec.validate q.catalog r.filters = .ok count)
      (h : Spec.build q.catalog r.filters = .error e) : Refuses q r e
  | skeleton {count : Nat} {filter : Node} {e : Error} (hcheck : Spec.validate q.catalog r.filters = .ok count)
      (hbuild : Spec.build q.catalog r.filters = .ok filter) (h : q.skeleton.statement = .error e) : Refuses q r e
  | sort {count : Nat} {filter : Node} {base : Statement} {e : Error}
      (hcheck : Spec.validate q.catalog r.filters = .ok count)
      (hbuild : Spec.build q.catalog r.filters = .ok filter) (hbase : q.skeleton.statement = .ok base)
      (h : sortKeys q.catalog filter.aggregated r.sort = .error e) : Refuses q r e
  | size {p : Prepared} {e : Error} (hp : q.prepare r.filters r.sort = .ok p)
      (h : q.limits.sizeFor r.page.page (r.page.size.getD q.limits.default) = .error e) : Refuses q r e
  | offset {p : Prepared} {size : UInt64} {e : Error} (hp : q.prepare r.filters r.sort = .ok p)
      (hsize : q.limits.sizeFor r.page.page (r.page.size.getD q.limits.default) = .ok size)
      (h : pageOffset r.page.page size = .error e) : Refuses q r e

variable {q : ListQuery} {r : Request}

theorem Refuses.early {err : Error} (h : q.Refuses r err) : err.Early := by
  cases h with
  | check h => exact (Spec.raises_validate q.catalog).1 r.filters err h
  | build _ h => exact Spec.raises_build q.catalog r.filters 0 err h
  | skeleton _ _ h => exact q.skeleton.raises_statement err h
  | sort _ _ _ h => exact raises_sortKeys q.catalog _ r.sort err h
  | size _ h => exact q.limits.raises_sizeFor _ _ err h
  | offset _ _ h => exact raises_pageOffset _ _ err h

/-- Queries are refused for their filter, skeleton or sort list. -/
theorem refuses_of_prepare {err : Error} (h : q.prepare r.filters r.sort = .error err) : q.Refuses r err := by
  rcases bind_eq_error.1 h with h | ⟨count, hcheck, h⟩
  · exact .check h
  rcases bind_eq_error.1 h with h | ⟨filter, hbuild, h⟩
  · exact .build hcheck h
  rcases bind_eq_error.1 h with h | ⟨base, hbase, h⟩
  · exact .skeleton hcheck hbuild h
  rcases bind_eq_error.1 h with h | ⟨order, _, h⟩
  · exact .sort hcheck hbuild hbase h
  · cases h

theorem limits_of_prepare {p : Prepared} (h : q.prepare r.filters r.sort = .ok p) : p.limits = q.limits := by
  obtain ⟨_, _, h⟩ := bind_eq_ok.1 h
  obtain ⟨_, _, h⟩ := bind_eq_ok.1 h
  obtain ⟨_, _, h⟩ := bind_eq_ok.1 h
  obtain ⟨_, _, h⟩ := bind_eq_ok.1 h
  cases h
  rfl

end ListQuery

/-- The size that is used is that of the request, as far as the list goes. -/
theorem PageLimits.eq_sizeOf {l : PageLimits} {r : PageRequest} {size : UInt64}
    (h : l.sizeFor r.page (r.size.getD l.default) = .ok size) :
    size = l.sizeOf r ∧ 1 ≤ r.size.getD l.default := by
  unfold sizeFor at h
  split at h
  · cases h
  · split at h
    · cases h
    · next hsize =>
      cases h
      refine ⟨rfl, ?_⟩
      rw [UInt64.le_iff_toNat_le, UInt64.toNat_one]
      have hnat : (r.size.getD l.default).toNat ≠ 0 := fun h0 => hsize (UInt64.toNat_inj.1 h0)
      omega

/-! ## The exchange -/

namespace Executor

def Fails (e : Executor) : Call → Prop
  | .rows b => e.rows b = none
  | .count b => e.count b = none

end Executor

/-- Whether the rows of a page leave the number of all rows open, and the request asks for it. -/
def PageRequest.Asks (r : PageRequest) (size : UInt64) (found : List Row) : Prop :=
  r.navigation = true ∧ r.totalCount = true ∧ (r.page ≠ 1 ∨ size.toNat < found.length)

theorem Prepared.fetch_of_page_eq_error {p : Prepared} {r : PageRequest} {err : Error}
    (h : p.page r.page (r.size.getD p.limits.default) = .error err) : p.fetch r = .refuse err := by
  rcases bind_eq_error.1 h with h | ⟨size, hsize, h⟩
  · rw [fetch, h]
  · simp only [fetch, hsize, h]

theorem Prepared.counted_eq {rows : List Row} {n : Navigation} (hn : n.size ≠ 0) (total : Nat) :
    ∃ result : PageResult, result.rows = rows ∧ counted rows n total = .done (.ok result) := by
  rw [counted, if_neg hn]
  exact ⟨_, rfl, rfl⟩

/-- With the rows at hand either the count is asked for, or the answer is there. -/
theorem Prepared.received_cases (p : Prepared) (r : PageRequest) {size : UInt64} (found : List Row) (hsize : size ≠ 0) :
    (r.Asks size found ∧ ∃ next, p.received r size found = .count p.count next ∧ next none = .refuse .database ∧
      ∀ total, ∃ result : PageResult, result.rows = found.take size.toNat ∧ next (some total) = .done (.ok result)) ∨
    (¬ r.Asks size found ∧ ∃ result : PageResult, result.rows = found.take size.toNat ∧
      p.received r size found = .done (.ok result)) := by
  simp only [received, PageRequest.Asks]
  cases r.navigation with
  | false => exact .inr ⟨by simp, _, rfl, rfl⟩
  | true =>
    cases r.totalCount with
    | false => exact .inr ⟨by simp, _, rfl, rfl⟩
    | true =>
      simp only [Bool.not_true, Bool.false_eq_true, if_false, true_and]
      split
      · next hask =>
        exact .inl ⟨by simpa using hask, _, rfl, rfl, fun total => counted_eq hsize _⟩
      · next hask =>
        exact .inr ⟨by simpa using hask, counted_eq hsize _⟩

namespace ListQuery

variable {q : ListQuery} {r : Request}

/-- The query of a refused request is not prepared, or it has no such page. -/
theorem Refuses.stops {err : Error} (h : q.Refuses r err) :
    q.prepare r.filters r.sort = .error err ∨ ∃ p, q.prepare r.filters r.sort = .ok p ∧
      p.page r.page.page (r.page.size.getD q.limits.default) = .error err := by
  cases h with
  | check h => exact .inl (bind_eq_error.2 (.inl h))
  | build hcheck h =>
    left
    rw [prepare, hcheck, ok_bind, h]
    rfl
  | skeleton hcheck hbuild h =>
    left
    rw [prepare, hcheck, ok_bind, hbuild, ok_bind, h]
    rfl
  | sort hcheck hbuild hbase h =>
    left
    rw [prepare, hcheck, ok_bind, hbuild, ok_bind, hbase, ok_bind, h]
    rfl
  | size hp h => exact .inr ⟨_, hp, bind_eq_error.2 (.inl (by rwa [limits_of_prepare hp]))⟩
  | offset hp hsize h =>
    refine .inr ⟨_, hp, bind_eq_error.2 (.inr ⟨_, ?_, bind_eq_error.2 (.inl h)⟩)⟩
    rwa [limits_of_prepare hp]

theorem fetch_of_refuses {err : Error} (h : q.Refuses r err) : q.fetch r = .refuse err := by
  rcases h.stops with h | ⟨p, hp, h⟩
  · rw [fetch, h]
  · rw [fetch, hp]
    exact Prepared.fetch_of_page_eq_error (by rwa [limits_of_prepare hp])

/-- There is one error to refuse a request with. -/
theorem Refuses.unique {err err' : Error} (h : q.Refuses r err) (h' : q.Refuses r err') : err = err' := by
  have heq := (fetch_of_refuses h).symm.trans (fetch_of_refuses h')
  cases heq
  rfl

/-- A request that is not refused begins with a call for its rows. -/
theorem fetch_of_not_refuses (h : ∀ err, ¬ q.Refuses r err) :
    ∃ p b, q.prepare r.filters r.sort = .ok p ∧ p.page r.page.page (r.page.size.getD q.limits.default) = .ok b ∧
      1 ≤ r.page.size.getD q.limits.default ∧
      ∃ next, q.fetch r = .rows b next ∧ next none = .refuse .database ∧
        ∀ found, next (some found) = p.received r.page (q.limits.sizeOf r.page) found := by
  cases hp : q.prepare r.filters r.sort with
  | error err => exact absurd (refuses_of_prepare hp) (h err)
  | ok p =>
    have hlimits := limits_of_prepare hp
    cases hsize : q.limits.sizeFor r.page.page (r.page.size.getD q.limits.default) with
    | error err => exact absurd (.size hp hsize) (h err)
    | ok size =>
      obtain ⟨rfl, hpositive⟩ := PageLimits.eq_sizeOf hsize
      cases hb : p.pageOfSize r.page.page (q.limits.sizeOf r.page) with
      | error err =>
        rcases bind_eq_error.1 hb with hoffset | ⟨offset, _, hb⟩
        · exact absurd (.offset hp hsize hoffset) (h err)
        · cases hb
      | ok b =>
        have hpage : p.page r.page.page (r.page.size.getD q.limits.default) = .ok b := by
          rw [Prepared.page, hlimits, hsize, ok_bind, hb]
        refine ⟨p, b, rfl, hpage, hpositive, ?_⟩
        simp only [fetch, hp, Prepared.fetch, hlimits, hsize, hb]
        exact ⟨_, rfl, rfl, fun _ => rfl⟩

/-- What an admitted request calls first: the statement of its page. -/
structure Admits (q : ListQuery) (r : Request) (p : Prepared) (b : Bound) : Prop where
  admitted : ∀ err, ¬ q.Refuses r err
  prepared : q.prepare r.filters r.sort = .ok p
  page : p.page r.page.page (r.page.size.getD q.limits.default) = .ok b

/-- The courses that a request can take. -/
inductive Course (q : ListQuery) (r : Request) (e : Executor) : Except Error PageResult → List Call → Prop
  | refused {err : Error} (h : q.Refuses r err) : Course q r e (.error err) []
  | unread {p : Prepared} {b : Bound} (h : q.Admits r p b) (hrows : e.rows b = none) :
      Course q r e (.error .database) [.rows b]
  | read {p : Prepared} {b : Bound} {found : List Row} {result : PageResult} (h : q.Admits r p b)
      (hrows : e.rows b = some found) (hasks : ¬ r.page.Asks (q.limits.sizeOf r.page) found)
      (hresult : result.rows = found.take (q.limits.sizeOf r.page).toNat) : Course q r e (.ok result) [.rows b]
  | uncounted {p : Prepared} {b : Bound} {found : List Row} (h : q.Admits r p b) (hrows : e.rows b = some found)
      (hasks : r.page.Asks (q.limits.sizeOf r.page) found) (hcount : e.count p.count = none) :
      Course q r e (.error .database) [.rows b, .count p.count]
  | counted {p : Prepared} {b : Bound} {found : List Row} {total : Int64} {result : PageResult} (h : q.Admits r p b)
      (hrows : e.rows b = some found) (hasks : r.page.Asks (q.limits.sizeOf r.page) found)
      (hcount : e.count p.count = some total)
      (hresult : result.rows = found.take (q.limits.sizeOf r.page).toNat) :
      Course q r e (.ok result) [.rows b, .count p.count]

theorem course_run (hmax : 1 ≤ q.limits.max) (e : Executor) :
    q.Course r e ((q.fetch r).run e).1 ((q.fetch r).run e).2 := by
  by_cases hrefused : ∃ err, q.Refuses r err
  · obtain ⟨err, hrefused⟩ := hrefused
    rw [fetch_of_refuses hrefused]
    exact .refused hrefused
  have hadmitted : ∀ err, ¬ q.Refuses r err := fun err h => hrefused ⟨err, h⟩
  obtain ⟨p, b, hp, hb, hsize, next, hfetch, hfailed, hfound⟩ := fetch_of_not_refuses hadmitted
  have h : q.Admits r p b := ⟨hadmitted, hp, hb⟩
  have hpositive : q.limits.sizeOf r.page ≠ 0 := by
    intro hzero
    have hsizeOf := PageLimits.sizeOf_pos hmax hsize
    rw [hzero] at hsizeOf
    exact absurd hsizeOf (by decide)
  rw [hfetch, Exchange.run_rows]
  cases hrows : e.rows b with
  | none =>
    rw [hfailed]
    exact .unread h hrows
  | some found =>
    rw [hfound]
    rcases Prepared.received_cases p r.page found hpositive with
      ⟨hasks, next, hreceived, hfailed, hcounted⟩ | ⟨hasks, result, hresult, hreceived⟩
    · rw [hreceived, Exchange.run_count]
      cases hcount : e.count p.count with
      | none =>
        rw [hfailed]
        exact .uncounted h hrows hasks hcount
      | some total =>
        obtain ⟨result, hresult, hnext⟩ := hcounted total
        rw [hnext]
        exact .counted h hrows hasks hcount hresult
    · rw [hreceived]
      exact .read h hrows hasks hresult

namespace Course

variable {e : Executor} {answer : Except Error PageResult} {calls : List Call}

theorem of_refuses (h : q.Course r e answer calls) {err : Error} (hrefused : q.Refuses r err) :
    answer = .error err ∧ calls = [] ∧ err.kind ≠ .database := by
  cases h with
  | refused h =>
    cases h.unique hrefused
    exact ⟨rfl, rfl, hrefused.early⟩
  | unread h | read h | uncounted h | counted h => exact absurd hrefused (h.admitted err)

theorem of_not_refuses (h : q.Course r e answer calls) (hadmitted : ∀ err, ¬ q.Refuses r err) :
    ∃ p b, q.prepare r.filters r.sort = .ok p ∧
      p.page r.page.page (r.page.size.getD q.limits.default) = .ok b ∧
      ((∃ found, e.rows b = some found ∧ r.page.Asks (q.limits.sizeOf r.page) found) →
        calls = [.rows b, .count p.count]) ∧
      ((¬ ∃ found, e.rows b = some found ∧ r.page.Asks (q.limits.sizeOf r.page) found) → calls = [.rows b]) := by
  cases h with
  | refused h => exact absurd h (hadmitted _)
  | unread h hrows => exact ⟨_, _, h.prepared, h.page, by simp [hrows], fun _ => rfl⟩
  | read h hrows hasks => exact ⟨_, _, h.prepared, h.page, by simp [hrows, hasks], fun _ => rfl⟩
  | uncounted h hrows hasks | counted h hrows hasks =>
    exact ⟨_, _, h.prepared, h.page, fun _ => rfl, by simp [hrows, hasks]⟩

/-- Whether the first or the second call fails, none follows. -/
theorem of_fails (h : q.Course r e answer calls) {front back : List Call} {call : Call}
    (hcalls : calls = front ++ call :: back) (hfails : e.Fails call) : back = [] ∧ answer = .error .database := by
  have hone : ∀ {front : List Call} {a : Call}, [a] = front ++ call :: back → call = a ∧ back = [] := by
    intro front a ha
    obtain ⟨_, hcall, hback⟩ : front = [] ∧ call = a ∧ back = [] := by simpa [List.cons_eq_append_iff] using ha
    exact ⟨hcall, hback⟩
  have htwo : ∀ {a b : Call}, [a, b] = front ++ call :: back → call = a ∨ (call = b ∧ back = []) := by
    intro a b hab
    rcases List.cons_eq_append_iff.1 hab with ⟨_, hfirst⟩ | ⟨_, _, hsecond⟩
    · exact .inl (List.cons_eq_cons.1 hfirst).1
    · exact .inr (hone hsecond)
  cases h with
  | refused => simp at hcalls
  | unread => exact ⟨(hone hcalls).2, rfl⟩
  | read _ hrows =>
    cases (hone hcalls).1
    exact absurd (hrows.symm.trans hfails) nofun
  | uncounted _ hrows =>
    rcases htwo hcalls with rfl | ⟨_, hback⟩
    · exact absurd (hrows.symm.trans hfails) nofun
    · exact ⟨hback, rfl⟩
  | counted _ hrows _ hcount =>
    rcases htwo hcalls with rfl | ⟨rfl, _⟩
    · exact absurd (hrows.symm.trans hfails) nofun
    · exact absurd (hcount.symm.trans hfails) nofun

theorem fails_of_database (h : q.Course r e answer calls) {err : Error} (hanswer : answer = .error err)
    (hkind : err.kind = .database) : ∃ call ∈ calls, e.Fails call := by
  cases h with
  | refused h =>
    cases hanswer
    exact absurd hkind h.early
  | unread _ hrows => exact ⟨_, List.mem_cons_self, hrows⟩
  | uncounted _ _ _ hcount => exact ⟨_, List.mem_cons_of_mem _ List.mem_cons_self, hcount⟩
  | read | counted => cases hanswer

theorem ok_of_not_fails (h : q.Course r e answer calls) (hadmitted : ∀ err, ¬ q.Refuses r err)
    (hcalls : ∀ call ∈ calls, ¬ e.Fails call) : ∃ result, answer = .ok result := by
  cases h with
  | refused h => exact absurd h (hadmitted _)
  | unread _ hrows => exact absurd hrows (hcalls _ List.mem_cons_self)
  | uncounted _ _ _ hcount => exact absurd hcount (hcalls _ (List.mem_cons_of_mem _ List.mem_cons_self))
  | read | counted => exact ⟨_, rfl⟩

theorem rows_le (h : q.Course r e answer calls) {result : PageResult} (hanswer : answer = .ok result) :
    result.rows.length ≤ (q.limits.sizeOf r.page).toNat := by
  cases h with
  | read _ _ _ hresult | counted _ _ _ _ hresult =>
    cases hanswer
    rw [hresult]
    exact List.length_take_le _ _
  | refused | unread | uncounted => cases hanswer

end Course

/-- How a request is run: its answer and its calls. -/
structure KeepsTo (q : ListQuery) (r : Request) (e : Executor) (answer : Except Error PageResult)
    (calls : List Call) : Prop where
  /-- Nothing is called for a request that is refused. -/
  refused : ∀ err, q.Refuses r err → answer = .error err ∧ calls = [] ∧ err.kind ≠ .database
  /-- For any other the rows are, and then their count if they came back and leave it open. -/
  called : (∀ err, ¬ q.Refuses r err) → ∃ p b, q.prepare r.filters r.sort = .ok p ∧
    p.page r.page.page (r.page.size.getD q.limits.default) = .ok b ∧
    ((∃ found, e.rows b = some found ∧ r.page.Asks (q.limits.sizeOf r.page) found) →
      calls = [.rows b, .count p.count]) ∧
    ((¬ ∃ found, e.rows b = some found ∧ r.page.Asks (q.limits.sizeOf r.page) found) → calls = [.rows b])
  /-- A call that fails is the last one, and all the answer is its error. -/
  failed : ∀ front call back, calls = front ++ call :: back → e.Fails call → back = [] ∧ answer = .error .database
  /-- An error of the database comes from a call that failed. -/
  blamed : ∀ err, answer = .error err → err.kind = .database → ∃ call ∈ calls, e.Fails call
  /-- If no call fails there are rows. -/
  answered : (∀ err, ¬ q.Refuses r err) → (∀ call ∈ calls, ¬ e.Fails call) → ∃ result, answer = .ok result
  /-- They fit on the page. -/
  bounded : ∀ result, answer = .ok result → result.rows.length ≤ (q.limits.sizeOf r.page).toNat

/-- Every request is run so, whatever the calls bring. Each call is made at most once in an exchange, so an
executor that answers a call always alike stands for any. -/
theorem run_keepsTo (q : ListQuery) (hmax : 1 ≤ q.limits.max) (r : Request) (e : Executor) :
    q.KeepsTo r e ((q.fetch r).run e).1 ((q.fetch r).run e).2 := by
  have h : q.Course r e ((q.fetch r).run e).1 ((q.fetch r).run e).2 := course_run hmax e
  exact {
    refused := fun _ hrefused => h.of_refuses hrefused
    called := h.of_not_refuses
    failed := fun _ _ _ hcalls hfails => h.of_fails hcalls hfails
    blamed := fun _ hanswer hkind => h.fails_of_database hanswer hkind
    answered := h.ok_of_not_fails
    bounded := fun _ hanswer => h.rows_le hanswer }

/-- The cantons by name, not more than three on a page. -/
def cantons : ListQuery :=
  { skeleton := { select := ["c.name"], table := "canton", tableAlias := some "c" }
    catalog := .empty
    platform := .postgres
    limits := { max := 3 } }

/-- Finds four cantons and cannot count them. -/
def uncounting : Executor :=
  { rows := fun _ => some (["Jura", "Uri", "Zug", "Bern"].map fun name => [("name", Json.str name)])
    count := fun _ => none }

theorem isOk_prepare_cantons : (cantons.prepare .null []).isOk = true := by
  have hbuild : Spec.build cantons.catalog .null = .ok (.group 0 .and []) := rfl
  have hcolumns : cantons.skeleton.columns = .ok [⟨"name", "c.name"⟩] := by cbv
  rw [prepare, Spec.validate_null, ok_bind, hbuild, ok_bind, Skeleton.statement, if_neg (by decide), hcolumns]
  rfl

theorem length_calls_cantons :
    ((cantons.fetch { page := { totalCount := true } }).run uncounting).2.length = 2 := by
  obtain ⟨p, hp⟩ := exists_of_isOk isOk_prepare_cantons
  simp only [fetch, hp, Prepared.fetch, limits_of_prepare (r := {}) hp]
  rfl

theorem run_keepsTo_cantons :
    1 ≤ cantons.limits.max ∧ (cantons.prepare .null []).isOk = true ∧
      ((cantons.fetch { page := { totalCount := true } }).run uncounting).2.length = 2 ∧
      cantons.KeepsTo { page := { totalCount := true } } uncounting
        ((cantons.fetch { page := { totalCount := true } }).run uncounting).1
        ((cantons.fetch { page := { totalCount := true } }).run uncounting).2 :=
  ⟨by decide, isOk_prepare_cantons, length_calls_cantons, run_keepsTo cantons (by decide) _ _⟩

end ListQuery
end Listing
