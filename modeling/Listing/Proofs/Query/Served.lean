import Listing.Fetch
import Listing.Proofs.Outcome
import Listing.Proofs.Statement.Filled
import Listing.Proofs.Text.Words
/-!
# Executors that heed limits

A page statement ends with its limit and its offset, whatever stands in front (`pageOfSize_sql`). So an
executor can find both there; `Serves` says that it runs the statements of a list on a table of rows. Rows
in memory are served so (`serves_executor`): the last words of a statement are read back as the numbers
that were written.
-/
namespace Listing

/-! ## The end of a page statement -/

/-- What tells a database which rows of a statement to give out. -/
def windowSql (limit offset : Nat) : String := " LIMIT " ++ toString limit ++ " OFFSET " ++ toString offset

theorem toList_windowSql (limit offset : Nat) :
    (windowSql limit offset).toList =
      " LIMIT ".toList ++ Nat.toDigits 10 limit ++ " OFFSET ".toList ++ Nat.toDigits 10 offset := by
  simp [windowSql]

theorem isPlain_windowSql (limit offset : Nat) :
    ∀ c ∈ (windowSql limit offset).toList, Bound.isPlain c = true := by
  intro c hc
  rw [toList_windowSql, List.mem_append, List.mem_append, List.mem_append] at hc
  have hlimit : " LIMIT ".toList.all Bound.isPlain = true := by decide
  have hoffset : " OFFSET ".toList.all Bound.isPlain = true := by decide
  rcases hc with ((hc | hc) | hc) | hc
  · exact List.all_eq_true.1 hlimit c hc
  · exact Bound.isPlain_toDigits c hc
  · exact List.all_eq_true.1 hoffset c hc
  · exact Bound.isPlain_toDigits c hc

theorem colon_notMem_windowSql (limit offset : Nat) : ':' ∉ (windowSql limit offset).toList := fun h =>
  absurd (isPlain_windowSql limit offset ':' h) (by decide)

theorem breaks_windowSql (limit offset : Nat) : Bound.Breaks (windowSql limit offset).toList := by
  rw [toList_windowSql]
  exact Bound.breaks_cons (by decide) _

/-- Binding leaves limit and offset at the end of a page statement. -/
theorem Prepared.pageOfSize_sql {p : Prepared} {page size : UInt64} {b : Bound}
    (h : p.pageOfSize page size = .ok b) :
    ∃ front, b.sql = front ++ windowSql (pageLimit size) ((page.toNat - 1) * size.toNat) := by
  obtain ⟨offset, hoffset, h⟩ := bind_eq_ok.1 h
  obtain rfl := Except.ok.inj h
  obtain ⟨-, rfl, -⟩ := pageOffset_eq_ok.1 hoffset
  have hpage : p.statement.pageSql p.platform p.order (pageLimit size) ((page.toNat - 1) * size.toNat) =
      (p.statement.sql p.platform ++ Statement.orderSql p.platform p.order) ++
        windowSql (pageLimit size) ((page.toNat - 1) * size.toNat) := by
    simp only [Statement.pageSql, windowSql, String.append_assoc]
  rw [hpage, p.platform.bind_append p.parameters _ (colon_notMem_windowSql _ _) (breaks_windowSql _ _)]
  exact ⟨_, rfl⟩

/-- An executor that runs the statements of a prepared query on a table: for a page it skips the rows of the
offset and cuts at the limit, for the count it counts. -/
structure Executor.Serves (e : Executor) (p : Prepared) (table : List Row) : Prop where
  rows : ∀ {page size : UInt64} {b : Bound}, p.pageOfSize page size = .ok b →
    ∀ (front : String) (limit offset : UInt64), b.sql = front ++ windowSql limit.toNat offset.toNat →
      e.rows b = some ((table.drop offset.toNat).take limit.toNat)
  count : e.count p.count = some (.ofNat table.length)

/-! ## Rows in memory -/

namespace Text

theorem afterLast?_append {needle cs rest : List Char} (front : List Char)
    (h : afterLast? needle cs = some rest) : afterLast? needle (front ++ cs) = some rest := by
  induction front with
  | nil => exact h
  | cons c front ih => rw [List.cons_append, afterLast?, ih, Option.some_or]

theorem afterLast?_eq_some {needle text rest : List Char} (h : afterLast? needle text = some rest) :
    ∃ before, text = before ++ needle ++ rest := by
  induction text with
  | nil => exact ⟨[], by simpa using stripLead?_eq_some.1 h⟩
  | cons c text ih =>
    rw [afterLast?, Option.or_eq_some_iff] at h
    rcases h with h | ⟨-, h⟩
    · obtain ⟨before, rfl⟩ := ih h
      exact ⟨c :: before, by simp⟩
    · exact ⟨[], by simpa using stripLead?_eq_some.1 h⟩

/-- A needle whose second character does not come again is found where it stands. -/
theorem afterLast?_lead {c d : Char} {needle rest : List Char} (h : d ∉ needle ++ rest) :
    afterLast? (c :: d :: needle) (c :: d :: needle ++ rest) = some rest := by
  have hnone : afterLast? (c :: d :: needle) (d :: needle ++ rest) = none := by
    rw [Option.eq_none_iff_forall_not_mem]
    intro found hfound
    obtain ⟨before, htext⟩ := afterLast?_eq_some hfound
    cases before with
    | nil =>
      simp only [List.nil_append, List.cons_append, List.cons.injEq] at htext
      refine h (htext.2 ▸ ?_)
      simp
    | cons e before =>
      simp only [List.cons_append, List.cons.injEq] at htext
      refine h (htext.2 ▸ ?_)
      simp
  rw [List.cons_append, List.cons_append, afterLast?]
  rw [List.cons_append] at hnone
  rw [hnone, Option.none_or]
  exact stripLead?_eq_some.2 rfl

/-- Digits are read on to the number that they write. -/
theorem wholeFrom_digits {bound n : Nat} {ds : List Char} (hdigits : ∀ c ∈ ds, c.isDigit = true)
    (h : Nat.ofDigitChars 10 ds n < bound) : wholeFrom bound n ds = .ok (Nat.ofDigitChars 10 ds n) := by
  induction ds generalizing n with
  | nil => rw [wholeFrom, Nat.ofDigitChars_nil]
  | cons c ds ih =>
    rw [Nat.ofDigitChars_cons] at h ⊢
    have hc : c.isDigit = true := hdigits c List.mem_cons_self
    have hle : 10 * n + (c.toNat - '0'.toNat) ≤ Nat.ofDigitChars 10 ds (10 * n + (c.toNat - '0'.toNat)) := by
      rw [Nat.ofDigitChars_eq_ofDigitChars_zero]
      exact Nat.le_add_right_of_le (Nat.le_mul_of_pos_left _ (Nat.pow_pos (by decide)))
    have hnext := ih (fun d hd => hdigits d (List.mem_cons_of_mem c hd)) h
    rw [wholeFrom, hc]
    simp only [Bool.not_true, Bool.false_eq_true, if_false, Nat.not_le.2 (Nat.lt_of_le_of_lt hle h), hnext]

theorem whole_toString {bound n : Nat} (h : n < bound) : whole bound (.ofList (Nat.toDigits 10 n)) = .ok n := by
  have hdigits : ∀ c ∈ Nat.toDigits 10 n, c.isDigit = true := fun c hc =>
    Nat.isDigit_of_mem_toDigits (by decide) (by decide) hc
  have hread : wholeFrom bound 0 (Nat.toDigits 10 n) = .ok n := by
    rw [wholeFrom_digits hdigits (by rwa [Nat.ofDigitChars_ten_toDigits]), Nat.ofDigitChars_ten_toDigits]
  rw [whole, String.toList_ofList]
  cases hds : Nat.toDigits 10 n with
  | nil => exact absurd hds Nat.toDigits_ne_nil
  | cons c ds =>
    have hplus : c ≠ '+' := by
      rintro rfl
      exact absurd (hdigits '+' (by rw [hds]; exact List.mem_cons_self)) (by decide)
    rw [hds] at hread
    simpa [behindPlus, hplus] using hread

end Text

namespace MemoryTable

/-- A number behind the last occurrence of a keyword is read back. -/
theorem numberAfter?_eq {keyword sql : String} {n : Nat} (rest : List Char)
    (h : Text.afterLast? keyword.toList sql.toList = some (Nat.toDigits 10 n ++ rest))
    (hrest : ∀ c ∈ rest.head?, Text.isBlank c = true) (hn : n < UInt64.size) :
    numberAfter? keyword sql = some n := by
  have hdigits := Text.wordsOf_of_isWord (Text.isWord_toDigits n)
  have hword : (Text.wordsOf (Nat.toDigits 10 n ++ rest)).head? = some (Nat.toDigits 10 n) := by
    cases rest with
    | nil =>
      rw [List.append_nil, hdigits]
      rfl
    | cons c rest =>
      rw [Text.wordsOf_append_cons (hrest c rfl), hdigits]
      rfl
  rw [numberAfter?, h]
  simp only [hword, Option.bind_some, Text.whole_toString hn]
  rfl

variable (front : String) {limit offset : Nat}

theorem numberAfter?_offset (h : offset < UInt64.size) :
    numberAfter? " OFFSET " (front ++ windowSql limit offset) = some offset := by
  refine numberAfter?_eq [] ?_ (by simp) h
  have hdigits : 'O' ∉ Nat.toDigits 10 offset := fun hO =>
    absurd (Nat.isDigit_of_mem_toDigits (by decide) (by decide) hO) (by decide)
  have hkeyword : " OFFSET ".toList = [' ', 'O', 'F', 'F', 'S', 'E', 'T', ' '] := rfl
  rw [String.toList_append, toList_windowSql, List.append_nil, List.append_assoc, ← List.append_assoc front.toList,
    hkeyword]
  exact Text.afterLast?_append _ (Text.afterLast?_lead (by simpa using hdigits))

theorem numberAfter?_limit (h : limit < UInt64.size) :
    numberAfter? " LIMIT " (front ++ windowSql limit offset) = some limit := by
  refine numberAfter?_eq (" OFFSET ".toList ++ Nat.toDigits 10 offset) ?_ (by simp; decide) h
  have hdigits : ∀ n, 'L' ∉ Nat.toDigits 10 n := fun n hL =>
    absurd (Nat.isDigit_of_mem_toDigits (by decide) (by decide) hL) (by decide)
  have hkeyword : " LIMIT ".toList = [' ', 'L', 'I', 'M', 'I', 'T', ' '] := rfl
  have hother : 'L' ∉ " OFFSET ".toList := by decide
  rw [String.toList_append, toList_windowSql, hkeyword]
  simp only [List.append_assoc]
  exact Text.afterLast?_append _ (Text.afterLast?_lead (by simp only [List.mem_append, not_or, hdigits, hother]; simp))

/-- Rows in memory are served, if the table heeds limits and does not fail. -/
theorem serves_executor {t : MemoryTable} (hlimit : t.honoursLimit = true) (hrows : t.failsRows = false)
    (hcounts : t.failsCount = false) (hcount : t.count = none) (p : Prepared) :
    t.executor.Serves p t.rows where
  rows := by
    intro page size b _ front limit offset hsql
    have hcut : t.cut b.sql = (t.rows.drop offset.toNat).take limit.toNat := by
      rw [cut, if_pos hlimit, hsql, numberAfter?_offset front offset.toNat_lt,
        numberAfter?_limit front limit.toNat_lt]
      rfl
    simp only [executor, hrows, hcut, Bool.false_eq_true, if_false]
  count := by
    simp only [executor, hcounts, hcount, Option.getD_none, Bool.false_eq_true, if_false]

end MemoryTable
end Listing
