import Listing.Proofs.Query.Paging
import Listing.Proofs.Statement.Shown
/-!
# What pages and the count share

A page statement and the count statement are rendered and bound apart from each other, each with its own
text around the filtered statement. Binding the text in front leaves the scanner between pieces, and the text
behind begins no name and goes on with none that is left open, so what stands between is bound alike in both:
same text, same placeholders, same values (`page_shares_count`).
-/
namespace Listing

/-! ## Texts without colons -/

/-- What holds of the characters of a separator and of texts holds of the texts with the separator between. -/
theorem forall_mem_intercalate {P : Char → Prop} {separator : String} (hseparator : ∀ c ∈ separator.toList, P c)
    {texts : List String} (h : ∀ s ∈ texts, ∀ c ∈ s.toList, P c) :
    ∀ c ∈ (String.intercalate separator texts).toList, P c := by
  induction texts with
  | nil => simp
  | cons s texts ih =>
    have hs := h s List.mem_cons_self
    have htexts := ih fun t ht => h t (List.mem_cons_of_mem s ht)
    cases texts with
    | nil => simpa using hs
    | cons t texts =>
      intro c hc
      rw [String.intercalate_cons_cons, String.toList_append, String.toList_append, List.mem_append,
        List.mem_append] at hc
      rcases hc with (hc | hc) | hc
      · exact hs c hc
      · exact hseparator c hc
      · exact htexts c hc

theorem colon_notMem_of_all {s : String} (h : s.toList.all (· != ':') = true) : ':' ∉ s.toList := fun hcolon =>
  absurd rfl (bne_iff_ne.1 (List.all_eq_true.1 h ':' hcolon))

theorem colon_notMem_append {s t : String} (hs : ':' ∉ s.toList) (ht : ':' ∉ t.toList) : ':' ∉ (s ++ t).toList := by
  rw [String.toList_append, List.mem_append, not_or]
  exact ⟨hs, ht⟩

theorem Platform.colon_notMem_quote (q : Platform) {name : String} (h : ':' ∉ name.toList) :
    ':' ∉ (q.quote name).toList := by
  have hquote : ':' ≠ q.quoteChar := by cases q <;> decide
  intro hcolon
  rw [Platform.quote, String.toList_ofList, Platform.quoteWith, List.cons_append, List.mem_cons, List.mem_append,
    List.mem_flatMap, List.mem_singleton] at hcolon
  rcases hcolon with hcolon | ⟨c, hc, hcolon⟩ | hcolon
  · exact hquote hcolon
  · split at hcolon
    · simp [hquote] at hcolon
    · exact h (List.mem_singleton.1 hcolon ▸ hc)
  · exact hquote hcolon

namespace Statement

variable {q : Platform}

theorem colon_notMem_keySql {k : SortKey} (h : ':' ∉ k.expression.toList) : ':' ∉ (keySql q k).toList := by
  cases q <;> cases hdirection : k.direction <;>
  · rw [keySql, hdirection]
    exact colon_notMem_append (colon_notMem_append h (colon_notMem_of_all (by decide))) (colon_notMem_of_all (by decide))

theorem colon_notMem_orderSql {order : List SortKey} (h : ∀ k ∈ order, ':' ∉ k.expression.toList) :
    ':' ∉ (orderSql q order).toList := by
  cases order with
  | nil => exact List.not_mem_nil
  | cons k order =>
    have hkeys : ∀ s ∈ (k :: order).map (keySql q), ∀ c ∈ s.toList, c ≠ ':' := by
      intro s hs c hc hcolon
      obtain ⟨k', hk', rfl⟩ := List.mem_map.1 hs
      exact colon_notMem_keySql (h k' hk') (hcolon ▸ hc)
    have hcomma : ∀ c ∈ ", ".toList, c ≠ ':' := fun c hc hcolon =>
      colon_notMem_of_all (s := ", ") (by decide) (hcolon ▸ hc)
    exact colon_notMem_append (colon_notMem_of_all (by decide)) fun hcolon =>
      forall_mem_intercalate hcomma hkeys ':' hcolon rfl

end Statement

/-! ## The shared text -/

namespace Prepared

/-- The filtered statement without order and limits, bound. -/
def shown (p : Prepared) : Bound := p.platform.bind p.sql p.parameters

/-- The count is taken over the filtered statement as it is bound alone. -/
theorem count_eq (p : Prepared) :
    p.count = ⟨"SELECT COUNT(*) FROM (" ++ p.shown.sql ++ ") AS " ++ p.platform.quote wrapAlias, p.shown.params⟩ := by
  have hfront : Bound.Inert "SELECT COUNT(*) FROM (".toList := Bound.inert_of_all (by decide)
  have hwrap : wrapAlias.toList.all (· != ':') = true := by decide
  have hcolon : ':' ∉ (") AS " ++ p.platform.quote wrapAlias).toList :=
    colon_notMem_append (colon_notMem_of_all (by decide)) (p.platform.colon_notMem_quote (colon_notMem_of_all hwrap))
  have hbreaks : Bound.Breaks (") AS " ++ p.platform.quote wrapAlias).toList := by
    rw [String.toList_append]
    exact Bound.breaks_cons rfl _
  have hsql : p.statement.count.sql p.platform =
      "SELECT COUNT(*) FROM (" ++ (p.sql ++ (") AS " ++ p.platform.quote wrapAlias)) := by
    rw [Statement.sql_count, String.append_assoc, String.append_assoc, sql]
  simp only [count, hsql, shown, p.platform.bind_inert_append _ hfront, p.platform.bind_append _ _ hcolon hbreaks,
    String.append_assoc]

variable {p : Prepared}

/-- A page is the filtered statement as it is bound alone, with its order and its window behind. -/
theorem pageOfSize_eq (hsort : ∀ k ∈ p.order, ':' ∉ k.expression.toList) {page size : UInt64} (hpage : page ≠ 0)
    (hoffset : (page.toNat - 1) * size.toNat ≤ maxOffset) :
    p.pageOfSize page size =
      .ok ⟨p.shown.sql ++ Statement.orderSql p.platform p.order ++
        windowSql (pageLimit size) ((page.toNat - 1) * size.toNat), p.shown.params⟩ := by
  have hok : pageOffset page size = .ok ((page.toNat - 1) * size.toNat) := pageOffset_eq_ok.2 ⟨hpage, rfl, hoffset⟩
  have hcolon : ':' ∉ (Statement.orderSql p.platform p.order ++
      windowSql (pageLimit size) ((page.toNat - 1) * size.toNat)).toList :=
    colon_notMem_append (Statement.colon_notMem_orderSql hsort) (colon_notMem_windowSql _ _)
  have hbreaks : Bound.Breaks (Statement.orderSql p.platform p.order ++
      windowSql (pageLimit size) ((page.toNat - 1) * size.toNat)).toList := by
    rw [String.toList_append]
    exact (Statement.breaks_orderSql _).append (breaks_windowSql _ _)
  have hsql : p.statement.pageSql p.platform p.order (pageLimit size) ((page.toNat - 1) * size.toNat) =
      p.sql ++ (Statement.orderSql p.platform p.order ++
        windowSql (pageLimit size) ((page.toNat - 1) * size.toNat)) := by
    simp only [Statement.pageSql, windowSql, sql, String.append_assoc]
  simp only [pageOfSize, hok, ok_bind, hsql, shown, p.platform.bind_append _ _ hcolon hbreaks, String.append_assoc]
  rfl

/-- The count counts what the pages show. Whatever the raw texts of the statement are, there is one bound text,
that of the filtered statement: a page puts its order and its window behind it, the count its own words around
it, and both bind the same values. -/
theorem page_shares_count (p : Prepared) (hsort : ∀ k ∈ p.order, ':' ∉ k.expression.toList) {page size : UInt64}
    (hpage : 1 ≤ page) (hsize : 1 ≤ size)
    (hoffset : (page.toNat - 1) * min size.toNat p.limits.max.toNat ≤ maxOffset) :
    ∃ used : UInt64, used.toNat = min size.toNat p.limits.max.toNat ∧
      p.page page size = .ok ⟨p.shown.sql ++ Statement.orderSql p.platform p.order ++
        windowSql (pageLimit used) ((page.toNat - 1) * used.toNat), p.shown.params⟩ ∧
      p.count =
        ⟨"SELECT COUNT(*) FROM (" ++ p.shown.sql ++ ") AS " ++ p.platform.quote wrapAlias, p.shown.params⟩ := by
  have hused := p.limits.toNat_sizeOf { page, size := some size }
  have hfirst := PageLimits.sizeFor_eq_ok (l := p.limits) (r := { page, size := some size }) hpage hsize
  have hpage' : page ≠ 0 := by
    rintro rfl
    exact absurd hpage (by decide)
  rw [Option.getD_some] at hused hfirst
  refine ⟨p.limits.sizeOf { page, size := some size }, hused, ?_, p.count_eq⟩
  rw [Prepared.page, hfirst, ok_bind, pageOfSize_eq hsort hpage']
  rwa [hused]

/-- Glaciers with some ice. The condition of the inner query opens quotes that only that of the outer one closes,
this one ends with a parameter, and the sort expression opens quotes again. -/
def glaciers : Prepared :=
  { statement := .around
      (.base [⟨"name", "g.name"⟩, ⟨"ice", "sum(g.ice)"⟩] "glacier" none [] ["g.note <> ':ice_1"] ["g.name"])
      ["a' OR ice IN(:ice_1) OR ice = :ice_1"]
    parameters := ⟨[(":ice_1", .list [.int 3, .int 5])]⟩
    order := [⟨"name || 'x", .asc⟩]
    platform := .postgres
    aggregated := true
    limits := { max := 20 } }

theorem page_shares_count_glaciers :
    (∀ k ∈ glaciers.order, ':' ∉ k.expression.toList) ∧ (1 : UInt64) ≤ 3 ∧ (1 : UInt64) ≤ 1000 ∧
      (UInt64.toNat 3 - 1) * min (UInt64.toNat 1000) 20 ≤ maxOffset ∧
      ∃ used : UInt64, used.toNat = min (UInt64.toNat 1000) 20 ∧
        glaciers.page 3 1000 = .ok ⟨glaciers.shown.sql ++ Statement.orderSql .postgres glaciers.order ++
          windowSql (pageLimit used) ((UInt64.toNat 3 - 1) * used.toNat), glaciers.shown.params⟩ ∧
        glaciers.count = ⟨"SELECT COUNT(*) FROM (" ++ glaciers.shown.sql ++ ") AS " ++
          Platform.postgres.quote wrapAlias, glaciers.shown.params⟩ := by
  have hsort : ∀ k ∈ glaciers.order, ':' ∉ k.expression.toList :=
    List.forall_mem_singleton.2 (colon_notMem_of_all (by decide))
  exact ⟨hsort, by decide, by decide, by decide,
    @page_shares_count glaciers hsort 3 1000 (by decide) (by decide) (by decide)⟩

end Prepared
end Listing
