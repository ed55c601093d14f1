import Listing.Proofs.Query.Served
import Listing.Proofs.Statement.Parts
/-!
# Statements that show leaves

Names of tables and columns stand in quotes and have no effect on binding, whatever they are. A statement
whose raw texts have none either shows the leaves of its conditions (`shows_base`, `shows_around`), and so do
its count and its pages (`shows_count`, `shows_pageSql`).
-/
open Listing.Bound (Inert Breaks)

namespace Listing

open Node (Leaf)

variable {q : Platform} {bag : Bag}

namespace Statement

/-! ## Copied texts -/

theorem inert_tableSql (name : String) : Inert (tableSql q name).toList := by
  simp only [tableSql]
  split
  · exact Bound.inert_quote q _
  · have hdot : Inert ".".toList := Bound.inert_of_all (by decide)
    exact Bound.inert_append (Bound.inert_append (Bound.inert_quote q _) hdot) (Bound.inert_quote q _)

theorem inert_aliasSql (name : Option String) : Inert (aliasSql q name).toList := by
  cases name with
  | none => exact .nil
  | some name => exact Bound.inert_append (Bound.inert_of_all (by decide)) (Bound.inert_quote q name)

theorem inert_columnSql {c : Column} (h : Inert c.expression.toList) : Inert (columnSql q c).toList :=
  Bound.inert_append (Bound.inert_append h (Bound.inert_of_all (by decide))) (Bound.inert_quote q c.name)

/-- A join is a front without names of parameters and its raw condition. -/
theorem exists_joinSql (j : Join) :
    ∃ front : String, joinSql q j = front ++ j.on ∧ Inert front.toList ∧ ∀ text, Breaks (front ++ text).toList := by
  have hfront : ∀ keyword : String, keyword.toList.all Bound.isPlain = true →
      Inert (keyword ++ tableSql q j.table ++ aliasSql q j.tableAlias ++ " ON ").toList := fun keyword hkeyword =>
    Bound.inert_append (Bound.inert_append (Bound.inert_append (Bound.inert_of_all hkeyword)
      (inert_tableSql j.table)) (inert_aliasSql j.tableAlias)) (Bound.inert_of_all (by decide))
  cases hkind : j.kind <;>
  · rw [joinSql, hkind]
    refine ⟨_, rfl, hfront _ (by decide), fun text => ?_⟩
    simp only [String.append_assoc, String.toList_append]
    exact Bound.breaks_cons rfl _

theorem inert_joinSql {j : Join} (h : Inert j.on.toList) : Inert (joinSql q j).toList := by
  obtain ⟨front, hjoin, hfront, -⟩ := exists_joinSql (q := q) j
  rw [hjoin]
  exact Bound.inert_append hfront h

theorem inert_groupSql {groups : List String} (h : ∀ g ∈ groups, Inert g.toList) : Inert (groupSql groups).toList := by
  cases groups with
  | nil => exact .nil
  | cons g groups =>
    have hcomma : Inert ", ".toList := Bound.inert_of_all (by decide)
    exact Bound.inert_append (Bound.inert_of_all (by decide)) (Bound.inert_intercalate hcomma h)

theorem breaks_groupSql (groups : List String) : Breaks (groupSql groups).toList := by
  cases groups with
  | nil => exact Bound.breaks_nil
  | cons g groups => rw [groupSql, String.toList_append]; exact Bound.breaks_cons rfl _; simp

theorem breaks_whereSql (conditions : List String) : Breaks (whereSql conditions).toList := by
  unfold whereSql
  split
  · exact Bound.breaks_nil
  · rw [String.toList_append]; exact Bound.breaks_cons rfl _
  · rw [String.toList_append]; exact Bound.breaks_cons rfl _

theorem breaks_quote (identifier : String) : Breaks (q.quote identifier).toList := by
  rw [Platform.quote, String.toList_ofList]
  exact Bound.breaks_cons (by cases q <;> rfl) _

/-- A sort key is its raw expression with its direction behind. -/
theorem exists_keySql (k : SortKey) :
    ∃ back : String, keySql q k = k.expression ++ back ∧ Inert back.toList ∧ Breaks back.toList := by
  cases q <;> cases hdirection : k.direction <;>
  · rw [keySql, hdirection, String.append_assoc]
    exact ⟨_, rfl, Bound.inert_of_all (by decide), Bound.breaks_of_head? (c := ' ') (by decide) rfl⟩

theorem inert_keySql {k : SortKey} (h : Inert k.expression.toList) : Inert (keySql q k).toList := by
  obtain ⟨back, hkey, hback, -⟩ := exists_keySql (q := q) k
  rw [hkey]
  exact Bound.inert_append h hback

theorem inert_orderSql {order : List SortKey} (h : ∀ k ∈ order, Inert k.expression.toList) :
    Inert (orderSql q order).toList := by
  cases order with
  | nil => exact .nil
  | cons k order =>
    have hkeys : ∀ s ∈ (k :: order).map (keySql q), Inert s.toList := by
      intro s hs
      obtain ⟨k', hk', rfl⟩ := List.mem_map.mp hs
      exact inert_keySql (h k' hk')
    have hcomma : Inert ", ".toList := Bound.inert_of_all (by decide)
    exact Bound.inert_append (Bound.inert_of_all (by decide)) (Bound.inert_intercalate hcomma hkeys)

theorem breaks_orderSql (order : List SortKey) : Breaks (orderSql q order).toList := by
  cases order with
  | nil => exact Bound.breaks_nil
  | cons k order => rw [orderSql, String.toList_append]; exact Bound.breaks_cons rfl _; simp

/-! ## Statements -/

theorem sql_base (columns : List Column) (table : String) (tableAlias : Option String) (joins : List Join)
    (conditions groups : List String) :
    (base columns table tableAlias joins conditions groups).sql q =
      "SELECT " ++ String.intercalate ", " (columns.map (columnSql q)) ++ " FROM " ++ tableSql q table ++
        aliasSql q tableAlias ++ String.join (joins.map (joinSql q)) ++ whereSql conditions ++ groupSql groups := rfl

theorem sql_around (inner : Statement) (conditions : List String) :
    (around inner conditions).sql q =
      "SELECT " ++ q.quote wrapAlias ++ ".* FROM (" ++ inner.sql q ++ ") AS " ++ q.quote wrapAlias ++
        whereSql conditions := rfl

theorem sql_count (inner : Statement) :
    inner.count.sql q = "SELECT COUNT(*) FROM (" ++ inner.sql q ++ ") AS " ++ q.quote wrapAlias := rfl

theorem shows_base {columns : List Column} (hcolumns : ∀ c ∈ columns, Inert c.expression.toList) (table : String)
    (tableAlias : Option String) {joins : List Join} (hjoins : ∀ j ∈ joins, Inert j.on.toList)
    {conditions : List String} {lss : List (List (Scope × Leaf))}
    (hconditions : List.Forall₂ (Shows q bag) conditions lss) {groups : List String}
    (hgroups : ∀ g ∈ groups, Inert g.toList) :
    Shows q bag ((base columns table tableAlias joins conditions groups).sql q) lss.flatten := by
  have hselect : Inert "SELECT ".toList := Bound.inert_of_all (by decide)
  have hcomma : Inert ", ".toList := Bound.inert_of_all (by decide)
  have hfrom : Inert " FROM ".toList := Bound.inert_of_all (by decide)
  have hlist : Inert (String.intercalate ", " (columns.map (columnSql q))).toList := by
    refine Bound.inert_intercalate hcomma fun s hs => ?_
    obtain ⟨c, hc, rfl⟩ := List.mem_map.mp hs
    exact inert_columnSql (hcolumns c hc)
  have hjoined : Inert (String.join (joins.map (joinSql q))).toList := by
    refine Bound.inert_join fun s hs => ?_
    obtain ⟨j, hj, rfl⟩ := List.mem_map.mp hs
    exact inert_joinSql (hjoins j hj)
  have hfront := Bound.inert_append (Bound.inert_append (Bound.inert_append (Bound.inert_append (Bound.inert_append
    hselect hlist) hfrom) (inert_tableSql (q := q) table)) (inert_aliasSql (q := q) tableAlias)) hjoined
  rw [sql_base]
  exact ((shows_whereSql hconditions).inert_append hfront).append_inert (inert_groupSql hgroups)
    (breaks_groupSql groups)

theorem shows_around {inner : Statement} {ls : List (Scope × Leaf)} (hinner : Shows q bag (inner.sql q) ls)
    {conditions : List String} {lss : List (List (Scope × Leaf))}
    (hconditions : List.Forall₂ (Shows q bag) conditions lss) :
    Shows q bag ((around inner conditions).sql q) (ls ++ lss.flatten) := by
  have hselect : Inert "SELECT ".toList := Bound.inert_of_all (by decide)
  have hopening : Inert ".* FROM (".toList := Bound.inert_of_all (by decide)
  have hclosing : Inert ") AS ".toList := Bound.inert_of_all (by decide)
  have hbreaks : Breaks ") AS ".toList := Bound.breaks_of_head? (c := ')') (by decide) rfl
  have hname := Bound.inert_quote q wrapAlias
  have hfront := Bound.inert_append (Bound.inert_append hselect hname) hopening
  have hrows := ((hinner.inert_append hfront).append_inert hclosing hbreaks).append_inert hname
    (breaks_quote wrapAlias)
  rw [sql_around]
  exact hrows.append (shows_whereSql hconditions) (breaks_whereSql conditions)

theorem shows_count {inner : Statement} {ls : List (Scope × Leaf)} (hinner : Shows q bag (inner.sql q) ls) :
    Shows q bag (inner.count.sql q) ls := by
  have hopening : Inert "SELECT COUNT(*) FROM (".toList := Bound.inert_of_all (by decide)
  have hclosing : Inert ") AS ".toList := Bound.inert_of_all (by decide)
  have hbreaks : Breaks ") AS ".toList := Bound.breaks_of_head? (c := ')') (by decide) rfl
  rw [sql_count]
  exact ((hinner.inert_append hopening).append_inert hclosing hbreaks).append_inert
    (Bound.inert_quote q wrapAlias) (breaks_quote wrapAlias)

theorem shows_pageSql {s : Statement} {ls : List (Scope × Leaf)} (hs : Shows q bag (s.sql q) ls)
    {order : List SortKey} (horder : ∀ k ∈ order, Inert k.expression.toList) (limit offset : Nat) :
    Shows q bag (s.pageSql q order limit offset) ls := by
  have hsplit : s.pageSql q order limit offset = s.sql q ++ orderSql q order ++ windowSql limit offset := by
    simp only [pageSql, windowSql, String.append_assoc]
  rw [hsplit]
  exact (hs.append_inert (inert_orderSql horder) (breaks_orderSql order)).append_inert
    (.plain (isPlain_windowSql limit offset)) (breaks_windowSql limit offset)

end Statement
end Listing
