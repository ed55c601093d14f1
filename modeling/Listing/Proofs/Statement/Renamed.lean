import Listing.Proofs.Statement.Shown
/-!
# Texts with other names

Two texts are renamed if they are one text but for the names outside quotes, which are related one by one.
Renamed texts stay renamed when they are put together, trimmed and made into statements (`renamed_pageSql`,
`renamed_count`). If related names stand for the same values in two bags, both bind to the same
(`bind_renamed`).
-/
namespace Listing

namespace Text

theorem trimBack_append {cs : List Char} (h : Ends cs) (ds : List Char) : trimBack (cs ++ ds) = cs ++ trimBack ds := by
  obtain ⟨front, c, rfl, hc⟩ := h
  simp only [trimBack, List.reverse_append, List.dropWhile_append]
  split
  · next hblank =>
    have hnil : ds.reverse.dropWhile isBlank = [] := List.isEmpty_iff.mp hblank
    rw [hnil]
    simp [List.dropWhile_cons_of_neg, hc]
  · simp

theorem trimBack_cons_blank {c : Char} (h : isBlank c = true) (cs : List Char) :
    trimBack (c :: cs) = if trimBack cs = [] then [] else c :: trimBack cs := by
  simp only [trimBack, List.reverse_cons, List.dropWhile_append, List.isEmpty_iff, List.reverse_eq_nil_iff]
  split <;> simp [h]

theorem trimBack_prefix (cs : List Char) : trimBack cs <+: cs := by
  have hreverse := List.reverse_prefix.mpr (List.dropWhile_suffix (l := cs.reverse) isBlank)
  rwa [List.reverse_reverse] at hreverse

end Text

namespace Bound

/-- One text but for the names outside quotes, which are related. -/
inductive Renamed (R : List Char → List Char → Prop) : List Char → List Char → Prop
  | nil : Renamed R [] []
  | char {c : Char} {cs ds : List Char} (hcolon : c ≠ ':') (hquote : isQuote c = false) (h : Renamed R cs ds) :
      Renamed R (c :: cs) (c :: ds)
  | colons {cs ds : List Char} (h : Renamed R cs ds) : Renamed R (':' :: ':' :: cs) (':' :: ':' :: ds)
  | quoted {q : Char} {body cs ds : List Char} (hquote : isQuote q = true) (hbody : q ∉ body) (h : Renamed R cs ds) :
      Renamed R (q :: body ++ q :: cs) (q :: body ++ q :: ds)
  | name {name name' cs ds : List Char} (hname : IsName name) (hname' : IsName name') (hR : R name name')
      (hbreaks : Breaks cs) (h : Renamed R cs ds) : Renamed R (':' :: name ++ cs) (':' :: name' ++ ds)

variable {R : List Char → List Char → Prop} {cs ds cs' ds' : List Char}

namespace Renamed

theorem mono {S : List Char → List Char → Prop} (h : Renamed R cs ds) (hRS : ∀ n n', R n n' → S n n') :
    Renamed S cs ds := by
  induction h with
  | nil => exact .nil
  | char hcolon hquote _ ih => exact .char hcolon hquote ih
  | colons _ ih => exact .colons ih
  | quoted hquote hbody _ ih => exact .quoted hquote hbody ih
  | name hname hname' hR hbreaks _ ih => exact .name hname hname' (hRS _ _ hR) hbreaks ih

/-- Both begin with the same character. -/
theorem head?_eq (h : Renamed R cs ds) : cs.head? = ds.head? := by
  cases h <;> rfl

theorem breaks (h : Renamed R cs ds) (hbreaks : Breaks cs) : Breaks ds := by
  rwa [Breaks, ← h.head?_eq]

theorem eq_nil_iff (h : Renamed R cs ds) : cs = [] ↔ ds = [] := by
  rw [← List.head?_eq_none_iff, h.head?_eq, List.head?_eq_none_iff]

theorem append (h : Renamed R cs ds) (h' : Renamed R cs' ds') (hbreaks : Breaks cs') :
    Renamed R (cs ++ cs') (ds ++ ds') := by
  induction h with
  | nil => exact h'
  | char hcolon hquote _ ih => exact .char hcolon hquote ih
  | colons _ ih => exact .colons ih
  | quoted hquote hbody _ ih =>
    simp only [List.append_assoc, List.cons_append] at ih ⊢
    exact .quoted hquote hbody ih
  | name hname hname' hR hbreaks' _ ih =>
    rw [List.append_assoc, List.append_assoc]
    exact .name hname hname' hR (hbreaks'.append hbreaks) ih

end Renamed

/-- Text without names in front of renamed texts. -/
theorem Inert.renamed_append (hcs : Inert cs) (h : Renamed R cs' ds') : Renamed R (cs ++ cs') (cs ++ ds') := by
  induction hcs with
  | nil => exact h
  | char hcolon hquote _ ih => exact .char hcolon hquote ih
  | colons _ ih => exact .colons ih
  | quoted hquote hbody _ ih =>
    simp only [List.append_assoc, List.cons_append] at ih ⊢
    exact .quoted hquote hbody ih

theorem Inert.renamed (h : Inert cs) : Renamed R cs cs := by
  simpa using h.renamed_append (R := R) .nil

/-! ## Trimming -/

theorem Renamed.trimFront (h : Renamed R cs ds) : Renamed R (Text.trimFront cs) (Text.trimFront ds) := by
  induction h with
  | nil => exact .nil
  | @char c cs ds hcolon hquote h ih =>
    cases hc : Text.isBlank c with
    | true =>
      rw [Text.trimFront, List.dropWhile_cons_of_pos hc, Text.trimFront, List.dropWhile_cons_of_pos hc]
      exact ih
    | false =>
      rw [Text.trimFront_of_begins ⟨c, cs, rfl, hc⟩, Text.trimFront_of_begins ⟨c, ds, rfl, hc⟩]
      exact .char hcolon hquote h
  | colons h =>
    rw [Text.trimFront_of_begins ⟨':', _, rfl, rfl⟩, Text.trimFront_of_begins ⟨':', _, rfl, rfl⟩]
    exact .colons h
  | @quoted q body cs ds hquote hbody h ih =>
    have hq : Text.isBlank q = false := isBlank_of_isQuote hquote
    rw [List.cons_append, List.cons_append, Text.trimFront_of_begins ⟨q, _, rfl, hq⟩,
      Text.trimFront_of_begins ⟨q, _, rfl, hq⟩]
    exact .quoted hquote hbody h
  | name hname hname' hR hbreaks h =>
    rw [List.cons_append, List.cons_append, Text.trimFront_of_begins ⟨':', _, rfl, rfl⟩,
      Text.trimFront_of_begins ⟨':', _, rfl, rfl⟩]
    exact .name hname hname' hR hbreaks h

theorem IsName.ends {name : List Char} (h : IsName name) : Text.Ends (':' :: name) :=
  (Text.ends_of_forall h.1 fun c hc => Predicate.isBlank_of_isNameChar (h.2 c hc)).append [':']

theorem breaks_trimBack (h : Breaks cs) : Breaks (Text.trimBack cs) := by
  obtain ⟨tail, htail⟩ := Text.trimBack_prefix cs
  generalize Text.trimBack cs = front at htail
  cases front with
  | nil => exact breaks_nil
  | cons c front =>
    rw [← htail] at h
    exact breaks_cons (h c rfl) front

theorem Renamed.trimBack (h : Renamed R cs ds) : Renamed R (Text.trimBack cs) (Text.trimBack ds) := by
  induction h with
  | nil => exact .nil
  | @char c cs ds hcolon hquote h ih =>
    cases hc : Text.isBlank c with
    | true =>
      rw [Text.trimBack_cons_blank hc, Text.trimBack_cons_blank hc]
      simp only [ih.eq_nil_iff]
      split
      · exact .nil
      · exact .char hcolon hquote ih
    | false =>
      have hends : Text.Ends [c] := ⟨[], c, rfl, hc⟩
      have hcs := Text.trimBack_append hends cs
      have hds := Text.trimBack_append hends ds
      rw [List.singleton_append] at hcs hds
      rw [hcs, hds]
      exact .char hcolon hquote ih
  | @colons cs ds h ih =>
    have hends : Text.Ends [':', ':'] := ⟨[':'], ':', rfl, rfl⟩
    have hcs := Text.trimBack_append hends cs
    have hds := Text.trimBack_append hends ds
    simp only [List.cons_append, List.nil_append] at hcs hds
    rw [hcs, hds]
    exact .colons ih
  | @quoted q body cs ds hquote hbody h ih =>
    have hends : Text.Ends (q :: body ++ [q]) := ⟨q :: body, q, rfl, isBlank_of_isQuote hquote⟩
    have hcs := Text.trimBack_append hends cs
    have hds := Text.trimBack_append hends ds
    simp only [List.append_assoc, List.singleton_append] at hcs hds
    rw [hcs, hds]
    exact .quoted hquote hbody ih
  | name hname hname' hR hbreaks h ih =>
    rw [Text.trimBack_append hname.ends, Text.trimBack_append hname'.ends]
    exact .name hname hname' hR (breaks_trimBack hbreaks) ih

theorem renamed_trim {s t : String} (h : Renamed R s.toList t.toList) :
    Renamed R (Text.trim s).toList (Text.trim t).toList := by
  rw [Text.trim, Text.trim, String.toList_ofList, String.toList_ofList]
  exact h.trimFront.trimBack

/-! ## Texts put together -/

theorem renamed_append {s s' t t' : String} (hs : Renamed R s.toList s'.toList) (ht : Renamed R t.toList t'.toList)
    (hbreaks : Breaks t.toList) : Renamed R (s ++ t).toList (s' ++ t').toList := by
  rw [String.toList_append, String.toList_append]
  exact hs.append ht hbreaks

theorem Inert.renamed_prepend {s t t' : String} (hs : Inert s.toList) (ht : Renamed R t.toList t'.toList) :
    Renamed R (s ++ t).toList (s ++ t').toList := by
  rw [String.toList_append, String.toList_append]
  exact hs.renamed_append ht

theorem breaks_append {s : String} {c : Char} (hs : s.toList.head? = some c) (hc : isNameChar c = false) (t : String) :
    Breaks (s ++ t).toList := by
  rw [String.toList_append]
  exact breaks_of_head? (by rw [List.head?_append, hs, Option.some_or]) hc

/-- Renamed texts in parentheses, with something in front of the first. -/
theorem renamed_enclosed {opening s s' : String} (hopening : Inert opening.toList) (h : Renamed R s.toList s'.toList) :
    Renamed R (opening ++ s ++ ")").toList (opening ++ s' ++ ")").toList := by
  have hclosing : Inert ")".toList := inert_of_all (by decide)
  exact renamed_append (hopening.renamed_prepend h) hclosing.renamed (breaks_of_head? (c := ')') (by decide) rfl)

/-- The text with other names in place of its own is the text itself. -/
abbrev Steady (R : List Char → List Char → Prop) (s : String) : Prop := Renamed R s.toList s.toList

theorem renamed_intercalate {separator : String} (hseparator : Inert separator.toList) {c : Char}
    (hc : separator.toList.head? = some c) (hbreaks : isNameChar c = false) {texts texts' : List String}
    (h : List.Forall₂ (fun s t => Renamed R s.toList t.toList) texts texts') :
    Renamed R (String.intercalate separator texts).toList (String.intercalate separator texts').toList := by
  induction h with
  | nil => exact .nil
  | @cons s t texts texts' hs htexts ih =>
    cases htexts with
    | nil => simpa using hs
    | @cons s' t' texts texts' hs' htexts =>
      rw [String.intercalate_cons_cons, String.intercalate_cons_cons, String.append_assoc, String.append_assoc]
      exact renamed_append hs (hseparator.renamed_prepend ih) (breaks_append hc hbreaks _)

theorem steady_intercalate {separator : String} (hseparator : Inert separator.toList) {c : Char}
    (hc : separator.toList.head? = some c) (hbreaks : isNameChar c = false) {texts : List String}
    (h : ∀ s ∈ texts, Steady R s) : Steady R (String.intercalate separator texts) :=
  renamed_intercalate hseparator hc hbreaks (List.forall₂_same.mpr h)

theorem breaks_join {texts : List String} (h : ∀ s ∈ texts, Breaks s.toList) : Breaks (String.join texts).toList := by
  induction texts with
  | nil => exact breaks_nil
  | cons s texts ih =>
    rw [String.join_cons, String.toList_append]
    exact (h s List.mem_cons_self).append (ih fun t ht => h t (List.mem_cons_of_mem s ht))

theorem steady_join {texts : List String} (h : ∀ s ∈ texts, Steady R s) (hbreaks : ∀ s ∈ texts, Breaks s.toList) :
    Steady R (String.join texts) := by
  induction texts with
  | nil => exact .nil
  | cons s texts ih =>
    rw [List.forall_mem_cons] at h hbreaks
    rw [String.join_cons]
    exact renamed_append h.1 (ih h.2 hbreaks.2) (breaks_join hbreaks.2)

/-! ## Binding -/

/-- Two names stand for one value, or are one name that no bag has. -/
def Reads (bag bag' : Bag) (name name' : List Char) : Prop :=
  (∃ v, bag.get? (.ofList (':' :: name)) = some v ∧ bag'.get? (.ofList (':' :: name')) = some v) ∨
    (name = name' ∧ bag.get? (.ofList (':' :: name)) = none ∧ bag'.get? (.ofList (':' :: name)) = none)

theorem fill_renamed {p : Platform} {bag bag' : Bag} (h : Renamed (Reads bag bag') cs ds) (before : Nat) :
    fill p bag before (pieces .plain cs) = fill p bag' before (pieces .plain ds) := by
  -- what both have in front without a name is copied in both
  have hcopied : ∀ (front : List Char) {cs ds : List Char}, Inert front →
      (∀ before, fill p bag before (pieces .plain cs) = fill p bag' before (pieces .plain ds)) →
      ∀ before, fill p bag before (pieces .plain (front ++ cs)) = fill p bag' before (pieces .plain (front ++ ds)) := by
    intro front cs ds hfront h before
    rw [pieces_inert hfront, pieces_inert hfront, fill_chars, fill_chars, h before]
  induction h generalizing before with
  | nil => rfl
  | @char c cs ds hcolon hquote _ ih => exact hcopied [c] (.char hcolon hquote .nil) ih before
  | @colons cs ds _ ih => exact hcopied [':', ':'] (.colons .nil) ih before
  | @quoted q body cs ds hquote hbody _ ih =>
    have hcs : q :: body ++ q :: cs = (q :: body ++ q :: []) ++ cs := by simp
    have hds : q :: body ++ q :: ds = (q :: body ++ q :: []) ++ ds := by simp
    rw [hcs, hds]
    exact hcopied _ (.quoted hquote hbody .nil) ih before
  | @name name name' cs ds hname hname' hR hbreaks h ih =>
    rw [pieces_name hname hbreaks, pieces_name hname' (h.breaks hbreaks)]
    rcases hR with ⟨v, hv, hv'⟩ | ⟨rfl, hnone, hnone'⟩
    · rw [fill_name p bag hv, fill_name p bag' hv', ih]
    · rw [fill, hnone, fill, hnone', ih]

end Bound

/-- Statements that are renamed as their bags are bind to the same. -/
theorem Platform.bind_renamed (p : Platform) {bag bag' : Bag} {sql sql' : String}
    (h : Bound.Renamed (Bound.Reads bag bag') sql.toList sql'.toList) : p.bind sql bag = p.bind sql' bag' := by
  rw [bind, bind, Bound.fill_renamed h]

/-! ## Statements -/

namespace Statement

open Listing.Bound (Inert Breaks Renamed Steady)

variable {q : Platform} {R : List Char → List Char → Prop}

theorem breaks_tableSql (name : String) : Breaks (tableSql q name).toList := by
  simp only [tableSql]
  split
  · exact breaks_quote _
  · rw [String.append_assoc, String.toList_append]
    exact (breaks_quote _).append (Bound.breaks_append rfl rfl _)

theorem breaks_aliasSql (name : Option String) : Breaks (aliasSql q name).toList := by
  cases name with
  | none => exact Bound.breaks_nil
  | some name => exact Bound.breaks_append rfl rfl _

theorem breaks_joinSql (j : Join) : Breaks (joinSql q j).toList := by
  obtain ⟨front, hjoin, -, hbreaks⟩ := exists_joinSql (q := q) j
  rw [hjoin]
  exact hbreaks j.on

theorem steady_columnSql {c : Column} (h : Steady R c.expression) : Steady R (columnSql q c) := by
  have has : Breaks " AS ".toList := Bound.breaks_of_head? (c := ' ') (by decide) rfl
  exact Bound.renamed_append (Bound.renamed_append h (Bound.inert_of_all (by decide)).renamed has)
    (Bound.inert_quote q c.name).renamed (breaks_quote _)

theorem steady_joinSql {j : Join} (h : Steady R j.on) : Steady R (joinSql q j) := by
  obtain ⟨front, hjoin, hfront, -⟩ := exists_joinSql (q := q) j
  rw [hjoin]
  exact hfront.renamed_prepend h

theorem steady_groupSql {groups : List String} (h : ∀ g ∈ groups, Steady R g) : Steady R (groupSql groups) := by
  cases groups with
  | nil => exact .nil
  | cons g groups =>
    exact (Bound.inert_of_all (by decide)).renamed_prepend
      (Bound.steady_intercalate (c := ',') (Bound.inert_of_all (by decide)) (by decide) rfl h)

theorem steady_keySql {k : SortKey} (h : Steady R k.expression) : Steady R (keySql q k) := by
  obtain ⟨back, hkey, hback, hbreaks⟩ := exists_keySql (q := q) k
  rw [hkey]
  exact Bound.renamed_append h hback.renamed hbreaks

theorem steady_orderSql {order : List SortKey} (h : ∀ k ∈ order, Steady R k.expression) :
    Steady R (orderSql q order) := by
  cases order with
  | nil => exact .nil
  | cons k order =>
    have hkeys : ∀ s ∈ (k :: order).map (keySql q), Steady R s := by
      intro s hs
      obtain ⟨k', hk', rfl⟩ := List.mem_map.mp hs
      exact steady_keySql (h k' hk')
    exact (Bound.inert_of_all (by decide)).renamed_prepend
      (Bound.steady_intercalate (c := ',') (Bound.inert_of_all (by decide)) (by decide) rfl hkeys)

/-- Conditions with other names. -/
theorem renamed_whereSql {conditions conditions' : List String}
    (h : List.Forall₂ (fun c c' => Renamed R c.toList c'.toList) conditions conditions') :
    Renamed R (whereSql conditions).toList (whereSql conditions').toList := by
  have hwhere : Inert " WHERE ".toList := Bound.inert_of_all (by decide)
  have hand : Inert " AND ".toList := Bound.inert_of_all (by decide)
  have henclosed : List.Forall₂ (fun c c' => Renamed R c.toList c'.toList)
      (conditions.map fun c => "(" ++ c ++ ")") (conditions'.map fun c => "(" ++ c ++ ")") := by
    rw [List.forall₂_map_left_iff, List.forall₂_map_right_iff]
    exact h.imp fun _ _ h => Bound.renamed_enclosed (Bound.inert_of_all (by decide)) h
  cases h with
  | nil => exact .nil
  | cons hc hcs =>
    cases hcs with
    | nil => exact hwhere.renamed_prepend hc
    | cons => exact hwhere.renamed_prepend (Bound.renamed_intercalate (c := ' ') hand (by decide) rfl henclosed)

/-! ### Whole statements -/

/-- Base queries of the same texts but for the conditions. -/
theorem renamed_base {columns : List Column} (hcolumns : ∀ c ∈ columns, Steady R c.expression) (table : String)
    (tableAlias : Option String) {joins : List Join} (hjoins : ∀ j ∈ joins, Steady R j.on)
    {conditions conditions' : List String}
    (hconditions : List.Forall₂ (fun c c' => Renamed R c.toList c'.toList) conditions conditions')
    {groups : List String} (hgroups : ∀ g ∈ groups, Steady R g) :
    Renamed R ((base columns table tableAlias joins conditions groups).sql q).toList
      ((base columns table tableAlias joins conditions' groups).sql q).toList := by
  have hlist : Steady R (String.intercalate ", " (columns.map (columnSql q))) := by
    refine Bound.steady_intercalate (c := ',') (Bound.inert_of_all (by decide)) (by decide) rfl
      fun s hs => ?_
    obtain ⟨c, hc, rfl⟩ := List.mem_map.mp hs
    exact steady_columnSql (hcolumns c hc)
  have hjoined : Steady R (String.join (joins.map (joinSql q))) := by
    refine Bound.steady_join (fun s hs => ?_) fun s hs => ?_
    · obtain ⟨j, hj, rfl⟩ := List.mem_map.mp hs
      exact steady_joinSql (hjoins j hj)
    · obtain ⟨j, _, rfl⟩ := List.mem_map.mp hs
      exact breaks_joinSql j
  have hjoinedBreaks : Breaks (String.join (joins.map (joinSql q))).toList := by
    refine Bound.breaks_join fun s hs => ?_
    obtain ⟨j, _, rfl⟩ := List.mem_map.mp hs
    exact breaks_joinSql j
  have hselect : Inert "SELECT ".toList := Bound.inert_of_all (by decide)
  have hfrom : Inert " FROM ".toList := Bound.inert_of_all (by decide)
  have hfromBreaks : Breaks " FROM ".toList := Bound.breaks_of_head? (c := ' ') (by decide) rfl
  have hcolumnsFrom := Bound.renamed_append (hselect.renamed_prepend hlist) hfrom.renamed hfromBreaks
  have htable := Bound.renamed_append hcolumnsFrom (inert_tableSql (q := q) table).renamed (breaks_tableSql table)
  have halias := Bound.renamed_append htable (inert_aliasSql (q := q) tableAlias).renamed (breaks_aliasSql tableAlias)
  have hrows := Bound.renamed_append halias hjoined hjoinedBreaks
  rw [sql_base, sql_base]
  exact Bound.renamed_append (Bound.renamed_append hrows (renamed_whereSql hconditions) (breaks_whereSql conditions))
    (steady_groupSql hgroups) (breaks_groupSql groups)

/-- Renamed statements within others. -/
theorem renamed_wrapped {front s s' : String} (hfront : Inert front.toList) (h : Renamed R s.toList s'.toList) :
    Renamed R (front ++ s ++ ") AS " ++ q.quote wrapAlias).toList
      (front ++ s' ++ ") AS " ++ q.quote wrapAlias).toList := by
  have hclosing : Inert ") AS ".toList := Bound.inert_of_all (by decide)
  have hbreaks : Breaks ") AS ".toList := Bound.breaks_of_head? (c := ')') (by decide) rfl
  exact Bound.renamed_append (Bound.renamed_append (hfront.renamed_prepend h) hclosing.renamed hbreaks)
    (Bound.inert_quote q wrapAlias).renamed (breaks_quote wrapAlias)

theorem renamed_around {inner inner' : Statement} (hinner : Renamed R (inner.sql q).toList (inner'.sql q).toList)
    {conditions conditions' : List String}
    (hconditions : List.Forall₂ (fun c c' => Renamed R c.toList c'.toList) conditions conditions') :
    Renamed R ((around inner conditions).sql q).toList ((around inner' conditions').sql q).toList := by
  have hselect : Inert "SELECT ".toList := Bound.inert_of_all (by decide)
  have hopening : Inert ".* FROM (".toList := Bound.inert_of_all (by decide)
  have hfront := Bound.inert_append (Bound.inert_append hselect (Bound.inert_quote q wrapAlias)) hopening
  rw [sql_around, sql_around]
  exact Bound.renamed_append (renamed_wrapped hfront hinner) (renamed_whereSql hconditions) (breaks_whereSql conditions)

theorem renamed_count {inner inner' : Statement} (hinner : Renamed R (inner.sql q).toList (inner'.sql q).toList) :
    Renamed R (inner.count.sql q).toList (inner'.count.sql q).toList := by
  rw [sql_count, sql_count]
  exact renamed_wrapped (Bound.inert_of_all (by decide)) hinner

theorem renamed_pageSql {s s' : Statement} (hs : Renamed R (s.sql q).toList (s'.sql q).toList) {order : List SortKey}
    (horder : ∀ k ∈ order, Steady R k.expression) (limit offset : Nat) :
    Renamed R (s.pageSql q order limit offset).toList (s'.pageSql q order limit offset).toList := by
  have hsplit : ∀ s : Statement, s.pageSql q order limit offset =
      s.sql q ++ orderSql q order ++ windowSql limit offset := by
    intro s
    simp only [pageSql, windowSql, String.append_assoc]
  rw [hsplit, hsplit]
  exact Bound.renamed_append (Bound.renamed_append hs (steady_orderSql horder) (breaks_orderSql order))
    (Inert.plain (isPlain_windowSql limit offset)).renamed (breaks_windowSql limit offset)

end Statement
end Listing
