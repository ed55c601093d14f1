import Listing.Proofs.Condition.Raw
import Listing.Proofs.Filter.Comparison
import Listing.Proofs.Query.AllowList
/-!
# Conditions that always hold

A definition's conditions stand in a list's own query next to the filter. The filter's clause is balanced
whatever the client asks for, if the fields' expressions are (`balanced_condition`). So the query's
conditions are read as all of them at once, and no filter lets a row through that one of the definition's
conditions keeps out (`prepare_guarded`).
-/
namespace Listing

open Condition (Token Formula join joint spell)
open Raw (Balanced breaks_space breaks_opening)

variable {q : Platform}

/-! ## Comparisons -/

theorem isPlain_of_isNameChar {c : Char} (h : Bound.isNameChar c = true) : Raw.isPlain c = true :=
  Predicate.forall_isNameChar Raw.isPlain (by decide) h

theorem isPlain_of_isBlank {c : Char} (h : Text.isBlank c = true) : Raw.isPlain c = true := by
  by_contra hnot
  simp only [Raw.isPlain, Bool.and_eq_true, bne_iff_ne, not_and_or, not_not] at hnot
  rcases hnot with (((rfl | rfl) | rfl) | rfl) | rfl <;> cases h

theorem isWordChar_of_isBlank {c : Char} (h : Text.isBlank c = true) : Raw.isWordChar c = false := by
  have hname : Bound.isNameChar c = false := by
    by_contra hname
    rw [Predicate.isBlank_of_isNameChar (by simpa using hname)] at h
    cases h
  have hdollar : c ≠ '$' := by
    rintro rfl
    cases h
  simp only [Bound.isNameChar, Bool.or_eq_false_iff] at hname
  simp [Raw.isWordChar, hname, hdollar, h]

theorem balanced_blank {c : Char} (h : Text.isBlank c = true) {cs : List Char} :
    Balanced q (c :: cs) ↔ Balanced q cs := by
  obtain ⟨hquote, hopen, hclose⟩ := Raw.isQuote_of_isPlain (p := q) (isPlain_of_isBlank h)
  exact Raw.balanced_cons_iff (isWordChar_of_isBlank h) hquote hopen hclose

theorem balanced_trimFront {cs : List Char} (h : Balanced q cs) : Balanced q (Text.trimFront cs) := by
  induction cs with
  | nil => exact h
  | cons c cs ih =>
    cases hc : Text.isBlank c with
    | true =>
      rw [Text.trimFront, List.dropWhile_cons_of_pos hc]
      exact ih ((balanced_blank hc).mp h)
    | false =>
      rw [Text.trimFront_of_begins ⟨c, cs, rfl, hc⟩]
      exact h

namespace Predicate

theorem balanced_subject {p : Predicate} {scope : Scope} (h : Balanced q (p.expression scope).toList) :
    Balanced q (p.subject scope).toList := by
  unfold subject
  split
  · have hlower : Balanced q "lower".toList := .of_plain rfl
    have hsplit : ("lower(" ++ p.expression scope ++ ")").toList =
        "lower".toList ++ ('(' :: (p.expression scope).toList ++ [')']) := by
      simp
    rw [hsplit]
    exact hlower.append h.parentheses (breaks_opening _)
  · rw [String.toList_ofList]
    exact balanced_trimFront h

theorem all_isPlain_baseName (field : String) (number : UInt32) :
    (baseName field number).toList.all Raw.isPlain = true := by
  rw [toList_baseName, List.all_cons, List.all_eq_true.mpr fun c hc => isPlain_of_isNameChar (isNameChar_nameOf c hc)]
  rfl

theorem all_isPlain_sql (op : Operator) : op.sql.toList.all Raw.isPlain = true := by
  cases op <;> rfl

theorem balanced_rendered {p : Predicate} {f : Field} (h : p.OnField f) : Balanced q p.rendered.toList := by
  have hsql := all_isPlain_sql p.operator
  have hbase : p.base.toList.all Raw.isPlain = true := h.base ▸ all_isPlain_baseName f.name p.number
  unfold rendered
  split
  · exact .of_plain hsql
  · split
    · refine .of_plain ?_
      simp only [String.toList_append, List.all_append, hsql, hbase]
      rfl
    · split
      · have hsplit : (p.operator.sql ++ "(" ++ p.base ++ ")").toList =
            p.operator.sql.toList ++ ('(' :: p.base.toList ++ [')']) := by
          simp
        rw [hsplit]
        exact (Balanced.of_plain hsql).append (Balanced.of_plain hbase).parentheses (breaks_opening _)
      · refine .of_plain ?_
        simp only [String.toList_append, List.all_append, hsql, hbase]
        rfl

theorem balanced_comparison {p : Predicate} {f : Field} {scope : Scope} (hp : p.contributes scope = true)
    (hfield : p.OnField f) (hrenderer : p.PlainOrLower) (h : Balanced q (p.expression scope).toList) :
    Balanced q (p.comparison scope).toList := by
  rw [comparison_eq, comparisonWith_eq hp hrenderer (ends_rendered hfield), String.toList_append,
    String.toList_append, List.append_assoc]
  refine (balanced_subject h).append ?_ (breaks_space _)
  exact (balanced_blank rfl).mpr (balanced_rendered hfield)

end Predicate

/-! ## Filters -/

namespace Node

section
variable (word : Leaf → String)

/-- Balanced texts with a connective between them are balanced. -/
theorem balanced_joined (ts : List (Token Leaf)) (c : Connective) (us : List (Token Leaf))
    (hts : Balanced q (spell word ts).toList) (hus : Balanced q (spell word us).toList) :
    Balanced q (spell word (ts ++ joint c :: us)).toList := by
  have hletters : Balanced q (' ' :: c.sql.toList) := (balanced_blank rfl).mpr (.of_plain (by cases c <;> rfl))
  have hback := hletters.append ((balanced_blank (c := ' ') rfl).mpr hus) (breaks_space _)
  have htext : (spell word (ts ++ joint c :: us)).toList =
      (spell word ts).toList ++ (' ' :: c.sql.toList ++ ' ' :: (spell word us).toList) := by
    simp [Condition.spell_joined]
  rw [htext]
  exact hts.append hback (breaks_space _)

theorem balanced_enclosed (ts : List (Token Leaf)) (h : Balanced q (spell word ts).toList) :
    Balanced q (spell word (.opening :: ts ++ [.closing])).toList := by
  have htext : (spell word (.opening :: ts ++ [.closing])).toList = '(' :: (spell word ts).toList ++ [')'] := by
    rw [Condition.spell_enclosed]
    simp
  rw [htext]
  exact h.parentheses

end

/-- The condition of a filter is balanced if its comparisons are. -/
theorem balanced_condition {scope : Scope} {n : Node} (hlegible : n.Legible scope)
    (h : ∀ p ∈ n.predicates, p.contributes scope = true → Balanced q (p.comparison scope).toList) {text : String}
    (htext : n.condition scope = some text) : Balanced q text.toList := by
  rw [condition_eq_spell scope n [] hlegible] at htext
  obtain ⟨ts, hts, rfl⟩ := Option.map_eq_some_iff.mp htext
  refine tokensAt_induction scope (balanced_joined _) (balanced_enclosed _) [] n (fun path p hp hspeaks => ?_) hts
  rw [spell, spell, String.append_empty]
  exact h p hp hspeaks

end Node

/-! ## Prepared queries -/

/-- A text is read as the conjunction of conditions, each of which is one conjunct as it is read alone. -/
def ReadTogether (q : Platform) (text : String) (conditions : List String) : Prop :=
  ∃ f fs, List.Forall₂ (fun c g => Raw.read q c.toList = some g) conditions (f :: fs) ∧
    Raw.read q text.toList = some (Raw.conjunction f fs)

/-- Where the whole text holds, each condition holds. -/
theorem ReadTogether.holds {text : String} {conditions : List String} (h : ReadTogether q text conditions)
    {f : Formula (List Char)} (hf : Raw.read q text.toList = some f) {v : List Char → Bool}
    (hv : f.eval v = true) {c : String} (hc : c ∈ conditions) :
    ∃ g, Raw.read q c.toList = some g ∧ g.eval v = true := by
  obtain ⟨g, gs, hread, htext⟩ := h
  rw [htext, Option.some.injEq] at hf
  rw [← hf, Raw.eval_conjunction, List.all_eq_true] at hv
  obtain ⟨i, hi, rfl⟩ := List.getElem_of_mem hc
  have hlength := hread.length_eq
  exact ⟨(g :: gs)[i], hread.get hi (hlength ▸ hi), hv _ (List.getElem_mem _)⟩

/-- Balanced conditions are read together. -/
theorem exists_readTogether {conditions : List String} (hne : conditions ≠ [])
    (h : ∀ c ∈ conditions, Balanced q c.toList) :
    ∃ text, Statement.whereSql conditions = " WHERE " ++ text ∧ ReadTogether q text conditions := by
  have hread : ∀ cs : List String, (∀ c ∈ cs, Balanced q c.toList) →
      ∃ fs, List.Forall₂ (fun c g => Raw.read q c.toList = some g) cs fs := by
    intro cs hcs
    induction cs with
    | nil => exact ⟨[], .nil⟩
    | cons c cs ih =>
      obtain ⟨f, hf⟩ := Raw.exists_read_iff.mpr (hcs c List.mem_cons_self)
      obtain ⟨fs, hfs⟩ := ih fun d hd => hcs d (List.mem_cons_of_mem c hd)
      exact ⟨f :: fs, .cons hf hfs⟩
  obtain ⟨c, rest, rfl⟩ := List.exists_cons_of_ne_nil hne
  obtain ⟨fs, hfs⟩ := hread _ h
  cases hfs with
  | cons hf hfs =>
    obtain ⟨text, htext, hall⟩ := Raw.read_whereSql hf hfs
    exact ⟨text, htext, _, _, .cons hf hfs, hall⟩

namespace ListQuery

/-- The conditions of the list's own query: the definition's and the filter's. -/
def conditionsWith (q : ListQuery) (filter : Node) : List String :=
  q.skeleton.conditions ++ (filter.condition .inner).toList

/-- The list's own query under a filter. -/
def baseWith (q : ListQuery) (columns : List Column) (filter : Node) : Statement :=
  .base columns q.skeleton.table q.skeleton.tableAlias q.skeleton.joins (q.conditionsWith filter) q.skeleton.groupBy

theorem statement_eq_ok {s : Skeleton} {base : Statement} (h : s.statement = .ok base) :
    ∃ columns, s.columns = .ok columns ∧
      base = .base columns s.table s.tableAlias s.joins s.conditions s.groupBy := by
  unfold Skeleton.statement at h
  split at h
  · cases h
  · split at h
    · cases h
    · obtain ⟨columns, hcolumns, h⟩ := bind_eq_ok.1 h
      cases h
      exact ⟨columns, hcolumns, rfl⟩

/-- A filter that looks at an aggregated field filters a query around the list's own once more. -/
theorem filtered_eq {q : ListQuery} {base : Statement} (hbase : q.skeleton.statement = .ok base) (filter : Node) :
    ∃ columns, q.skeleton.columns = .ok columns ∧ filtered base filter =
      if filter.aggregated then .around (q.baseWith columns filter) (filter.condition .outer).toList
      else q.baseWith columns filter := by
  obtain ⟨columns, hcolumns, rfl⟩ := statement_eq_ok hbase
  refine ⟨columns, hcolumns, ?_⟩
  have hinner : (Statement.base columns q.skeleton.table q.skeleton.tableAlias q.skeleton.joins
      q.skeleton.conditions q.skeleton.groupBy).restrict (filter.condition .inner) = q.baseWith columns filter := by
    rw [baseWith, conditionsWith]
    cases filter.condition .inner with
    | none => simp [Statement.restrict]
    | some c => rfl
  unfold filtered
  rw [hinner]
  cases filter.condition .outer <;> rfl

/-- The conditions of the list's own query are read together, the definition's and the filter's, so that
the definition's hold wherever all of them do. -/
theorem prepare_guarded (q : ListQuery) (hq : q.catalog.Reachable)
    (hconditions : ∀ c ∈ q.skeleton.conditions, Balanced q.platform c.toList)
    (hfields : ∀ name f, q.catalog.get? name = some f →
      Balanced q.platform f.expression.toList ∧ f.PlainOrLower)
    {filters : Json} {sort : List SortBy} {p : Prepared} (hp : q.prepare filters sort = .ok p) :
    ∃ filter columns, MadeFrom q filters p filter ∧ q.skeleton.columns = .ok columns ∧
      (p.statement = q.baseWith columns filter ∨
        ∃ conditions, p.statement = .around (q.baseWith columns filter) conditions) ∧
      (q.conditionsWith filter = [] ∨ ∃ text,
        Statement.whereSql (q.conditionsWith filter) = " WHERE " ++ text ∧
        ReadTogether q.platform text (q.conditionsWith filter) ∧
        ∀ f v, Raw.read q.platform text.toList = some f → f.eval v = true →
          ∀ c ∈ q.skeleton.conditions, ∃ g, Raw.read q.platform c.toList = some g ∧ g.eval v = true) := by
  obtain ⟨count, hcheck, hp⟩ := bind_eq_ok.1 hp
  obtain ⟨filter, hbuild, hp⟩ := bind_eq_ok.1 hp
  obtain ⟨base, hbase, hp⟩ := bind_eq_ok.1 hp
  obtain ⟨order, _, hp⟩ := bind_eq_ok.1 hp
  cases hp
  obtain ⟨columns, hcolumns, hstatement⟩ := filtered_eq hbase filter
  refine ⟨filter, columns, ⟨hbuild, ⟨base, hbase, rfl⟩, rfl, rfl⟩, hcolumns, ?_, ?_⟩
  · rw [hstatement]
    split
    · exact .inr ⟨_, rfl⟩
    · exact .inl rfl
  by_cases hne : q.conditionsWith filter = []
  · exact .inl hne
  have hmatched := Spec.matched_build (Catalog.indexed_of_reachable hq) hcheck hbuild
  have hfilter : ∀ c ∈ (filter.condition .inner).toList, Balanced q.platform c.toList := by
    intro c hc
    have hpredicates : ∀ p ∈ filter.predicates, p.PlainOrLower ∧
        (p.contributes .inner = true → Balanced q.platform (p.comparison .inner).toList) := by
      intro p hp
      obtain ⟨f, hf⟩ := hmatched.exists_allowed hp
      obtain ⟨hexpression, hrenderer⟩ := hfields f.name f hf.field
      have hfield := Predicate.onField_of_allowed hf
      have hplain := hfield.plainOrLower hrenderer
      refine ⟨hplain, fun hp => Predicate.balanced_comparison hp hfield hplain ?_⟩
      rw [Predicate.expression, hfield.inner]
      exact hexpression
    have hlegible : filter.Legible .inner := fun p hp _ => (hpredicates p hp).1.legible .inner
    exact Node.balanced_condition hlegible (fun p hp => (hpredicates p hp).2) (Option.mem_toList.mp hc)
  have hall : ∀ c ∈ q.conditionsWith filter, Balanced q.platform c.toList := by
    intro c hc
    rcases List.mem_append.mp hc with hc | hc
    · exact hconditions c hc
    · exact hfilter c hc
  obtain ⟨text, htext, htogether⟩ := exists_readTogether hne hall
  refine .inr ⟨text, htext, htogether, fun f v hf hv c hc => ?_⟩
  exact htogether.holds hf hv (List.mem_append_left _ hc)

/-- The cities that a tenant may see, and that are not removed. -/
def tenantCities : ListQuery :=
  { skeleton :=
      { select := ["c.name AS name", "lower(c.kind) AS kind"], table := "city", tableAlias := some "c"
        conditions := ["c.tenant = 1 OR c.note = 'all)'", "c.removed IS NULL"] }
    catalog := .ofColumns [⟨"name", "c.name"⟩, ⟨"kind", "lower(c.kind)"⟩]
    platform := .mysql }

/-- Cities of one of two names and of a kind between two. -/
def namesAndKinds : Json :=
  .arr [
    .obj [("property", .str "name"), ("operator", .str "in"), ("value", .arr [.str "') OR (1=1", .str "b"])],
    .obj [("property", .str "kind"), ("operator", .str "between"), ("value", .arr [.str "a", .str "m"])]]

theorem prepare_guarded_tenantCities :
    ∃ p, tenantCities.prepare namesAndKinds [] = .ok p ∧
      ∃ filter columns, MadeFrom tenantCities namesAndKinds p filter ∧ tenantCities.skeleton.columns = .ok columns ∧
        (p.statement = tenantCities.baseWith columns filter ∨
          ∃ conditions, p.statement = .around (tenantCities.baseWith columns filter) conditions) ∧
        (tenantCities.conditionsWith filter = [] ∨ ∃ text,
          Statement.whereSql (tenantCities.conditionsWith filter) = " WHERE " ++ text ∧
          ReadTogether .mysql text (tenantCities.conditionsWith filter) ∧
          ∀ f v, Raw.read .mysql text.toList = some f → f.eval v = true →
            ∀ c ∈ tenantCities.skeleton.conditions, ∃ g, Raw.read .mysql c.toList = some g ∧ g.eval v = true) := by
  have hconditions : ∀ c ∈ tenantCities.skeleton.conditions, Balanced .mysql c.toList := by
    intro c hc
    simp only [tenantCities, List.mem_cons, List.not_mem_nil, or_false] at hc
    rcases hc with rfl | rfl <;> decide +kernel
  have hfields : ∀ name f, tenantCities.catalog.get? name = some f →
      Balanced .mysql f.expression.toList ∧ f.PlainOrLower := by
    intro name f hf
    obtain ⟨col, hcol, rfl⟩ := Catalog.mem_fields_ofColumns (Catalog.mem_fields_of_get? hf)
    simp only [List.mem_cons, List.not_mem_nil, or_false] at hcol
    rcases hcol with rfl | rfl <;> exact ⟨by decide +kernel, .inl rfl⟩
  have hok : (tenantCities.prepare namesAndKinds []).isOk = true := by cbv
  cases hp : tenantCities.prepare namesAndKinds [] with
  | error e => rw [hp] at hok; cases hok
  | ok p => exact ⟨p, rfl, prepare_guarded tenantCities (.ofColumns _) hconditions hfields hp⟩

end ListQuery
end Listing
