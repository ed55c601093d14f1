import Mathlib
import Listing.Proofs.Catalog.Derived
import Listing.Proofs.Condition.References
import Listing.Proofs.Query.Guarded
import Listing.Proofs.Query.Sorting
/-!
# What a wrapping query refers to

A query around a list's own knows the list's columns only by the names under which they are output. Its
condition and its order refer to nothing else: to the names that the client gave, each in quotes as it
stands in the inner select list (`prepare_refers`).
-/
namespace Listing

open Condition (Token atoms joint spell)
open Raw (breaks_space breaks_opening references references_append references_spaced references_space references_parentheses)

variable {q : Platform}

/-! ## Comparisons -/

theorem references_lower {cs : List Char} {xs : List (List Char)} (h : references q cs = some xs) :
    references q ('l' :: 'o' :: 'w' :: 'e' :: 'r' :: '(' :: cs ++ [')']) = some xs := by
  have hlower : references q ['l', 'o', 'w', 'e', 'r'] = some [] := by cases q <;> rfl
  exact references_append hlower (references_parentheses h) (breaks_opening _)

namespace Predicate

theorem references_sql (op : Operator) : references q op.sql.toList = some [] := by
  cases q <;> cases op <;> rfl

/-- A name of a parameter refers to nothing. -/
theorem references_base {p : Predicate} {f : Field} (h : p.OnField f) (suffix : List Char)
    (hsuffix : suffix.all Bound.isNameChar = true) : references q (p.base.toList ++ suffix) = some [] := by
  have hname : ∀ c ∈ nameOf f.name p.number ++ suffix, Bound.isNameChar c = true := by
    intro c hc
    rcases List.mem_append.mp hc with hc | hc
    · exact isNameChar_nameOf c hc
    · exact List.all_eq_true.mp hsuffix c hc
  have hword : ∀ c, Bound.isNameChar c = true → Raw.isWordChar c = true ∧ q.isQuote c = false := by
    intro c hc
    refine ⟨?_, (Raw.isQuote_of_isPlain (isPlain_of_isNameChar hc)).1⟩
    simp only [Bound.isNameChar] at hc
    simp [Raw.isWordChar, hc]
  rw [h.base, toList_baseName, List.cons_append]
  exact Raw.references_parameter (by simp [nameOf]) (fun c hc => (hword c (hname c hc)).1)
    fun c hc => (hword c (hname c hc)).2

theorem references_rendered {p : Predicate} {f : Field} (h : p.OnField f) :
    references q p.rendered.toList = some [] := by
  have hsql := references_sql (q := q) p.operator
  have hbase : references q p.base.toList = some [] := by
    simpa using references_base (q := q) h [] rfl
  unfold rendered
  split
  · exact hsql
  · split
    · have hlow := references_base (q := q) h ['_', '0'] rfl
      have hhigh := references_base (q := q) h ['_', '1'] rfl
      have hand : references q ['A', 'N', 'D'] = some [] := by cases q <;> rfl
      have hbounds := references_spaced (references_spaced hlow hand) hhigh
      simpa using references_spaced hsql hbounds
    · split
      · simpa using references_append hsql (references_parentheses hbase) (breaks_opening _)
      · simpa using references_spaced hsql hbase

theorem trimFront_quote (identifier : String) :
    Text.trimFront (q.quote identifier).toList = (q.quote identifier).toList := by
  rw [Platform.quote, String.toList_ofList, Raw.quoteWith_eq]
  exact Text.trimFront_of_begins ⟨_, _, rfl, by cases q <;> rfl⟩

/-- In a wrapping query a comparison refers to the output name. -/
theorem references_comparison {p : Predicate} {f : Field} (hp : p.contributes .outer = true) (hfield : p.OnField f)
    (hrenderer : p.PlainOrLower) (houter : p.outer = q.quote f.name) :
    references q (p.comparison .outer).toList = some [p.outer.toList] := by
  have hexpression : references q p.outer.toList = some [p.outer.toList] := houter ▸ Raw.references_quote f.name
  have hsubject : references q (p.subject .outer).toList = some [p.outer.toList] := by
    unfold subject
    split
    · simpa [expression] using references_lower hexpression
    · rw [String.toList_ofList, expression, houter, trimFront_quote, ← houter]
      exact hexpression
  rw [comparison_eq, comparisonWith_eq hp hrenderer (ends_rendered hfield)]
  simpa using references_spaced hsubject (references_rendered hfield)

end Predicate

/-! ## Filters -/

namespace Node

theorem references_joined (word : Leaf → String) (ref : Leaf → List Char) (ts : List (Token Leaf)) (c : Connective)
    (us : List (Token Leaf)) (hts : references q (spell word ts).toList = some ((atoms ts).map ref))
    (hus : references q (spell word us).toList = some ((atoms us).map ref)) :
    references q (spell word (ts ++ joint c :: us)).toList = some ((atoms (ts ++ joint c :: us)).map ref) := by
  have hconnective : references q c.sql.toList = some [] := by cases q <;> cases c <;> rfl
  rw [Condition.spell_joined, Condition.atoms_joined, List.map_append]
  simpa using references_spaced hts (references_spaced hconnective hus)

theorem references_enclosed (word : Leaf → String) (ref : Leaf → List Char) (ts : List (Token Leaf))
    (h : references q (spell word ts).toList = some ((atoms ts).map ref)) :
    references q (spell word (.opening :: ts ++ [.closing])).toList =
      some ((atoms (.opening :: ts ++ [.closing])).map ref) := by
  rw [Condition.spell_enclosed, Condition.atoms_enclosed]
  simpa using references_parentheses h

/-- In a wrapping query a filter refers to the output names of the predicates that say something there, in
their order. -/
theorem references_condition {n : Node} (hlegible : n.Legible .outer)
    (h : ∀ p ∈ n.predicates, p.contributes .outer = true →
      references q (p.comparison .outer).toList = some [p.outer.toList]) :
    references q (Statement.whereSql (n.condition .outer).toList).toList =
      some ((n.predicates.filter (·.contributes .outer)).map fun p => p.outer.toList) := by
  have hatoms := atoms_tokensAt .outer [] n
  have hpredicates : (n.predicates.filter (·.contributes .outer)).map (fun p => p.outer.toList) =
      (((n.tokensAt .outer []).map atoms).getD []).map fun l => l.predicate.outer.toList := by
    rw [hatoms, ← map_leavesAt [], List.filter_map, List.map_map]
    rfl
  rw [condition_eq_spell .outer n [] hlegible, hpredicates]
  cases hts : n.tokensAt .outer [] with
  | none => rfl
  | some ts =>
    have hspell : references q (spell (Leaf.text .outer) ts).toList =
        some ((atoms ts).map fun l => l.predicate.outer.toList) := by
      refine tokensAt_induction .outer (references_joined _ _) (references_enclosed _ _) [] n
        (fun path p hp hspeaks => ?_) hts
      rw [spell, spell, String.append_empty]
      exact h p hp hspeaks
    have hwhere : references q [' ', 'W', 'H', 'E', 'R', 'E'] = some [] := by cases q <;> rfl
    simpa [Statement.whereSql] using references_spaced hwhere hspell

end Node

/-! ## Orders -/

namespace Statement

theorem references_keySql {k : SortKey} {xs : List (List Char)} (h : references q k.expression.toList = some xs) :
    references q (keySql q k).toList = some xs := by
  have hdirection : ∃ back : String, keySql q k = k.expression ++ back ∧ references q back.toList = some [] ∧
      Raw.Breaks q back.toList := by
    cases q <;> cases hdirection : k.direction <;>
    · rw [keySql, hdirection, String.append_assoc]
      exact ⟨_, rfl, rfl, breaks_space _⟩
  obtain ⟨back, hkey, hback, hbreaks⟩ := hdirection
  rw [hkey, String.toList_append]
  simpa using references_append h hback hbreaks

theorem references_intercalate {α : Type} {text : α → String} {ref : α → List Char} (x : α) {rest : List α}
    (h : ∀ y ∈ x :: rest, references q (text y).toList = some [ref y]) :
    references q (String.intercalate ", " ((x :: rest).map text)).toList = some ((x :: rest).map ref) := by
  induction rest generalizing x with
  | nil => simpa using h x List.mem_cons_self
  | cons y rest ih =>
    rw [List.forall_mem_cons] at h
    have hcomma : Raw.isWordChar ',' = false ∧ q.isQuote ',' = false := by cases q <;> exact ⟨rfl, rfl⟩
    have hbehind := ih y h.2
    rw [← references_space, ← Raw.references_cons hcomma.1 hcomma.2 (by decide)] at hbehind
    have hall := references_append h.1 hbehind (Raw.breaks_cons hcomma.1 hcomma.2 _)
    simp only [List.map_cons] at hall ⊢
    rw [String.intercalate_cons_cons]
    simpa using hall

/-- An order refers to what its keys refer to, one after the other. -/
theorem references_orderSql {α : Type} {key : α → SortKey} {ref : α → List Char} {xs : List α}
    (h : ∀ x ∈ xs, references q (key x).expression.toList = some [ref x]) :
    references q (orderSql q (xs.map key)).toList = some (xs.map ref) := by
  cases xs with
  | nil => cases q <;> rfl
  | cons x rest =>
    have hby : references q [' ', 'O', 'R', 'D', 'E', 'R', ' ', 'B', 'Y'] = some [] := by cases q <;> rfl
    have hkeys := references_intercalate x fun y hy => references_keySql (h y hy)
    simpa [orderSql, Function.comp_def] using references_spaced hby hkeys

end Statement

namespace ListQuery

theorem references_sortExpression {f : Field} (h : f.outputName = q.quote f.name) :
    references q (f.sortExpression true).toList = some [(q.quote f.name).toList] := by
  have hname : references q f.outputName.toList = some [(q.quote f.name).toList] := by
    rw [h]
    exact Raw.references_quote f.name
  simp only [Field.sortExpression, if_true]
  split
  · simpa using references_lower hname
  · exact hname

end ListQuery

/-! ## Prepared queries -/

/-- Some column of a statement's rows goes by a text, as it stands behind its `AS`. -/
def Statement.Outputs (p : Platform) (text : String) : Statement → Prop
  | base columns .. => ∃ c ∈ columns, columnSql p c = c.expression ++ " AS " ++ text
  | around inner _ => inner.Outputs p text
  | count _ => False

/-- A text names columns in quotes, one after the other, and refers to nothing else. -/
def RefersTo (p : Platform) (text : String) (names : List String) : Prop :=
  references p text.toList = some (names.map fun name => (p.quote name).toList)

namespace ListQuery

variable {q : ListQuery}

/-- The names in the client's conditions that say something in a wrapping query, in their order. -/
def outerNames (q : ListQuery) (filters : Json) (filter : Node) : List String :=
  (((Spec.traced q.catalog filters).calls.zip filter.predicates).filter fun x => x.2.contributes .outer).map
    fun x => x.1.1

/-- What the catalog knows is a column of the list's own query. -/
theorem outputs_baseWith (hq : q.catalog.Derived q.skeleton q.platform) {columns : List Column}
    (hcolumns : q.skeleton.columns = .ok columns) (filter : Node) {name : String} {f : Field}
    (hf : q.catalog.get? name = some f) : (q.baseWith columns filter).Outputs q.platform (q.platform.quote name) := by
  have hdeclares := (hq.derivedFrom hcolumns).declares
  obtain ⟨hmem, rfl⟩ := hdeclares.get?_eq_some.1 hf
  have hname : f.name ∈ Catalog.declaredNames columns := by
    rw [← hdeclares.fields]
    exact List.mem_map_of_mem hmem
  obtain ⟨c, hc, hsame⟩ := List.mem_map.1 (List.mem_eraseDups.1 hname)
  exact ⟨c, hc, by rw [Statement.columnSql, hsame]⟩

/-- The outer condition names the fields that the client named. -/
theorem refersTo_whereSql (hq : q.catalog.Derived q.skeleton q.platform)
    (hrenderers : ∀ name f, q.catalog.get? name = some f → f.PlainOrLower) {filters : Json} {filter : Node} {count : Nat}
    (h : Spec.Matched q.catalog (Spec.traced q.catalog filters).calls count filter.predicates) :
    RefersTo q.platform (Statement.whereSql (filter.condition .outer).toList) (q.outerNames filters filter) ∧
      ∀ name ∈ q.outerNames filters filter, ∃ f, q.catalog.get? name = some f := by
  obtain ⟨built, -, hpredicates, hcalls, hallowed⟩ := h
  have hnames : q.outerNames filters filter =
      (built.filter fun x => x.2.contributes .outer).map fun x => x.1.name := by
    rw [outerNames, ← hcalls, ← hpredicates, List.zip_map', List.filter_map, List.map_map]
    rfl
  have houter : ∀ x ∈ built, x.2.outer = q.platform.quote x.1.name := by
    intro x hx
    rw [(Predicate.onField_of_allowed (hallowed x hx)).outer, Catalog.outputName_of_derived hq (hallowed x hx).field]
  have hplain : ∀ x ∈ built, x.2.PlainOrLower := fun x hx =>
    (Predicate.onField_of_allowed (hallowed x hx)).plainOrLower (hrenderers x.1.name x.1 (hallowed x hx).field)
  constructor
  · have hlegible : filter.Legible .outer := by
      intro p hp _
      rw [← hpredicates] at hp
      obtain ⟨x, hx, rfl⟩ := List.mem_map.1 hp
      exact (hplain x hx).legible .outer
    have hcondition := Node.references_condition (q := q.platform) hlegible fun p hp hspeaks => by
      rw [← hpredicates] at hp
      obtain ⟨x, hx, rfl⟩ := List.mem_map.1 hp
      exact Predicate.references_comparison hspeaks (Predicate.onField_of_allowed (hallowed x hx)) (hplain x hx)
        (houter x hx)
    rw [RefersTo, hcondition, hnames, ← hpredicates, List.filter_map, List.map_map, List.map_map, Option.some_inj]
    refine List.map_congr_left fun x hx => ?_
    exact congrArg String.toList (houter x (List.mem_of_mem_filter hx))
  · intro name hname
    rw [hnames] at hname
    obtain ⟨x, hx, rfl⟩ := List.mem_map.1 hname
    exact ⟨x.1, (hallowed x (List.mem_of_mem_filter hx)).field⟩

/-- The order of a wrapping query names each field that the client sorts by once. -/
theorem refersTo_orderSql (hq : q.catalog.Derived q.skeleton q.platform) {sort : List SortBy} {order : List SortKey}
    (h : sortKeys q.catalog true sort = .ok order) :
    RefersTo q.platform (Statement.orderSql q.platform order) (sort.map SortBy.field).eraseDups ∧
      ∀ name ∈ sort.map SortBy.field, ∃ f, q.catalog.get? name = some f := by
  obtain ⟨entries, rfl, hasked, horder⟩ := exists_asked h
  have hindexed := Catalog.indexed_of_reachable hq.reachable
  have hnamed : ∀ e ∈ entries,
      references q.platform e.2.expression.toList = some [(q.platform.quote e.1.field).toList] := by
    intro e he
    obtain ⟨f, hf, -, hexpression⟩ := (hasked e he).field
    rw [hexpression, references_sortExpression (Catalog.outputName_of_derived hq hf), hindexed.name_of_get? hf]
  -- different fields have different names in quotes, so merging by expressions merges by fields
  have hapart : ∀ e ∈ entries, ∀ e' ∈ entries, e.2.expression = e'.2.expression ↔ e.1.field = e'.1.field := by
    intro e he e' he'
    refine ⟨fun hsame => ?_, (hasked e he).expression_congr (hasked e' he')⟩
    have hquoted := hnamed e he
    rw [hsame, hnamed e' he', Option.some_inj, List.singleton_inj] at hquoted
    exact (Raw.quote_injective q.platform (String.toList_injective hquoted)).symm
  have hmerged : order = (lastOfEach (SortBy.field ∘ Prod.fst) entries).map Prod.snd := by
    rw [horder, foldl_addKey, lastOfEach_map, lastOfEach_congr hapart]
    rfl
  have hkept : ∀ e ∈ lastOfEach (SortBy.field ∘ Prod.fst) entries,
      references q.platform e.2.expression.toList = some [(q.platform.quote e.1.field).toList] :=
    fun e he => hnamed e (mem_of_mem_lastOfEach he)
  constructor
  · rw [RefersTo, hmerged, Statement.references_orderSql hkept, List.map_map, ← map_lastOfEach, List.map_map]
    rfl
  · intro name hname
    obtain ⟨s, hs, rfl⟩ := List.mem_map.1 hname
    obtain ⟨e, he, rfl⟩ := List.mem_map.1 hs
    obtain ⟨f, hf, -⟩ := (hasked e he).field
    exact ⟨f, hf⟩

/-- In a wrapping query the condition and the order refer to nothing but the fields that the client named, each by
its name in quotes as a column of the inner query goes by it. -/
theorem prepare_refers (q : ListQuery) (hq : q.catalog.Derived q.skeleton q.platform)
    (hrenderers : ∀ name f, q.catalog.get? name = some f → f.PlainOrLower) {filters : Json} {sort : List SortBy}
    {p : Prepared} (hp : q.prepare filters sort = .ok p) (hwrapped : p.aggregated = true) :
    ∃ filter columns, MadeFrom q filters p filter ∧ q.skeleton.columns = .ok columns ∧ p.platform = q.platform ∧
      p.statement = .around (q.baseWith columns filter) (filter.condition .outer).toList ∧
      RefersTo q.platform (Statement.whereSql (filter.condition .outer).toList) (q.outerNames filters filter) ∧
      RefersTo q.platform (Statement.orderSql q.platform p.order) (sort.map SortBy.field).eraseDups ∧
      ∀ name ∈ q.outerNames filters filter ++ sort.map SortBy.field,
        (q.baseWith columns filter).Outputs q.platform (q.platform.quote name) := by
  obtain ⟨count, hcheck, hp⟩ := bind_eq_ok.1 hp
  obtain ⟨filter, hbuild, hp⟩ := bind_eq_ok.1 hp
  obtain ⟨base, hbase, hp⟩ := bind_eq_ok.1 hp
  obtain ⟨order, horder, hp⟩ := bind_eq_ok.1 hp
  cases hp
  have haggregated : filter.aggregated = true := hwrapped
  obtain ⟨columns, hcolumns, hstatement⟩ := filtered_eq hbase filter
  rw [if_pos haggregated] at hstatement
  rw [haggregated] at horder
  have hmatched := Spec.matched_build (Catalog.indexed_of_reachable hq.reachable) hcheck hbuild
  obtain ⟨hwhere, hfilters⟩ := refersTo_whereSql hq hrenderers hmatched
  obtain ⟨hby, hsorts⟩ := refersTo_orderSql hq horder
  refine ⟨filter, columns, ⟨hbuild, ⟨base, hbase, rfl⟩, rfl, rfl⟩, hcolumns, rfl, hstatement, hwhere, hby,
    fun name hname => ?_⟩
  have hfield : ∃ f, q.catalog.get? name = some f := (List.mem_append.mp hname).elim (hfilters name) (hsorts name)
  obtain ⟨f, hf⟩ := hfield
  exact outputs_baseWith hq hcolumns filter hf

/-- Mills with the number of their wheels, under names that only quotes keep together. -/
def mills : Definition :=
  { skeleton :=
      { select := ["m.name AS The \"Mill\"", "count(*) AS w.Count"], table := "mill", tableAlias := some "m"
        joins := [{ table := "wheel", tableAlias := some "w", on := "w.mill = m.id" }], groupBy := ["m.name"] }
    fields := [("The \"Mill\"", { lowerCased := true }),
      ("w.Count", { aggregated := true, expression := some "count(w.id)" })] }

/-- Mills that have a name, with a number of wheels between two. -/
def namedWithWheels : Json :=
  .arr [
    .obj [("property", .str "The \"Mill\""), ("operator", .str "is_not_null")],
    .obj [("property", .str "w.Count"), ("operator", .str "between"), ("value", .arr [.int 2, .int 4])]]

/-- By the wheels, then by the name; the wheels are asked for again. -/
def wheelsAndName : List SortBy := [⟨"w.Count", none⟩, ⟨"The \"Mill\"", none⟩, ⟨"w.Count", none⟩]

theorem parts_mills {q : ListQuery} (hq : ofDefinition mills .postgres = .ok q) :
    (q.catalog.fields.all fun f => f.renderer.isNone) = true ∧ (Spec.validate q.catalog namedWithWheels).isOk = true ∧
      (Spec.build q.catalog namedWithWheels).toOption.map Node.aggregated = some true ∧
      q.skeleton.statement.isOk = true ∧ (sortKeys q.catalog true wheelsAndName).isOk = true := by
  have hrenderers : (ofDefinition mills .postgres).toOption.map (fun q : ListQuery =>
      q.catalog.fields.all fun f => f.renderer.isNone) = some true := by cbv
  have hcheck : (ofDefinition mills .postgres).toOption.map (fun q : ListQuery =>
      (Spec.validate q.catalog namedWithWheels).isOk) = some true := by cbv
  have hbuild : (ofDefinition mills .postgres).toOption.map (fun q : ListQuery =>
      (Spec.build q.catalog namedWithWheels).toOption.map Node.aggregated) = some (some true) := by cbv
  have hbase : (ofDefinition mills .postgres).toOption.map (fun q : ListQuery => q.skeleton.statement.isOk) =
      some true := by cbv
  have horder : (ofDefinition mills .postgres).toOption.map (fun q : ListQuery =>
      (sortKeys q.catalog true wheelsAndName).isOk) = some true := by cbv
  rw [hq] at hrenderers hcheck hbuild hbase horder
  exact ⟨Option.some.inj hrenderers, Option.some.inj hcheck, Option.some.inj hbuild, Option.some.inj hbase,
    Option.some.inj horder⟩

theorem prepare_refers_mills :
    ∃ q p, ofDefinition mills .postgres = .ok q ∧ q.catalog.Derived q.skeleton q.platform ∧
      (∀ name f, q.catalog.get? name = some f → f.PlainOrLower) ∧
      q.prepare namedWithWheels wheelsAndName = .ok p ∧ p.aggregated = true ∧
      ∃ filter columns, MadeFrom q namedWithWheels p filter ∧ q.skeleton.columns = .ok columns ∧
        p.platform = q.platform ∧
        p.statement = .around (q.baseWith columns filter) (filter.condition .outer).toList ∧
        RefersTo q.platform (Statement.whereSql (filter.condition .outer).toList)
          (q.outerNames namedWithWheels filter) ∧
        RefersTo q.platform (Statement.orderSql q.platform p.order) ["w.Count", "The \"Mill\""] ∧
        ∀ name ∈ q.outerNames namedWithWheels filter ++ wheelsAndName.map SortBy.field,
          (q.baseWith columns filter).Outputs q.platform (q.platform.quote name) := by
  have hok : (ofDefinition mills .postgres).isOk = true := by cbv
  obtain ⟨q, hq⟩ := exists_of_isOk hok
  obtain ⟨hrenderers, hcheck, hbuild, hbase, horder⟩ := parts_mills hq
  obtain ⟨count, hcheck⟩ := exists_of_isOk hcheck
  obtain ⟨base, hbase⟩ := exists_of_isOk hbase
  obtain ⟨order, horder⟩ := exists_of_isOk horder
  cases hfilter : Spec.build q.catalog namedWithWheels with
  | error e =>
    rw [hfilter] at hbuild
    cases hbuild
  | ok filter =>
    rw [hfilter] at hbuild
    have haggregated : filter.aggregated = true := Option.some.inj hbuild
    rw [← haggregated] at horder
    have hp := prepare_of_parts hcheck hfilter hbase horder
    have hderived := (derived_ofDefinition hq).2
    have hplain : ∀ name f, q.catalog.get? name = some f → f.PlainOrLower := fun name f hf =>
      .inl (Option.isNone_iff_eq_none.mp (List.all_eq_true.mp hrenderers f (Catalog.mem_fields_of_get? hf)))
    exact ⟨q, _, hq, hderived, hplain, hp, haggregated, prepare_refers q hderived hplain hp haggregated⟩

end ListQuery

end Listing
