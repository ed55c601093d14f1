import Listing.Proofs.Filter.Renumbered
import Listing.Proofs.Query.Guarded
/-!
# Queries without absent conditions

A condition without the value that its operator needs takes a number, and the names of the parameters behind it
are others than without it. If the list's raw texts have no names of parameters and its renderers do not look at
them, nothing of that is left when the statements are bound: they are those of the specification without its
absent conditions (`prepare_pruned`). One thing an absent condition does: on an aggregated field it puts a query
around the list's own. So the statements need not be the same without these conditions (`prepare_pruned_differs`).
-/
open Listing.Bound (Reads Renamed Steady)

namespace Listing

/-! ## Parameters of a built filter -/

namespace Spec

variable {c : Catalog} {filters : Json} {start : UInt32} {n : Node}

theorem onField_build (h : build c filters start = .ok n) : ∀ p ∈ n.predicates, ∃ f, p.OnField f := by
  obtain ⟨stop, hnumbered⟩ := numbered_build h
  exact fun p hp => (hnumbered.made p hp).onField

theorem found_build (h : build c filters start = .ok n) : ∀ p ∈ n.predicates, p.Found n.parameters :=
  fun _ hp _ he => Node.get?_parameters (pairwise_build h) (onField_build h) hp he

theorem get?_foreign (h : build c filters start = .ok n) {name : List Char} (hname : Foreign name) :
    n.parameters.get? (.ofList (':' :: name)) = none := by
  rw [Bag.get?, List.lookup_eq_none_iff, (lossless_build h).entries]
  intro e he
  obtain ⟨p, hp, he⟩ := List.mem_flatMap.mp he
  rw [bne_iff_ne]
  intro hsame
  exact hname p (onField_build h p hp) (hsame ▸ List.mem_map_of_mem he)

/-- Foreign names stay as they are in the statements of two filters. -/
theorem reads_foreign {c' : Catalog} {filters' : Json} {start' : UInt32} {n' : Node}
    (h : build c filters start = .ok n) (h' : build c' filters' start' = .ok n') :
    ∀ name, Foreign name → Reads n.parameters n'.parameters name name :=
  fun _ hname => .inr ⟨rfl, get?_foreign h hname, get?_foreign h' hname⟩

end Spec

/-! ## Aggregated fields -/

namespace Node

/-- If the filter looks at an aggregated field, so does a predicate of it whose value is not missing. -/
def Covered (n : Node) : Prop := n.aggregated = true → ∃ p ∈ n.predicates, p.missing = false ∧ p.aggregated = true

/-- What remains looks at the aggregated fields of predicates whose values are not missing. -/
theorem Remains.aggregated_iff {c : Catalog} {n n' : Node} (h : Remains c n n') :
    n'.aggregated = true ↔ ∃ p ∈ n.predicates, p.missing = false ∧ p.aggregated = true := by
  cases h with
  | twin h =>
    have hsame : n'.predicates.map Predicate.aggregated =
        (n.predicates.filter (!·.missing)).map Predicate.aggregated := by
      rw [eq_comm, ← List.forall₂_eq_eq_eq, List.forall₂_map_left_iff, List.forall₂_map_right_iff]
      exact (predicates_twin n h).imp fun _ _ h => h.same.aggregated.symm
    have hmem : true ∈ n'.predicates.map Predicate.aggregated ↔
        true ∈ (n.predicates.filter (!·.missing)).map Predicate.aggregated := by rw [hsame]
    rw [Node.aggregated_iff]
    simpa [and_assoc] using hmem
  | nothing hsilent =>
    constructor
    · rintro ⟨⟩
    · rintro ⟨p, hp, hpresent, _⟩
      rw [hsilent p hp] at hpresent
      cases hpresent

theorem covered_iff {c : Catalog} {n n' : Node} (h : Remains c n n') :
    n.Covered ↔ n'.aggregated = n.aggregated := by
  rw [Covered, ← h.aggregated_iff]
  have hwhole : n'.aggregated = true → n.aggregated = true := by
    intro hleft
    obtain ⟨p, hp, _, haggregated⟩ := h.aggregated_iff.mp hleft
    exact (aggregated_iff n).mpr ⟨p, hp, haggregated⟩
  revert hwhole
  cases n'.aggregated <;> cases n.aggregated <;> simp

end Node

/-! ## Statements -/

/-- Two prepared queries that give the same statements. -/
structure Prepared.SameAs (p p' : Prepared) : Prop where
  aggregated : p'.aggregated = p.aggregated
  order : p'.order = p.order
  page : ∀ page size, p'.page page size = p.page page size
  count : p'.count = p.count

namespace ListQuery

/-- The list's raw texts have no names of parameters, and its renderers do not look at them. -/
structure Clear (q : ListQuery) : Prop where
  columns : ∀ columns, q.skeleton.columns = .ok columns → ∀ c ∈ columns, Bound.Clear c.expression
  joins : ∀ j ∈ q.skeleton.joins, Bound.Clear j.on
  conditions : ∀ c ∈ q.skeleton.conditions, Bound.Clear c
  groups : ∀ g ∈ q.skeleton.groupBy, Bound.Clear g
  catalog : q.catalog.Clear

variable {q : ListQuery} {filter filter' : Node}

/-- Two filters with renamed conditions give renamed statements. -/
theorem Clear.renamed_filtered (hq : q.Clear) {R : List Char → List Char → Prop} (hR : ∀ n, Foreign n → R n n)
    {base : Statement} (hbase : q.skeleton.statement = .ok base) (haggregated : filter'.aggregated = filter.aggregated)
    (hcondition : ∀ scope, List.Forall₂ (fun s s' => Renamed R s.toList s'.toList) (filter.condition scope).toList
      (filter'.condition scope).toList) :
    Renamed R ((filtered base filter).sql q.platform).toList ((filtered base filter').sql q.platform).toList := by
  obtain ⟨columns, hcolumns, hstatement⟩ := filtered_eq hbase filter
  obtain ⟨columns', hcolumns', hstatement'⟩ := filtered_eq hbase filter'
  obtain rfl := Except.ok.inj (hcolumns.symm.trans hcolumns')
  have hraw : List.Forall₂ (fun s s' => Renamed R s.toList s'.toList) q.skeleton.conditions q.skeleton.conditions :=
    List.forall₂_same.mpr fun c hc => (hq.conditions c hc).steady hR
  have hconditions : List.Forall₂ (fun s s' => Renamed R s.toList s'.toList) (q.conditionsWith filter)
      (q.conditionsWith filter') := List.rel_append hraw (hcondition .inner)
  have hown := Statement.renamed_base (q := q.platform) (fun c hc => (hq.columns columns hcolumns c hc).steady hR)
    q.skeleton.table q.skeleton.tableAlias (fun j hj => (hq.joins j hj).steady hR) hconditions
    (fun g hg => (hq.groups g hg).steady hR)
  rw [hstatement, hstatement', haggregated]
  split
  · exact Statement.renamed_around hown (hcondition .outer)
  · exact hown

/-- A query around the list's own has a part in what is sorted by, and none in what may be sorted by. -/
theorem keyOf_wrapped {c : Catalog} {wrapped : Bool} {s : SortBy} {key : SortKey} (h : keyOf c wrapped s = .ok key)
    (wrapped' : Bool) : ∃ key', keyOf c wrapped' s = .ok key' := by
  obtain ⟨f, hf, h⟩ := bind_eq_ok.1 h
  obtain ⟨direction, hdirection, _⟩ := bind_eq_ok.1 h
  exact ⟨_, bind_eq_ok.2 ⟨f, hf, bind_eq_ok.2 ⟨direction, hdirection, rfl⟩⟩⟩

theorem keysFrom_wrapped {c : Catalog} {wrapped : Bool} {sort : List SortBy} {keys order : List SortKey}
    (h : keysFrom c wrapped keys sort = .ok order) (wrapped' : Bool) (keys' : List SortKey) :
    ∃ order', keysFrom c wrapped' keys' sort = .ok order' := by
  induction sort generalizing keys keys' with
  | nil => exact ⟨keys', rfl⟩
  | cons s rest ih =>
    obtain ⟨key, hkey, h⟩ := bind_eq_ok.1 h
    obtain ⟨key', hkey'⟩ := keyOf_wrapped hkey wrapped'
    obtain ⟨order', horder'⟩ := ih h (addKey key' keys')
    exact ⟨order', bind_eq_ok.2 ⟨key', hkey', horder'⟩⟩

/-! ## Preparing -/

theorem sameAs_of_renamed {p p' : Prepared} (hlimits : p'.limits = p.limits)
    (hplatform : p'.platform = p.platform) (haggregated : p'.aggregated = p.aggregated) (horder : p'.order = p.order)
    (hsteady : ∀ k ∈ p.order, Steady (Reads p.parameters p'.parameters) k.expression)
    (hsql : Renamed (Reads p.parameters p'.parameters) (p.statement.sql p.platform).toList
      (p'.statement.sql p.platform).toList) : p.SameAs p' := by
  refine ⟨haggregated, horder, fun page size => ?_, ?_⟩
  · have hbind : ∀ limit offset, p.platform.bind (p.statement.pageSql p.platform p.order limit offset) p.parameters =
        p.platform.bind (p'.statement.pageSql p.platform p.order limit offset) p'.parameters := fun limit offset =>
      p.platform.bind_renamed (Statement.renamed_pageSql hsql hsteady limit offset)
    simp only [Prepared.page, Prepared.pageOfSize, hlimits, hplatform, horder, hbind]
  · rw [Prepared.count, Prepared.count, hplatform, p.platform.bind_renamed (Statement.renamed_count hsql)]

/-- A request is answered as if its absent conditions were not there, if one that is there looks at an aggregated
field or none does. If only absent ones do, they alone put a query around the list's own. -/
theorem prepare_pruned (q : ListQuery) (hq : q.Clear) {filters : Json} {sort : List SortBy} {p : Prepared}
    (hp : q.prepare filters sort = .ok p) :
    ∃ filter p', Spec.build q.catalog filters = .ok filter ∧ q.prepare (Spec.pruned filters) sort = .ok p' ∧
      (filter.Covered → p.SameAs p') ∧ (¬ filter.Covered → p.aggregated = true ∧ p'.aggregated = false) := by
  obtain ⟨count, hcheck, hp⟩ := bind_eq_ok.1 hp
  obtain ⟨filter, hbuild, hp⟩ := bind_eq_ok.1 hp
  obtain ⟨base, hbase, hp⟩ := bind_eq_ok.1 hp
  obtain ⟨order, horder, hp⟩ := bind_eq_ok.1 hp
  cases hp
  obtain ⟨count', hcheck'⟩ := Spec.validate_pruned hcheck
  obtain ⟨filter', hbuild', hleft⟩ := Spec.build_pruned hbuild
  obtain ⟨order', horder'⟩ : ∃ order', sortKeys q.catalog filter'.aggregated sort = .ok order' :=
    keysFrom_wrapped horder filter'.aggregated []
  have hp' := prepare_of_parts hcheck' hbuild' hbase horder'
  refine ⟨filter, _, hbuild, hp', fun hcovered => ?_, fun huncovered => ?_⟩
  · have haggregated := (Node.covered_iff hleft).mp hcovered
    have hforeign := Spec.reads_foreign hbuild hbuild'
    have hcondition := fun scope => Node.renamed_condition hq.catalog hforeign scope hleft (Spec.found_build hbuild)
      (Spec.found_build hbuild')
    rw [haggregated] at horder'
    obtain rfl := Except.ok.inj (horder.symm.trans horder')
    refine sameAs_of_renamed rfl rfl haggregated rfl (fun key hkey => ?_)
      (hq.renamed_filtered hforeign hbase haggregated hcondition)
    obtain ⟨s, _, f, hf, _, hexpression⟩ := exists_field_of_mem_sortKeys horder hkey
    rw [hexpression]
    exact (hq.catalog s.field f hf).steady_sortExpression hforeign _
  · rw [Node.Covered, Classical.not_imp, ← hleft.aggregated_iff, Bool.not_eq_true] at huncovered
    exact huncovered

/-! ### Walks by their stops -/

/-- A request without sorts, where something is known of its filter. -/
theorem exists_prepare {filters : Json} {base : Statement} {α : Type} {fact : Node → α} {known : α}
    (hcheck : (Spec.validate q.catalog filters).isOk = true)
    (hbuild : (Spec.build q.catalog filters).toOption.map fact = some known)
    (hbase : q.skeleton.statement = .ok base) :
    ∃ filter p, fact filter = known ∧ q.prepare filters [] = .ok p ∧ p.aggregated = filter.aggregated ∧
      p.count = q.platform.bind ((Statement.count (filtered base filter)).sql q.platform) filter.parameters := by
  obtain ⟨count, hvalid⟩ := exists_of_isOk hcheck
  cases hfilter : Spec.build q.catalog filters with
  | error e =>
    rw [hfilter] at hbuild
    cases hbuild
  | ok filter =>
    rw [hfilter] at hbuild
    exact ⟨filter, _, Option.some.inj hbuild, prepare_of_parts hvalid hfilter hbase rfl, rfl, rfl⟩

/-- Walks with one field to filter by. -/
def walksBy (select : List String) (f : Field) : ListQuery :=
  { skeleton := { select, table := "walk" }, catalog := Catalog.empty.declare f, platform := .postgres }

def stopIs (value : Json) : Json :=
  .obj [("property", .str "stop"), ("operator", .str "equals"), ("value", value)]

def atAlp : Json := .arr [stopIs (.str "Alp")]

/-- The first condition is absent. -/
def anyAtAlp : Json := .arr [stopIs .null, stopIs (.str "Alp")]

theorem prune_stopIs_null : Spec.prune (stopIs .null) = none := by
  rw [stopIs, Spec.prune_condition rfl]
  rfl

theorem pruned_anyAtAlp : Spec.pruned anyAtAlp = atAlp := by
  have hpresent : Spec.prune (stopIs (.str "Alp")) = some (stopIs (.str "Alp")) := by
    rw [stopIs, Spec.prune_condition rfl]
    rfl
  rw [Spec.pruned, anyAtAlp, Spec.prune_array, Spec.pruneAll_cons, Spec.pruneAll_cons, Spec.pruneAll_nil,
    prune_stopIs_null, hpresent]
  rfl

/-- Stops are slices of an array, with a colon that is not one of a parameter. -/
def slicing : ListQuery := walksBy ["w.stops[1:1] AS stop"] (.ofColumn "stop" "w.stops[1:1]")

theorem clear_slice : Bound.Clear "w.stops[1:1]" := by
  have hname : Bound.IsName ['1'] := ⟨by decide, List.forall_mem_singleton.mpr rfl⟩
  have hfront : Bound.Inert "w.stops[1".toList := Bound.inert_of_all (by decide)
  have hback : Bound.Inert "]".toList := Bound.inert_of_all (by decide)
  have hbreaks : Bound.Breaks "]".toList := Bound.breaks_of_head? (c := ']') (by decide) rfl
  exact hfront.renamed_append (.name hname hname ⟨rfl, foreign_of_notMem (by decide)⟩ hbreaks hback.renamed)

theorem clear_slicing : slicing.Clear where
  columns := by
    intro columns hcolumns c hc
    have hown : slicing.skeleton.columns = .ok [⟨"stop", "w.stops[1:1]"⟩] := by cbv
    cases hown.symm.trans hcolumns
    rw [List.mem_singleton.mp hc]
    exact clear_slice
  joins := List.forall_mem_nil _
  conditions := List.forall_mem_nil _
  groups := List.forall_mem_nil _
  catalog := by
    intro name f hf
    rcases Catalog.mem_fields_declare (Catalog.mem_fields_of_get? hf) with rfl | hmem
    · exact ⟨clear_slice, (Bound.inert_of_all (by decide)).renamed, fun r hr => by cases hr⟩
    · cases hmem

theorem prepare_pruned_slicing :
    slicing.Clear ∧ ∃ p p', slicing.prepare anyAtAlp [] = .ok p ∧
      slicing.prepare (Spec.pruned anyAtAlp) [] = .ok p' ∧ p.SameAs p' := by
  have hcheck : (Spec.validate slicing.catalog anyAtAlp).isOk = true := by cbv
  have hbuild : (Spec.build slicing.catalog anyAtAlp).toOption.map Node.aggregated = some false := by cbv
  have hbase : slicing.skeleton.statement = .ok (.base [⟨"stop", "w.stops[1:1]"⟩] "walk" none [] [] []) := by cbv
  obtain ⟨_, p, hplain, hp, haggregated, -⟩ := exists_prepare hcheck hbuild hbase
  obtain ⟨filter, p', -, hp', hsame, huncovered⟩ := prepare_pruned slicing clear_slicing hp
  have hcovered : filter.Covered := by
    by_contra hnot
    have hwrapped := (huncovered hnot).1
    rw [haggregated, hplain] at hwrapped
    cases hwrapped
  exact ⟨clear_slicing, p, p', hp, hp', hsame hcovered⟩

/-- The part of a filter in a query that needs no query around it. -/
def placed (n : Node) : Bool × Option String × Bag := (n.aggregated, n.condition .inner, n.parameters)

theorem exists_count {filters : Json} {base : Statement} {condition : Option String} {bag : Bag}
    (hcheck : (Spec.validate q.catalog filters).isOk = true)
    (hbuild : (Spec.build q.catalog filters).toOption.map placed = some (false, condition, bag))
    (hbase : q.skeleton.statement = .ok base) :
    ∃ p, q.prepare filters [] = .ok p ∧
      p.count = q.platform.bind ((Statement.count (base.restrict condition)).sql q.platform) bag := by
  obtain ⟨filter, p, hplaced, hp, -, hcount⟩ := exists_prepare hcheck hbuild hbase
  simp only [placed, Prod.mk.injEq] at hplaced
  obtain ⟨hplain, rfl, rfl⟩ := hplaced
  refine ⟨p, hp, ?_⟩
  rw [hcount, filtered, hplain]
  rfl

/-- Stops are aggregated. -/
def grouping : ListQuery :=
  walksBy ["min(stop) AS stop"] { Field.ofColumn "stop" "min(stop)" with aggregated := true }

/-- A column has the name of a parameter. -/
def naming : ListQuery := walksBy [":stop_1 AS k"] (.ofColumn "stop" "stop")

/-- The renderer puts the placeholder between quotes. -/
def quoting : ListQuery :=
  walksBy ["stop"]
    { Field.ofColumn "stop" "stop" with renderer := some fun v => v.expression ++ "||'" ++ v.rendered ++ "'" }

theorem aggregated_grouping :
    ∃ p p', grouping.prepare (.arr [stopIs .null]) [] = .ok p ∧
      grouping.prepare (Spec.pruned (.arr [stopIs .null])) [] = .ok p' ∧
      p.aggregated = true ∧ p'.aggregated = false := by
  have hpruned : Spec.pruned (.arr [stopIs .null]) = .null := by
    rw [Spec.pruned, Spec.prune_array, Spec.pruneAll_cons, Spec.pruneAll_nil, prune_stopIs_null]
    rfl
  have hbase : grouping.skeleton.statement = .ok (.base [⟨"stop", "min(stop)"⟩] "walk" none [] [] []) := by cbv
  have hcheck : (Spec.validate grouping.catalog (.arr [stopIs .null])).isOk = true := by cbv
  have hbuild : (Spec.build grouping.catalog (.arr [stopIs .null])).toOption.map Node.aggregated = some true := by cbv
  have hbuild' : (Spec.build grouping.catalog .null).toOption.map Node.aggregated = some false := by cbv
  obtain ⟨_, p, hwrapped, hp, haggregated, -⟩ := exists_prepare hcheck hbuild hbase
  have hcheck' : (Spec.validate grouping.catalog .null).isOk = true := by rw [Spec.validate_null]; rfl
  obtain ⟨_, p', hplain, hp', haggregated', -⟩ := exists_prepare hcheck' hbuild' hbase
  rw [hpruned]
  exact ⟨p, p', hp, hp', haggregated.trans hwrapped, haggregated'.trans hplain⟩

/-- Two requests without sorts are answered differently if their counts are. -/
theorem exists_differing {filters filters' : Json} {base : Statement} {condition condition' : Option String}
    {bag bag' : Bag} (hcheck : (Spec.validate q.catalog filters).isOk = true)
    (hcheck' : (Spec.validate q.catalog filters').isOk = true)
    (hbuild : (Spec.build q.catalog filters).toOption.map placed = some (false, condition, bag))
    (hbuild' : (Spec.build q.catalog filters').toOption.map placed = some (false, condition', bag'))
    (hbase : q.skeleton.statement = .ok base)
    (hcounts : (q.platform.bind ((Statement.count (base.restrict condition')).sql q.platform) bag').sql ≠
      (q.platform.bind ((Statement.count (base.restrict condition)).sql q.platform) bag).sql) :
    ∃ p p', q.prepare filters [] = .ok p ∧ q.prepare filters' [] = .ok p' ∧ ¬ p.SameAs p' := by
  obtain ⟨p, hp, hcount⟩ := exists_count hcheck hbuild hbase
  obtain ⟨p', hp', hcount'⟩ := exists_count hcheck' hbuild' hbase
  refine ⟨p, p', hp, hp', fun hsame => hcounts ?_⟩
  rw [← hcount, ← hcount', hsame.count]

theorem differs_naming :
    ∃ p p', naming.prepare anyAtAlp [] = .ok p ∧ naming.prepare atAlp [] = .ok p' ∧ ¬ p.SameAs p' := by
  have hbuild : (Spec.build naming.catalog anyAtAlp).toOption.map placed =
      some (false, some "(stop = :stop_2)", ⟨[(":stop_2", .str "Alp")]⟩) := by cbv
  have hbuild' : (Spec.build naming.catalog atAlp).toOption.map placed =
      some (false, some "(stop = :stop_1)", ⟨[(":stop_1", .str "Alp")]⟩) := by cbv
  have hbase : naming.skeleton.statement = .ok (.base [⟨"k", ":stop_1"⟩] "walk" none [] [] []) := by cbv
  -- the column is bound too
  exact exists_differing (by cbv) (by cbv) hbuild hbuild' hbase (by decide)

theorem differs_quoting :
    ∃ p p', quoting.prepare anyAtAlp [] = .ok p ∧ quoting.prepare atAlp [] = .ok p' ∧ ¬ p.SameAs p' := by
  have hbuild : (Spec.build quoting.catalog anyAtAlp).toOption.map placed =
      some (false, some "(stop||'= :stop_2')", ⟨[(":stop_2", .str "Alp")]⟩) := by cbv
  have hbuild' : (Spec.build quoting.catalog atAlp).toOption.map placed =
      some (false, some "(stop||'= :stop_1')", ⟨[(":stop_1", .str "Alp")]⟩) := by cbv
  have hbase : quoting.skeleton.statement = .ok (.base [⟨"stop", "stop"⟩] "walk" none [] [] []) := by cbv
  exact exists_differing (by cbv) (by cbv) hbuild hbuild' hbase (by decide +kernel)

/-- Without its absent conditions a request may be answered otherwise: if they alone look at an aggregated field, if a
raw text has the name of a parameter, and if a renderer quotes a placeholder. -/
theorem prepare_pruned_differs :
    (∃ p p', grouping.prepare (.arr [stopIs .null]) [] = .ok p ∧
      grouping.prepare (Spec.pruned (.arr [stopIs .null])) [] = .ok p' ∧ ¬ p.SameAs p') ∧
    (∃ p p', naming.prepare anyAtAlp [] = .ok p ∧ naming.prepare (Spec.pruned anyAtAlp) [] = .ok p' ∧ ¬ p.SameAs p') ∧
    ∃ p p', quoting.prepare anyAtAlp [] = .ok p ∧ quoting.prepare (Spec.pruned anyAtAlp) [] = .ok p' ∧
      ¬ p.SameAs p' := by
  rw [pruned_anyAtAlp]
  refine ⟨?_, differs_naming, differs_quoting⟩
  obtain ⟨p, p', hp, hp', hwrapped, hplain⟩ := aggregated_grouping
  refine ⟨p, p', hp, hp', fun hsame => ?_⟩
  have haggregated := hsame.aggregated
  rw [hwrapped, hplain] at haggregated
  cases haggregated

end ListQuery

end Listing
