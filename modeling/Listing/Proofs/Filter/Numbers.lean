import Mathlib
import Listing.Proofs.Filter.Bindings
import Listing.Proofs.Param.Remembered
/-!
# Numbers and names

Building numbers the nodes of a filter one by one, in pre-order (`numbered_node`), and the names of a
predicate's parameters carry its number, whatever its field is called (`numberIn_of_mem`). So no parameter of a
filter hides another one: its parameters are those of its predicates, one after the other (`build_lossless`),
and each stands under its name (`get?_parameters`).
-/
namespace Listing

/-! ## Names of parameters -/

namespace Predicate

/-- The number in the name of a parameter, as it is written. -/
def numberIn (name : List Char) : List Char := ((name.dropWhile (· != '_')).drop 1).takeWhile (· != '_')

/-- A name that goes on behind the number does so with an underscore. -/
theorem numberIn_baseName (field : String) (number : UInt32) {rest : List Char} (hrest : ∀ c ∈ rest.head?, c = '_') :
    numberIn ((baseName field number).toList ++ rest) = Nat.toDigits 10 number.toNat := by
  have hletters : ∀ c ∈ ':' :: (field.toList.filter Text.isAsciiAlnum).map Char.toLower, (c != '_') = true := by
    intro c hc
    rcases List.mem_cons.mp hc with rfl | hc
    · rfl
    · obtain ⟨d, hd, rfl⟩ := List.mem_map.mp hc
      have halnum : d.isAlphanum = true := by simpa [Text.isAsciiAlnum] using (List.mem_filter.mp hd).2
      have hname : Bound.isNameChar d = true := by simp [Bound.isNameChar, halnum]
      have hlower : (d == '_' || d.toLower != '_') = true :=
        forall_isNameChar (fun c => c == '_' || c.toLower != '_') (by decide) hname
      have hletter : (d == '_') = false := by
        rw [beq_eq_false_iff_ne]
        rintro rfl
        cases halnum
      rwa [hletter, Bool.false_or] at hlower
  have hdigits : ∀ c ∈ Nat.toDigits 10 number.toNat, (c != '_') = true := by
    intro c hc
    have hdigit := Nat.isDigit_of_mem_toDigits (by decide) (by decide) hc
    simp only [bne_iff_ne]
    rintro rfl
    exact absurd hdigit (by decide)
  have hsplit : (baseName field number).toList ++ rest =
      (':' :: (field.toList.filter Text.isAsciiAlnum).map Char.toLower) ++
        '_' :: (Nat.toDigits 10 number.toNat ++ rest) := by
    rw [toList_baseName]
    simp [nameOf]
  have hstop : rest.takeWhile (· != '_') = [] := by
    cases rest with
    | nil => rfl
    | cons c rest => simp [hrest c rfl]
  rw [numberIn, hsplit, List.dropWhile_append_of_pos hletters, List.dropWhile_cons_of_neg (by simp),
    List.drop_succ_cons, List.drop_zero, List.takeWhile_append_of_pos hdigits, hstop, List.append_nil]

/-- A parameter has the base name, or the base name and the number of a bound. -/
theorem name_of_mem {p : Predicate} {name : String} (h : name ∈ p.parameters.names) :
    name = p.base ∨ ∃ i : Nat, name = p.base ++ "_" ++ toString i := by
  unfold parameters at h
  split at h
  · cases h
  split at h
  · cases h
  split at h
  · split at h
    · next bounds _ =>
      rw [Bag.names_insertAll Bag.nodup_empty, List.mem_eraseDups] at h
      simp only [boundEntries, List.map_map, List.mem_map, Bag.names, Bag.empty, List.map_nil, List.nil_append] at h
      obtain ⟨⟨v, i⟩, _, rfl⟩ := h
      exact .inr ⟨i, rfl⟩
    · cases h
  · exact .inl (List.mem_singleton.mp h)

theorem numberIn_of_mem {p : Predicate} {f : Field} (hfield : p.OnField f) {name : String}
    (h : name ∈ p.parameters.names) : numberIn name.toList = Nat.toDigits 10 p.number.toNat := by
  rcases name_of_mem h with rfl | ⟨i, rfl⟩
  · rw [hfield.base, ← List.append_nil (baseName f.name p.number).toList]
    exact numberIn_baseName f.name p.number (by simp)
  · rw [String.append_assoc, String.toList_append, hfield.base]
    refine numberIn_baseName f.name p.number ?_
    simp

theorem nodup_names (p : Predicate) : p.parameters.names.Nodup := by
  unfold parameters
  split
  · exact List.nodup_nil
  split
  · exact List.nodup_nil
  split
  · split
    · exact Bag.nodup_insertAll _ Bag.nodup_empty
    · exact List.nodup_nil
  · exact List.nodup_singleton _

/-- Predicates of different numbers share no name. -/
theorem disjoint_names {p p' : Predicate} {f f' : Field} (hfield : p.OnField f) (hfield' : p'.OnField f')
    (hne : p.number.toNat ≠ p'.number.toNat) : p.parameters.names.Disjoint p'.parameters.names := by
  intro name hname hname'
  have hdigits := numberIn_of_mem hfield hname
  rw [numberIn_of_mem hfield' hname'] at hdigits
  have hnumbers := congrArg (Nat.ofDigitChars 10 · 0) hdigits
  simp only [Nat.ofDigitChars_ten_toDigits] at hnumbers
  exact hne hnumbers.symm

/-- How many parameters a predicate has: one for each bound of a range and one for any other value. -/
def width (p : Predicate) : Nat :=
  if p.value.isNone || p.operator.isNullCheck then 0 else if p.operator.isRange then 2 else 1

/-- A predicate as it is made from a field. -/
def Made (p : Predicate) : Prop := ∃ f raw, ofField p.number p.connective f p.operator raw = .ok p

theorem Made.onField {p : Predicate} (h : p.Made) : ∃ f, p.OnField f := by
  obtain ⟨f, raw, h⟩ := h
  exact ⟨f, onField_of_ofField h⟩

theorem made_of_ofField {number : UInt32} {connective : Connective} {f : Field} {op : Operator} {raw : Json}
    {p : Predicate} (h : ofField number connective f op raw = .ok p) : p.Made := by
  obtain ⟨rfl, rfl, rfl⟩ := Spec.ofField_eq_ok h
  exact ⟨f, raw, h⟩

/-- There is no value where none is needed or given, and one of the right shape anywhere else. -/
theorem valueFor_cases {f : Field} {op : Operator} {v : Value} {value : Option Value}
    (h : valueFor f op v = .ok value) :
    ((op.isNullCheck || isAbsent v) = true ∧ value = none) ∨
      ((op.isNullCheck || isAbsent v) = false ∧ ∃ w, value = some w ∧ checkShape f.name op w = .ok ()) := by
  have hshape : ∀ w, (do checkShape f.name op w; return some w) = Except.ok value →
      ∃ w, value = some w ∧ checkShape f.name op w = .ok () := by
    intro w h
    obtain ⟨⟨⟩, hcheck, h⟩ := bind_eq_ok.1 h
    cases h
    exact ⟨w, rfl, hcheck⟩
  unfold valueFor at h
  split at h
  · next hnone =>
    cases h
    exact .inl ⟨hnone, rfl⟩
  · next hsome =>
    refine .inr ⟨Bool.eq_false_iff.2 hsome, ?_⟩
    cases ht : f.transform? with
    | none =>
      rw [ht] at h
      exact hshape v h
    | some t =>
      rw [ht] at h
      obtain ⟨w, _, h⟩ := bind_eq_ok.1 h
      exact hshape w h

/-- A range has two bounds. -/
theorem Made.bounds {p : Predicate} (h : p.Made) (hrange : p.operator.isRange = true) {v : Value}
    (hvalue : p.value = some v) : ∃ low high, v = .list [low, high] := by
  obtain ⟨f, raw, h⟩ := h
  obtain ⟨u, _, h⟩ := bind_eq_ok.1 h
  obtain ⟨value, hfor, h⟩ := bind_eq_ok.1 h
  have hmade : value = p.value := congrArg Predicate.value (Except.ok.inj h)
  rw [hmade, hvalue] at hfor
  obtain ⟨w, hw, hcheck⟩ := ((valueFor_cases hfor).resolve_left (by simp)).2
  cases hw
  unfold checkShape at hcheck
  split at hcheck
  · rw [if_pos hrange] at hcheck
    split at hcheck
    · next items hlength =>
      match items, hlength with
      | [low, high], _ => exact ⟨low, high, rfl⟩
    · cases hcheck
  · rw [if_pos hrange] at hcheck
    cases hcheck

theorem Made.size_parameters {p : Predicate} (h : p.Made) : p.parameters.size = p.width := by
  cases hvalue : p.value with
  | none =>
    rw [parameters_nothing hvalue, width, hvalue]
    rfl
  | some v =>
    cases hnull : p.operator.isNullCheck with
    | true =>
      rw [parameters, width, hvalue, hnull]
      rfl
    | false =>
      cases hrange : p.operator.isRange with
      | true =>
        obtain ⟨low, high, rfl⟩ := h.bounds hrange hvalue
        rw [parameters_bounds hrange hvalue, width, hvalue, hnull, hrange]
        rfl
      | false =>
        rw [parameters_scalar hnull hrange hvalue, width, hvalue, hnull, hrange]
        rfl

end Predicate

/-! ## Numbers of nodes -/

namespace Node

mutual

/-- The numbers of all nodes, in pre-order. -/
def numbers : Node → List UInt32
  | predicate p => [p.number]
  | group number _ children => number :: allNumbers children

def allNumbers : List Node → List UInt32
  | [] => []
  | n :: rest => numbers n ++ allNumbers rest

end

mutual

theorem sublist_numbers : ∀ n : Node, (n.predicates.map Predicate.number).Sublist n.numbers
  | predicate _ => .refl _
  | group number _ children => (sublist_allNumbers children).cons number

theorem sublist_allNumbers : ∀ ns : List Node, ((allPredicates ns).map Predicate.number).Sublist (allNumbers ns)
  | [] => .slnil
  | n :: rest => by
    rw [allPredicates, allNumbers, List.map_append]
    exact (sublist_numbers n).append (sublist_allNumbers rest)

end

end Node

/-- Nodes of these numbers and predicates take the numbers from one up to another. -/
structure Numbered (start stop : Nat) (numbers : List UInt32) (ps : List Predicate) : Prop where
  stop : stop = start + numbers.length
  numbers : numbers.map UInt32.toNat = List.range' start numbers.length
  made : ∀ p ∈ ps, p.Made

namespace Numbered

variable {start middle stop : Nat} {numbers numbers' : List UInt32} {ps ps' : List Predicate}

theorem append (h : Numbered start middle numbers ps) (h' : Numbered middle stop numbers' ps') :
    Numbered start stop (numbers ++ numbers') (ps ++ ps') where
  stop := by
    have hmiddle := h.stop
    have hstop := h'.stop
    rw [List.length_append]
    omega
  numbers := by rw [List.map_append, h.numbers, h'.numbers, h.stop, List.length_append, List.range'_append_1]
  made := List.forall_mem_append.mpr ⟨h.made, h'.made⟩

/-- A group takes a number itself. -/
theorem cons {number : UInt32} (h : Numbered (number.toNat + 1) stop numbers ps) :
    Numbered number.toNat stop (number :: numbers) ps where
  stop := by
    have hstop := h.stop
    rw [List.length_cons]
    omega
  numbers := by rw [List.map_cons, h.numbers, List.length_cons, List.range'_succ]
  made := h.made

end Numbered

namespace Spec

theorem numbered_condition {c : Catalog} {connective : Connective} {ms : Json.Members} {next next' : UInt32} {n : Node}
    (h : buildLeaf c connective ms next = .ok (n, next')) : Numbered next.toNat next'.toNat n.numbers n.predicates := by
  obtain ⟨leaf, _, h⟩ := bind_eq_ok.1 h
  obtain ⟨f, _, h⟩ := bind_eq_ok.1 h
  obtain ⟨after, hafter, h⟩ := bind_eq_ok.1 h
  obtain ⟨p, hp, h⟩ := bind_eq_ok.1 h
  cases h
  obtain ⟨hnumber, -, -⟩ := ofField_eq_ok hp
  rw [numberAfter_eq_ok] at hafter
  exact ⟨hafter, by simp [Node.numbers, hnumber], List.forall_mem_singleton.mpr (Predicate.made_of_ofField hp)⟩

/-- Nodes are numbered one after another. -/
theorem numbered_node {c : Catalog} :
    (∀ j next n next', node c next j = .ok (n, next') → Numbered next.toNat next'.toNat n.numbers n.predicates) ∧
    ∀ items next ns next', nodes c next items = .ok (ns, next') →
      Numbered next.toNat next'.toNat (Node.allNumbers ns) (Node.allPredicates ns) := by
  refine built_induction ?array ?group ?condition ?nil ?cons
  case array =>
    intro items next start children next' hstart ih
    exact .cons (numberAfter_eq_ok.1 hstart ▸ ih)
  case group =>
    intro ms items connective next start children next' _ _ hstart ih
    exact .cons (numberAfter_eq_ok.1 hstart ▸ ih)
  case condition =>
    intro ms connective next n next' _ _ _ h
    exact numbered_condition h
  case nil =>
    intro next
    exact ⟨rfl, rfl, List.forall_mem_nil _⟩
  case cons =>
    intro j rest next n middle ns next' ihj ihrest
    exact ihj.append ihrest

theorem numbered_build {c : Catalog} {filters : Json} {start : UInt32} {n : Node}
    (h : build c filters start = .ok n) : ∃ stop, Numbered start.toNat stop n.numbers n.predicates := by
  unfold build at h
  split at h
  · obtain ⟨_, _, rfl⟩ := map_eq_ok.1 h
    exact ⟨_, rfl, rfl, List.forall_mem_nil _⟩
  · obtain ⟨⟨n', next'⟩, hnode, rfl⟩ := map_eq_ok.1 h
    exact ⟨_, numbered_node.1 filters start n' next' hnode⟩

/-- The predicates of a filter have different numbers. -/
theorem pairwise_build {c : Catalog} {filters : Json} {start : UInt32} {n : Node}
    (h : build c filters start = .ok n) :
    n.predicates.Pairwise fun p p' => p.number.toNat ≠ p'.number.toNat := by
  obtain ⟨stop, hnumbered⟩ := numbered_build h
  have hall : (n.numbers.map UInt32.toNat).Nodup := hnumbered.numbers ▸ List.nodup_range'
  have hsome := hall.sublist (n.sublist_numbers.map UInt32.toNat)
  rw [List.map_map] at hsome
  exact List.pairwise_map.mp hsome

end Spec

/-! ## Parameters of a filter -/

namespace Node

/-- The parameters that predicates have of their own. -/
def ownEntries (ps : List Predicate) : List (String × Value) := ps.flatMap fun p => p.parameters.entries

mutual

/-- Parameters with different names are all kept, in the order of the predicates. -/
theorem entries_parameters :
    ∀ n : Node, ((ownEntries n.predicates).map Prod.fst).Nodup → n.parameters.entries = ownEntries n.predicates
  | predicate p, _ => by simp [parameters, predicates, ownEntries]
  | group _ _ children, h => by
    rw [parameters, predicates, entries_gather .empty children h]
    rfl

theorem entries_gather (bag : Bag) :
    ∀ ns : List Node, ((bag.entries ++ ownEntries (allPredicates ns)).map Prod.fst).Nodup →
      (gather bag ns).entries = bag.entries ++ ownEntries (allPredicates ns)
  | [], _ => by simp [gather, allPredicates, ownEntries]
  | n :: rest, h => by
    have hsplit : ownEntries (allPredicates (n :: rest)) =
        ownEntries n.predicates ++ ownEntries (allPredicates rest) := List.flatMap_append
    rw [hsplit, ← List.append_assoc] at h
    have hfront : ((bag.entries ++ ownEntries n.predicates).map Prod.fst).Nodup :=
      h.sublist ((List.sublist_append_left _ _).map Prod.fst)
    have hn : n.parameters.entries = ownEntries n.predicates :=
      entries_parameters n (hfront.sublist ((List.sublist_append_right _ _).map Prod.fst))
    have hextend : (bag.extend n.parameters).entries = bag.entries ++ ownEntries n.predicates := by
      rw [Bag.extend, hn]
      exact Bag.entries_insertAll_of_nodup hfront
    rw [gather, entries_gather (bag.extend n.parameters) rest (by rwa [hextend]), hextend, hsplit, List.append_assoc]

end

theorem nodup_ownEntries {ps : List Predicate} (hnumbers : ps.Pairwise fun p p' => p.number.toNat ≠ p'.number.toNat)
    (hfields : ∀ p ∈ ps, ∃ f, p.OnField f) : ((ownEntries ps).map Prod.fst).Nodup := by
  rw [ownEntries, List.map_flatMap, List.nodup_flatMap]
  refine ⟨fun p _ => p.nodup_names, hnumbers.imp_of_mem fun {p p'} hp hp' hne => ?_⟩
  obtain ⟨f, hfield⟩ := hfields p hp
  obtain ⟨f', hfield'⟩ := hfields p' hp'
  exact Predicate.disjoint_names hfield hfield' hne

/-- Every parameter of a predicate is one of the filter's. -/
theorem get?_parameters {n : Node} (hnumbers : n.predicates.Pairwise fun p p' => p.number.toNat ≠ p'.number.toNat)
    (hfields : ∀ p ∈ n.predicates, ∃ f, p.OnField f) {p : Predicate} (hp : p ∈ n.predicates)
    {e : String × Value} (he : e ∈ p.parameters.entries) : n.parameters.get? e.1 = some e.2 := by
  have hnodup := nodup_ownEntries hnumbers hfields
  have hentries := entries_parameters n hnodup
  refine Bag.get?_of_mem (hentries ▸ hnodup) ?_
  rw [hentries]
  exact List.mem_flatMap.mpr ⟨p, hp, he⟩

/-- What the numbers and the parameters of a filter keep to. -/
structure Lossless (start : UInt32) (n : Node) : Prop where
  /-- The nodes have the numbers from the first on, in pre-order. -/
  numbers : n.numbers.map UInt32.toNat = List.range' start.toNat n.numbers.length
  /-- No name is there twice. -/
  nodup : ((ownEntries n.predicates).map Prod.fst).Nodup
  /-- The parameters of the predicates are those of the filter. -/
  entries : n.parameters.entries = ownEntries n.predicates
  sizes : ∀ p ∈ n.predicates, p.parameters.size = p.width

end Node

namespace Spec

theorem disjoint_build {c c' : Catalog} {filters filters' : Json} {start start' : UInt32} {n n' : Node}
    (h : build c filters start = .ok n) (h' : build c' filters' start' = .ok n')
    (hnumbers : n.numbers.Disjoint n'.numbers) :
    ((Node.ownEntries n.predicates).map Prod.fst).Disjoint ((Node.ownEntries n'.predicates).map Prod.fst) := by
  obtain ⟨stop, hnumbered⟩ := numbered_build h
  obtain ⟨stop', hnumbered'⟩ := numbered_build h'
  have hnumber : ∀ {n : Node} {p : Predicate}, p ∈ n.predicates → p.number ∈ n.numbers := fun hp =>
    (Node.sublist_numbers _).subset (List.mem_map_of_mem hp)
  intro name hname hname'
  simp only [Node.ownEntries, List.map_flatMap, List.mem_flatMap] at hname hname'
  obtain ⟨p, hp, hname⟩ := hname
  obtain ⟨p', hp', hname'⟩ := hname'
  obtain ⟨f, hfield⟩ := (hnumbered.made p hp).onField
  obtain ⟨f', hfield'⟩ := (hnumbered'.made p' hp').onField
  refine Predicate.disjoint_names hfield hfield' (fun heq => ?_) hname hname'
  exact hnumbers (hnumber hp) (UInt32.toNat_inj.1 heq ▸ hnumber hp')

theorem lossless_build {c : Catalog} {filters : Json} {start : UInt32} {n : Node}
    (h : build c filters start = .ok n) : n.Lossless start := by
  obtain ⟨stop, hnumbered⟩ := numbered_build h
  have hnodup := Node.nodup_ownEntries (pairwise_build h) fun p hp => (hnumbered.made p hp).onField
  exact ⟨hnumbered.numbers, hnodup, n.entries_parameters hnodup, fun p hp => (hnumbered.made p hp).size_parameters⟩

/-- Filters are built with a number for each node and without a loss of parameters, and two filters that share
no number share no name. -/
theorem build_lossless {c : Catalog} {filters : Json} {start : UInt32} {n : Node}
    (h : build c filters start = .ok n) :
    n.Lossless start ∧ ∀ {c' : Catalog} {filters' : Json} {start' : UInt32} {n' : Node},
      build c' filters' start' = .ok n' → n.numbers.Disjoint n'.numbers →
        n.parameters.names.Disjoint n'.parameters.names := by
  refine ⟨lossless_build h, fun {c' filters' start' n'} h' hnumbers => ?_⟩
  rw [Bag.names, (lossless_build h).entries, Bag.names, (lossless_build h').entries]
  exact disjoint_build h h' hnumbers

/-- Fields whose names leave the same letters and digits, or none. -/
def borders : Catalog := .ofColumns [⟨"b_1", "b.b1"⟩, ⟨"B-1!", "b.b2"⟩, ⟨"ñ", "b.n"⟩]

def namedOr : Json.Members :=
  [("bool_operator", .str "or"),
    ("collection", .arr [
      .obj [("property", .str "B-1!"), ("operator", .str "equals"), ("value", .str "x")],
      .obj [("property", .str "ñ"), ("operator", .str "equals")]])]

/-- A range, and in a group one value and one that is missing. -/
def betweenOrNamed : Json :=
  .arr [
    .obj [("property", .str "b_1"), ("operator", .str "between"), ("value", .arr [.int 1, .int 2])],
    .obj namedOr]

theorem numbers_betweenOrNamed :
    (build borders betweenOrNamed 4).toOption.map Node.numbers = some [4, 5, 6, 7, 8] ∧
    (build borders betweenOrNamed 9).toOption.map Node.numbers = some [9, 10, 11, 12, 13] := by
  have hgroup : ∀ next, node borders next (.obj namedOr) = groupOf borders next .or
      [.obj [("property", .str "B-1!"), ("operator", .str "equals"), ("value", .str "x")],
        .obj [("property", .str "ñ"), ("operator", .str "equals")]] := fun next => node_group borders next rfl
  constructor <;>
  · rw [build, betweenOrNamed, if_neg (by decide), node_array, groupOf]
    simp only [nodes_cons, hgroup]
    cbv

theorem build_lossless_betweenOrNamed :
    ∃ n n', build borders betweenOrNamed 4 = .ok n ∧ build borders betweenOrNamed 9 = .ok n' ∧
      n.numbers.Disjoint n'.numbers ∧ n.Lossless 4 ∧ n.parameters.names.Disjoint n'.parameters.names := by
  obtain ⟨hfirst, hsecond⟩ := numbers_betweenOrNamed
  cases hn : build borders betweenOrNamed 4 with
  | error e =>
    rw [hn] at hfirst
    cases hfirst
  | ok n =>
    cases hn' : build borders betweenOrNamed 9 with
    | error e =>
      rw [hn'] at hsecond
      cases hsecond
    | ok n' =>
      rw [hn] at hfirst
      rw [hn'] at hsecond
      have hnumbers : n.numbers.Disjoint n'.numbers := by
        rw [Option.some.inj hfirst, Option.some.inj hsecond]
        simp
      obtain ⟨hlossless, hdisjoint⟩ := build_lossless hn
      exact ⟨n, n', rfl, rfl, hnumbers, hlossless, hdisjoint hn' hnumbers⟩

end Spec
end Listing
