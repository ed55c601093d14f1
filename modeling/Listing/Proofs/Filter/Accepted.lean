import Mathlib
import Listing.Proofs.Filter.Refusals
import Listing.Proofs.Filter.Traced
/-!
# Specifications that pass the check

Checking and building walk over a specification on their own. What passes the check is built with as many
predicates as were counted, unless a connective or a value is at fault, which the check does not look at, or
the numbers give out. One form separates the two: an empty object as an entry of a group is no filter to
the check and a condition without a property to the builder (`build_of_validate`, `build_emptyEntry`).
-/
namespace Listing.Spec

open Json (Members)

/-! ## Parts of a specification -/

mutual

/-- A specification and those inside of it, in the order of the nodes that they make. -/
def parts : Json → List Json
  | .arr items => .arr items :: partsOfAll items
  | .obj ms => .obj ms :: match _h : Json.member? "collection" ms with
    | some (.arr items) => partsOfAll items
    | _ => []
  | j => [j]
termination_by j => sizeOf j
decreasing_by
  · simp
  · have := Json.sizeOf_member_lt _h
    simp at this ⊢
    omega

def partsOfAll : List Json → List Json
  | [] => []
  | j :: rest => parts j ++ partsOfAll rest
termination_by items => sizeOf items

end

/-- The specifications inside of one. -/
def inside (spec : Json) : List Json := (parts spec).tail

theorem parts_array (items : List Json) : parts (.arr items) = .arr items :: partsOfAll items := by rw [parts]

theorem parts_group {ms : Members} {items : List Json} (h : Json.member? "collection" ms = some (.arr items)) :
    parts (.obj ms) = .obj ms :: partsOfAll items := by
  rw [parts]
  split
  · next items' h' => rw [h] at h'; cases h'; rfl
  · next hj => exact absurd h (hj items)

theorem parts_condition {ms : Members} (h : Json.member? "collection" ms = none) :
    parts (.obj ms) = [.obj ms] := by
  rw [parts]
  split
  · next h' => rw [h] at h'; cases h'
  · rfl

theorem partsOfAll_nil : partsOfAll [] = [] := by rw [partsOfAll]

theorem partsOfAll_cons (j : Json) (rest : List Json) : partsOfAll (j :: rest) = parts j ++ partsOfAll rest := by
  rw [partsOfAll]

theorem parts_eq_cons (spec : Json) : parts spec = spec :: inside spec := by
  unfold inside
  cases spec <;> rw [parts] <;> first | rfl | simp

/-- A specification that says that there is no filter has nothing inside of it and no conditions. -/
theorem eq_of_isNone {spec : Json} (h : isNone spec = true) : spec = .null ∨ spec = .obj [] := by
  cases spec with
  | null => exact .inl rfl
  | obj ms => exact .inr (congrArg Json.obj (List.isEmpty_iff.1 h))
  | _ => cases h

theorem inside_of_isNone {spec : Json} (h : isNone spec = true) : inside spec = [] := by
  rcases eq_of_isNone h with rfl | rfl
  · rw [inside, parts] <;> simp
  · rw [inside, parts_condition rfl, List.tail_cons]

theorem validate_of_isNone (c : Catalog) {spec : Json} (h : isNone spec = true) : validate c spec = .ok 0 := by
  rcases eq_of_isNone h with rfl | rfl
  · exact validate_null c
  · exact validate_empty c

theorem isEntry_of_validate {c : Catalog} {spec : Json} {count : Nat} (h : validate c spec = .ok count)
    (hsome : isNone spec = false) : isEntry spec = true := by
  cases hentry : isEntry spec with
  | true => rfl
  | false =>
    rw [validate_scalar c hentry (by rintro rfl; cases hsome)] at h
    cases h

/-! ## Building what passed the check -/

/-- What the check does not look at: the word for a connective, and the value of a condition whose field and
operator are in order. -/
inductive Fault (c : Catalog) (ms : Members) : Error → Prop
  | connective {e : Error} (h : connectiveOf ms = .error e) : Fault c ms e
  | value {leaf : Leaf} {f : Field} {e : Error} (hleaf : leafOf ms = .ok leaf)
      (hcheck : c.checkFilter leaf.property leaf.operator = .ok f)
      (h : (do Predicate.valueFor f leaf.operator (← Value.ofFilter leaf.value)) = .error e) : Fault c ms e

theorem Fault.ofConnective_or_ofValue {c : Catalog} {ms : Members} {e : Error} (h : Fault c ms e) :
    e.OfConnective ∨ e.OfValue := by
  cases h with
  | connective h => exact .inl (raises_connectiveOf ms e h)
  | value _ _ h =>
    exact .inr (((Value.raises_ofFilter _).bind fun v _ => Predicate.raises_valueFor _ _ v) e h)

/-- How the building of a specification with these parts ends. -/
inductive Ends {α : Type} (c : Catalog) (whole : List Json) (next : UInt32) (good : α → Prop) :
    Except Error (α × UInt32) → Prop
  | built {a : α} {next' : UInt32} (hgood : good a) (hnext : next'.toNat = next.toNat + whole.length)
      (hfull : .obj [] ∉ whole) : Ends c whole next good (.ok (a, next'))
  | fault {ms : Members} {e : Error} (hms : .obj ms ∈ whole) (h : Fault c ms e) : Ends c whole next good (.error e)
  | empty (h : .obj [] ∈ whole) : Ends c whole next good (.error .noProperty)
  | exhausted (h : UInt32.size ≤ next.toNat + whole.length) : Ends c whole next good (.error .numbersExhausted)

section
variable {α β : Type} {c : Catalog} {whole whole' : List Json} {next next' : UInt32}

/-- The error of a part is one of the whole. -/
theorem Ends.error {good : α → Prop} {good' : β → Prop} {e : Error} (h : Ends c whole next good (.error e))
    (hwhole : ∀ j ∈ whole, j ∈ whole') (hlength : next.toNat + whole.length ≤ next'.toNat + whole'.length) :
    Ends c whole' next' good' (.error e) := by
  cases h with
  | fault hms h => exact .fault (hwhole _ hms) h
  | empty h => exact .empty (hwhole _ h)
  | exhausted h => exact .exhausted (Nat.le_trans h hlength)

/-- What follows on parts that were built goes on with the parts behind them. -/
theorem Ends.bind {good : α → Prop} {good' : β → Prop} {x : Except Error (α × UInt32)}
    {f : α × UInt32 → Except Error (β × UInt32)} (h : Ends c whole next good x)
    (hf : ∀ a next', good a → Ends c whole' next' good' (f (a, next'))) :
    Ends c (whole ++ whole') next good' (x >>= f) := by
  cases x with
  | error e => exact h.error (fun j => List.mem_append_left _) (by simp only [List.length_append]; omega)
  | ok result =>
    obtain ⟨hgood, hnext, hfull⟩ := h
    rename_i a middle
    have hrest := hf a middle hgood
    rw [ok_bind]
    generalize f (a, middle) = y at hrest
    cases hrest with
    | built hgood' hnext' hfull' =>
      refine .built hgood' (by rw [hnext', hnext, List.length_append]; omega) ?_
      rw [List.mem_append, not_or]
      exact ⟨hfull, hfull'⟩
    | fault hms h => exact .fault (List.mem_append_right _ hms) h
    | empty h => exact .empty (List.mem_append_right _ h)
    | exhausted h => exact .exhausted (by rw [List.length_append]; omega)

/-- What is made of parts that were built takes no numbers. -/
theorem Ends.map {good : α → Prop} {good' : β → Prop} {x : Except Error (α × UInt32)} {f : α → β}
    (h : Ends c whole next good x) (hf : ∀ a, good a → good' (f a)) :
    Ends c whole next good' (do let (a, next') ← x; return (f a, next')) := by
  cases h with
  | built hgood hnext hfull => exact .built (hf _ hgood) hnext hfull
  | fault hms h => exact .fault hms h
  | empty h => exact .empty h
  | exhausted h => exact .exhausted h

theorem numberAfter_eq_error {e : Error} (h : numberAfter next = .error e) :
    e = .numbersExhausted ∧ UInt32.size ≤ next.toNat + 1 := by
  unfold numberAfter at h
  split at h
  · cases h
  · cases h
    exact ⟨rfl, by omega⟩

theorem ends_numberAfter {good : α → Prop} {e : Error} (h : numberAfter next = .error e) (hwhole : whole ≠ []) :
    Ends c whole next good (.error e) := by
  obtain ⟨rfl, hnumbers⟩ := numberAfter_eq_error h
  have hlength := List.length_pos_iff.2 hwhole
  exact .exhausted (by omega)

/-- A specification takes a number and goes on with the parts inside of it. -/
theorem ends_numbered {good : α → Prop} {spec : Json} {build : UInt32 → Except Error (α × UInt32)}
    (hspec : spec ≠ .obj []) (h : ∀ start, Ends c whole start good (build start)) :
    Ends c (spec :: whole) next good (numberAfter next >>= build) := by
  cases hnumber : numberAfter next with
  | error e => exact ends_numberAfter hnumber (by simp)
  | ok start =>
    have hstart := numberAfter_eq_ok.1 hnumber
    have hinside := h start
    rw [ok_bind]
    generalize build start = result at hinside
    cases hinside with
    | built hgood hnext hfull =>
      refine .built hgood (by rw [hnext, hstart, List.length_cons]; omega) ?_
      rw [List.mem_cons, not_or]
      exact ⟨hspec.symm, hfull⟩
    | fault hms h => exact .fault (List.mem_cons_of_mem _ hms) h
    | empty h => exact .empty (List.mem_cons_of_mem _ h)
    | exhausted h => exact .exhausted (by rw [List.length_cons]; omega)

end

section
variable {c : Catalog} {next : UInt32} {count : Nat}

theorem ends_connective {ms : Members} {whole : List Json} {good : Node → Prop}
    {build : Connective → Except Error (Node × UInt32)} (hms : .obj ms ∈ whole)
    (h : ∀ connective, Ends c whole next good (build connective)) :
    Ends c whole next good (connectiveOf ms >>= build) := by
  cases hword : connectiveOf ms with
  | error e => exact .fault hms (.connective hword)
  | ok connective => exact h connective

theorem ends_groupOf {spec : Json} {items : List Json} {connective : Connective} (hspec : spec ≠ .obj [])
    (h : ∀ next, Ends c (partsOfAll items) next (fun ns => (Node.allPredicates ns).length = count)
      (nodes c next items)) :
    Ends c (spec :: partsOfAll items) next (fun n => n.predicates.length = count)
      (groupOf c next connective items) :=
  ends_numbered hspec fun start => (h start).map fun _ hlength => hlength

theorem ends_buildLeaf {ms : Members} {leaf : Leaf} {f : Field} {connective : Connective} (hms : ms ≠ [])
    (hleaf : leafOf ms = .ok leaf) (hcheck : c.checkFilter leaf.property leaf.operator = .ok f) :
    Ends c [.obj ms] next (fun n => n.predicates.length = 1) (buildLeaf c connective ms next) := by
  obtain ⟨hresolve, -⟩ := Catalog.checkFilter_eq_ok.1 hcheck
  rw [buildLeaf, hleaf, ok_bind, hresolve, ok_bind]
  cases hnumber : numberAfter next with
  | error e => exact ends_numberAfter hnumber (by simp)
  | ok next' =>
    rw [ok_bind]
    cases hpredicate : Predicate.ofField next connective f leaf.operator leaf.value with
    | ok p => exact .built rfl (numberAfter_eq_ok.1 hnumber) (by simpa using hms.symm)
    | error e =>
      refine .fault List.mem_cons_self (.value hleaf hcheck ?_)
      rcases bind_eq_error.1 hpredicate with hvalue | ⟨v, hv, hpredicate⟩
      · rw [hvalue]
        rfl
      · rw [hv]
        rcases bind_eq_error.1 hpredicate with hvalue | ⟨_, _, hpredicate⟩
        · exact hvalue
        · cases hpredicate

end

/-- The induction over both walks. -/
theorem ends_node (c : Catalog) :
    (∀ j count next, isEntry j = true → validate c j = .ok count →
      Ends c (parts j) next (fun n => n.predicates.length = count) (node c next j)) ∧
    ∀ items count next, validateItems c items = .ok count →
      Ends c (partsOfAll items) next (fun ns => (Node.allPredicates ns).length = count) (nodes c next items) := by
  refine walk_induction ?array ?empty ?group ?broken ?condition ?scalar ?nil ?cons
  case array =>
    intro items ih count next _ hcheck
    rw [validate_array] at hcheck
    rw [parts_array, node_array]
    exact ends_groupOf (by simp) fun next => ih count next hcheck
  case empty =>
    intro count next _ _
    rw [parts_condition rfl, node_condition c next rfl]
    exact .empty List.mem_cons_self
  case group =>
    intro ms items hms ih count next _ hcheck
    rw [validate_group c hms] at hcheck
    rw [node_group c next hms, parts_group hms]
    refine ends_connective List.mem_cons_self fun connective => ends_groupOf ?_ fun next => ih count next hcheck
    rintro ⟨⟩
    cases hms
  case broken =>
    intro ms j hms hj count next _ hcheck
    rw [validate_broken c hms hj] at hcheck
    cases hcheck
  case condition =>
    intro ms hne hms count next _ hcheck
    rw [validate_condition c hne hms] at hcheck
    obtain ⟨leaf, hleaf, hcheck⟩ := bind_eq_ok.1 hcheck
    obtain ⟨f, hf, hcount⟩ := bind_eq_ok.1 hcheck
    cases hcount
    rw [node_condition c next hms, parts_condition hms]
    exact ends_connective List.mem_cons_self fun connective => ends_buildLeaf hne hleaf hf
  case scalar =>
    intro j hj count next hentry
    rw [hj] at hentry
    cases hentry
  case nil =>
    intro count next hcheck
    rw [validateItems_nil] at hcheck
    cases hcheck
    rw [partsOfAll_nil, nodes_nil]
    exact .built rfl rfl List.not_mem_nil
  case cons =>
    intro j rest ihj ihrest count next hcheck
    obtain ⟨hj, first, others, hfirst, hothers, rfl⟩ := validateItems_cons_eq_ok hcheck
    rw [partsOfAll_cons, nodes_cons]
    refine (ihj first next hj hfirst).bind fun n middle hn => (ihrest others middle hothers).map fun ns hns => ?_
    rw [Node.allPredicates, List.length_append, hn, hns]

/-- What passes the check is built with as many predicates as were counted, unless a connective or a value is
at fault, an entry of a group is an empty object, or there are more nodes than numbers. -/
theorem build_of_validate {c : Catalog} {spec : Json} {count : Nat} (start : UInt32)
    (h : validate c spec = .ok count) :
    (∃ tree, build c spec start = .ok tree ∧ tree.predicates.length = count ∧ .obj [] ∉ inside spec) ∨
    (∃ ms e, .obj ms ∈ parts spec ∧ Fault c ms e ∧ (e.OfConnective ∨ e.OfValue) ∧
      build c spec start = .error e) ∨
    (.obj [] ∈ inside spec ∧ build c spec start = .error .noProperty) ∨
    (UInt32.size ≤ start.toNat + (parts spec).length ∧ build c spec start = .error .numbersExhausted) := by
  have hparts : parts spec = spec :: inside spec := parts_eq_cons spec
  cases hnone : isNone spec with
  | true =>
    rw [validate_of_isNone c hnone] at h
    cases h
    rw [build, if_pos hnone, hparts, inside_of_isNone hnone]
    cases hnumber : numberAfter start with
    | ok next => exact .inl ⟨_, rfl, rfl, List.not_mem_nil⟩
    | error e =>
      obtain ⟨rfl, hnumbers⟩ := numberAfter_eq_error hnumber
      exact .inr (.inr (.inr ⟨hnumbers, rfl⟩))
  | false =>
    have hends := (ends_node c).1 spec count start (isEntry_of_validate h hnone) h
    rw [build, hnone, if_neg Bool.false_ne_true]
    generalize node c start spec = result at hends
    cases hends with
    | built hgood _ hfull =>
      rw [hparts, List.mem_cons, not_or] at hfull
      exact .inl ⟨_, rfl, hgood, hfull.2⟩
    | fault hms h => exact .inr (.inl ⟨_, _, hms, h, h.ofConnective_or_ofValue, rfl⟩)
    | empty hmem =>
      have hroot : .obj [] ≠ spec := by
        rintro rfl
        cases hnone
      rw [hparts, List.mem_cons] at hmem
      exact .inr (.inr (.inl ⟨hmem.resolve_left hroot, rfl⟩))
    | exhausted h => exact .inr (.inr (.inr ⟨h, rfl⟩))

def villages : Catalog := .ofColumns [⟨"name", "v.name"⟩]

/-- A village of one name, without more. -/
def nameOnly : Members := [("property", .str "name"), ("operator", .str "equals"), ("value", .str "Uri")]

theorem validate_nameOnly : validate villages (.arr [.obj nameOnly]) = .ok 1 := by
  rw [validate_array, validateItems_cons villages rfl, validate_condition villages (by decide) rfl, validateItems_nil]
  cbv

theorem build_of_validate_nameOnly :
    validate villages (.arr [.obj nameOnly]) = .ok 1 ∧
    ((∃ tree, build villages (.arr [.obj nameOnly]) 7 = .ok tree ∧ tree.predicates.length = 1 ∧
        .obj [] ∉ inside (.arr [.obj nameOnly])) ∨
      (∃ ms e, .obj ms ∈ parts (.arr [.obj nameOnly]) ∧ Fault villages ms e ∧ (e.OfConnective ∨ e.OfValue) ∧
        build villages (.arr [.obj nameOnly]) 7 = .error e) ∨
      (.obj [] ∈ inside (.arr [.obj nameOnly]) ∧ build villages (.arr [.obj nameOnly]) 7 = .error .noProperty) ∨
      (UInt32.size ≤ (7 : UInt32).toNat + (parts (.arr [.obj nameOnly])).length ∧
        build villages (.arr [.obj nameOnly]) 7 = .error .numbersExhausted)) :=
  ⟨validate_nameOnly, build_of_validate 7 validate_nameOnly⟩

/-- An empty object in a group passes the check, which counts nothing in it, and cannot be built: by itself it
is no filter, as an entry it is a condition without a property. -/
theorem build_emptyEntry :
    validate .empty (.obj []) = .ok 0 ∧ build .empty (.obj []) = .ok (.group 0 .and []) ∧
    validate .empty (.arr [.obj []]) = .ok 0 ∧
    ¬ ((∃ tree, build .empty (.arr [.obj []]) = .ok tree ∧ tree.predicates.length = 0) ∨
      ∃ e, build .empty (.arr [.obj []]) = .error e ∧ (e.OfConnective ∨ e.OfValue)) := by
  have hbuild : build .empty (.arr [.obj []]) = .error .noProperty := by
    rw [build, if_neg (by decide), node_array, groupOf]
    simp only [nodes_cons, node_condition .empty _ (show Json.member? "collection" [] = none from rfl)]
    rfl
  refine ⟨validate_empty _, rfl, ?_, ?_⟩
  · rw [validate_array, validateItems_cons _ rfl, validate_empty, validateItems_nil]
    rfl
  · rw [hbuild]
    rintro (⟨tree, htree, _⟩ | ⟨e, he, hkind⟩)
    · cases htree
    · cases he
      exact hkind.elim id id

end Listing.Spec
