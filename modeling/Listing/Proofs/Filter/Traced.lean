import Listing.Proofs.Catalog.Reachable
import Listing.Proofs.Filter.Walk
/-!
# What a check looks up

`traced` checks a specification as `validate` does and keeps the name and the operator of every condition
that it looks up in the catalog, in order (`result_traced`). Building walks over the specification on its
own and looks no operator up. `Matched` says that nothing is built that was not looked up, nor the other
way round; it holds of whatever both accept (`matched_node`).
-/
namespace Listing.Spec

open Json (Members)

/-- A run that looks up conditions: which ones, in order, and its outcome. -/
structure Traced (α : Type) where
  calls : List (String × Operator)
  result : Except Error α

namespace Traced

variable {α β : Type}

instance : Monad Traced where
  pure a := ⟨[], .ok a⟩
  bind x f :=
    match x.result with
    | .ok a => ⟨x.calls ++ (f a).calls, (f a).result⟩
    | .error e => ⟨x.calls, .error e⟩

/-- A step that looks nothing up. -/
def lift (x : Except Error α) : Traced α := ⟨[], x⟩

/-- Looks up whether a field may be filtered by an operator. -/
def checkFilter (c : Catalog) (name : String) (op : Operator) : Traced Field :=
  ⟨[(name, op)], c.checkFilter name op⟩

theorem calls_pure (a : α) : (pure a : Traced α).calls = [] := rfl

theorem result_bind (x : Traced α) (f : α → Traced β) :
    (x >>= f).result = x.result >>= fun a => (f a).result := by
  obtain ⟨calls, result⟩ := x
  cases result <;> rfl

theorem calls_bind {x : Traced α} {a : α} (h : x.result = .ok a) (f : α → Traced β) :
    (x >>= f).calls = x.calls ++ (f a).calls := by
  obtain ⟨calls, result⟩ := x
  subst h
  rfl

end Traced

mutual

/-- The check of a specification, with what it looks up. -/
def traced (c : Catalog) : Json → Traced Nat
  | .null => pure 0
  | .arr items => tracedItems c items
  | .obj ms =>
    if ms.isEmpty then pure 0
    else match _h : Json.member? "collection" ms with
      | some (.arr items) => tracedItems c items
      | some _ => .lift (.error .collectionNotList)
      | none => do
        let leaf ← Traced.lift (leafOf ms)
        let _ ← Traced.checkFilter c leaf.property leaf.operator
        return 1
  | other => .lift (.error (.notAFilter other))
termination_by j => sizeOf j
decreasing_by
  · simp
  · have := Json.sizeOf_member_lt _h
    simp at this ⊢
    omega

/-- The check of a group's entries, with what it looks up. -/
def tracedItems (c : Catalog) : List Json → Traced Nat
  | [] => pure 0
  | j :: rest =>
    if isEntry j then do
      let n ← traced c j
      return n + (← tracedItems c rest)
    else .lift (.error (.notAnEntry j))
termination_by items => sizeOf items

end

section
variable (c : Catalog)

theorem traced_array (items : List Json) : traced c (.arr items) = tracedItems c items := by
  rw [traced]

theorem traced_group {ms : Members} {items : List Json}
    (h : Json.member? "collection" ms = some (.arr items)) : traced c (.obj ms) = tracedItems c items := by
  rw [traced, isEmpty_eq_false_of_member h]
  simp only [Bool.false_eq_true, if_false]
  split
  · next items' h' => rw [h] at h'; cases h'; rfl
  · next j hj h' => exact absurd (Option.some.inj (h'.symm.trans h)) (hj items)
  · next hnone => rw [h] at hnone; cases hnone

theorem traced_broken {ms : Members} {j : Json} (h : Json.member? "collection" ms = some j)
    (hj : ∀ items, j ≠ .arr items) : traced c (.obj ms) = .lift (.error .collectionNotList) := by
  rw [traced, isEmpty_eq_false_of_member h]
  simp only [Bool.false_eq_true, if_false]
  split
  · next items hitems => exact absurd (Option.some.inj (h.symm.trans hitems)) (hj items)
  · rfl
  · next hnone => rw [h] at hnone; cases hnone

theorem traced_condition {ms : Members} (hne : ms ≠ []) (h : Json.member? "collection" ms = none) :
    traced c (.obj ms) = do
      let leaf ← Traced.lift (leafOf ms)
      let _ ← Traced.checkFilter c leaf.property leaf.operator
      return 1 := by
  have hempty : ms.isEmpty = false := List.isEmpty_eq_false_iff.2 hne
  rw [traced, hempty]
  simp only [Bool.false_eq_true, if_false]
  split
  · next h' => rw [h] at h'; cases h'
  · next h' => rw [h] at h'; cases h'
  · rfl

theorem tracedItems_cons {j : Json} {rest : List Json} (h : isEntry j = true) :
    tracedItems c (j :: rest) = do
      let n ← traced c j
      return n + (← tracedItems c rest) := by
  rw [tracedItems, if_pos h]

/-- The trace is one of the check itself. -/
theorem result_traced :
    (∀ j, (traced c j).result = validate c j) ∧ ∀ items, (tracedItems c items).result = validateItems c items := by
  refine walk_induction ?array ?empty ?group ?broken ?condition ?scalar ?nil ?cons
  case array =>
    intro items ih
    rw [traced_array, validate_array, ih]
  case empty =>
    rw [traced, validate_empty]
    rfl
  case group =>
    intro ms items h ih
    rw [traced_group c h, validate_group c h, ih]
  case broken =>
    intro ms j h hj
    rw [traced_broken c h hj, validate_broken c h hj]
    rfl
  case condition =>
    intro ms hne h
    rw [traced_condition c hne h, validate_condition c hne h, Traced.result_bind]
    congr 1
    funext leaf
    rw [Traced.result_bind]
    rfl
  case scalar =>
    intro j hj
    cases j with
    | arr items => cases hj
    | obj ms => cases hj
    | null => rw [traced, validate_null]; rfl
    | _ =>
      rw [validate_scalar c hj (by simp), traced]
      · rfl
      all_goals simp
  case nil =>
    rw [tracedItems, validateItems_nil]
    rfl
  case cons =>
    intro j rest hj hrest
    cases h : isEntry j with
    | true =>
      rw [tracedItems_cons c h, validateItems_cons c h, Traced.result_bind, hj]
      congr 1
      funext n
      rw [Traced.result_bind, hrest]
      rfl
    | false =>
      rw [validateItems_stray c h, tracedItems, if_neg (by simp [h])]
      rfl

end

/-! ## What is built -/

/-- A predicate that the catalog's rules for its field allow. -/
structure Allowed (c : Catalog) (f : Field) (p : Predicate) : Prop where
  field : c.get? f.name = some f
  filterable : f.filterable = true
  operator : f.allows p.operator = true
  built : ∃ raw, Predicate.ofField p.number p.connective f p.operator raw = .ok p

/-- The look-ups, their number and the predicates that were built are those of one list of fields with
their predicates, and all of these are allowed. -/
def Matched (c : Catalog) (calls : List (String × Operator)) (count : Nat) (ps : List Predicate) : Prop :=
  ∃ built : List (Field × Predicate), built.length = count ∧ built.map Prod.snd = ps ∧
    (built.map fun x => (x.1.name, x.2.operator)) = calls ∧ ∀ x ∈ built, Allowed c x.1 x.2

theorem matched_nil (c : Catalog) : Matched c [] 0 [] := ⟨[], rfl, rfl, rfl, by simp⟩

theorem Matched.append {c : Catalog} {calls calls' : List (String × Operator)} {count count' : Nat}
    {ps ps' : List Predicate} (h : Matched c calls count ps) (h' : Matched c calls' count' ps') :
    Matched c (calls ++ calls') (count + count') (ps ++ ps') := by
  obtain ⟨built, rfl, rfl, rfl, hallowed⟩ := h
  obtain ⟨built', rfl, rfl, rfl, hallowed'⟩ := h'
  refine ⟨built ++ built', List.length_append, List.map_append, List.map_append, fun x hx => ?_⟩
  rcases List.mem_append.1 hx with hx | hx
  · exact hallowed x hx
  · exact hallowed' x hx

/-- What a predicate keeps of its making. -/
theorem ofField_eq_ok {number : UInt32} {connective : Connective} {f : Field} {op : Operator} {raw : Json}
    {p : Predicate} (h : Predicate.ofField number connective f op raw = .ok p) :
    p.number = number ∧ p.connective = connective ∧ p.operator = op := by
  obtain ⟨v, _, h⟩ := bind_eq_ok.1 h
  obtain ⟨value, _, h⟩ := bind_eq_ok.1 h
  cases h
  exact ⟨rfl, rfl, rfl⟩

theorem matched_condition {c : Catalog} (hc : c.Indexed) {ms : Members} {connective : Connective}
    {next next' : UInt32} {n : Node} {leaf : Leaf} {f : Field} (hleaf : leafOf ms = .ok leaf)
    (hcheck : c.checkFilter leaf.property leaf.operator = .ok f)
    (hbuild : buildLeaf c connective ms next = .ok (n, next')) :
    Matched c [(leaf.property, leaf.operator)] 1 n.predicates := by
  obtain ⟨leaf', hleaf', hbuild⟩ := bind_eq_ok.1 hbuild
  rw [hleaf] at hleaf'
  cases hleaf'
  obtain ⟨g, hg, hbuild⟩ := bind_eq_ok.1 hbuild
  obtain ⟨hresolve, hallows⟩ := Catalog.checkFilter_eq_ok.1 hcheck
  obtain ⟨hget, hfilterable⟩ := Catalog.resolve_eq_ok.1 hresolve
  rw [hresolve] at hg
  cases hg
  obtain ⟨_, _, hbuild⟩ := bind_eq_ok.1 hbuild
  obtain ⟨p, hp, hbuild⟩ := bind_eq_ok.1 hbuild
  cases hbuild
  have hname : f.name = leaf.property := hc.name_of_get? hget
  obtain ⟨hnumber, hconnective, hoperator⟩ := ofField_eq_ok hp
  refine ⟨[(f, p)], rfl, rfl, by simp [hname, hoperator], fun x hx => ?_⟩
  rw [List.mem_singleton.1 hx]
  refine ⟨by rw [hname, hget], hfilterable, by rw [hoperator, hallows], leaf.value, ?_⟩
  rw [hnumber, hconnective, hoperator, hp]

/-- Whatever the check accepts and is built, is built from exactly what was looked up. -/
theorem matched_node {c : Catalog} (hc : c.Indexed) :
    (∀ j next n next', node c next j = .ok (n, next') → ∀ count, (traced c j).result = .ok count →
      Matched c (traced c j).calls count n.predicates) ∧
    ∀ items next ns next', nodes c next items = .ok (ns, next') → ∀ count, (tracedItems c items).result = .ok count →
      Matched c (tracedItems c items).calls count (Node.allPredicates ns) := by
  refine built_induction ?array ?group ?condition ?nil ?cons
  case array =>
    intro items next start children next' _ ih count hcheck
    rw [traced_array] at hcheck ⊢
    exact ih count hcheck
  case group =>
    intro ms items connective next start children next' h _ _ ih count hcheck
    rw [traced_group c h] at hcheck ⊢
    exact ih count hcheck
  case condition =>
    intro ms connective next n next' hne h _ hbuild count hcheck
    rw [traced_condition c hne h] at hcheck ⊢
    rw [Traced.result_bind] at hcheck
    obtain ⟨leaf, hleaf, hcheck⟩ := bind_eq_ok.1 hcheck
    rw [Traced.result_bind] at hcheck
    obtain ⟨f, hf, hcount⟩ := bind_eq_ok.1 hcheck
    cases hcount
    rw [Traced.calls_bind hleaf, Traced.calls_bind hf]
    exact matched_condition hc hleaf hf hbuild
  case nil =>
    intro next count hcheck
    rw [tracedItems] at hcheck ⊢
    cases hcheck
    exact matched_nil c
  case cons =>
    intro j rest next n middle ns next' ihj ihrest count hcheck
    cases h : isEntry j with
    | false =>
      rw [tracedItems, if_neg (by simp [h])] at hcheck
      cases hcheck
    | true =>
      rw [tracedItems_cons c h] at hcheck ⊢
      rw [Traced.result_bind] at hcheck
      obtain ⟨count₁, hfirst, hcheck⟩ := bind_eq_ok.1 hcheck
      rw [Traced.result_bind] at hcheck
      obtain ⟨count₂, hothers, hcount⟩ := bind_eq_ok.1 hcheck
      cases hcount
      rw [Traced.calls_bind hfirst, Traced.calls_bind hothers, Traced.calls_pure, List.append_nil]
      exact (ihj count₁ hfirst).append (ihrest count₂ hothers)

end Listing.Spec
