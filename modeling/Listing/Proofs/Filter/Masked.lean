import Listing.Query
/-!
# Masked values

Masking puts null for every scalar that a filter binds and keeps all else: the tree, the names of the
parameters, the lengths of lists. Everything that becomes text is the same for a filter and its masked
form: its conditions (`compile_mask`), whether it is aggregated (`aggregated_mask`), the names of its
parameters (`parameters_mask`) and the statement with placeholders (`bind_sql_mask`).
-/
namespace Listing

namespace Value

mutual

/-- The value with null for its scalars. -/
def mask : Value → Value
  | .list items => .list (maskAll items)
  | _ => .null

def maskAll : List Value → List Value
  | [] => []
  | v :: rest => mask v :: maskAll rest

end

@[simp] theorem maskAll_eq_map (vs : List Value) : maskAll vs = vs.map mask := by
  induction vs with
  | nil => rfl
  | cons v rest ih => rw [maskAll, ih, List.map_cons]

theorem mask_of_not_list {v : Value} (h : v.isList = false) : v.mask = .null := by
  cases v with
  | list items => simp [isList] at h
  | _ => rfl

end Value

/-! ## Bags -/

namespace Bag

/-- The bag with masked values. -/
def mask (bag : Bag) : Bag := ⟨bag.entries.map fun (n, v) => (n, v.mask)⟩

@[simp] theorem names_mask (bag : Bag) : bag.mask.names = bag.names := by
  simp [mask, names]

theorem put_mask (name : String) (value : Value) (es : List (String × Value)) :
    put name value.mask (es.map fun (n, v) => (n, v.mask)) =
      (put name value es).map fun (n, v) => (n, v.mask) := by
  induction es with
  | nil => rfl
  | cons e es ih =>
    obtain ⟨n, v⟩ := e
    by_cases h : n = name
    · simp [put, h]
    · simp only [List.map_cons, put, h, if_false, ih]

theorem insert_mask (bag : Bag) (name : String) (value : Value) :
    bag.mask.insert name value.mask = (bag.insert name value).mask := by
  simp only [insert, mask, put_mask]

theorem insertAll_mask (bag : Bag) (es : List (String × Value)) :
    bag.mask.insertAll (es.map fun (n, v) => (n, v.mask)) = (bag.insertAll es).mask := by
  induction es generalizing bag with
  | nil => rfl
  | cons e es ih =>
    have hstep : bag.mask.insert e.1 e.2.mask = (bag.insert e.1 e.2).mask := insert_mask bag e.1 e.2
    have := ih (bag.insert e.1 e.2)
    rw [← hstep] at this
    exact this

theorem extend_mask (bag other : Bag) : bag.mask.extend other.mask = (bag.extend other).mask :=
  insertAll_mask bag other.entries

theorem get?_mask (bag : Bag) (name : String) : bag.mask.get? name = (bag.get? name).map Value.mask := by
  obtain ⟨es⟩ := bag
  simp only [get?, mask]
  induction es with
  | nil => rfl
  | cons e es ih =>
    obtain ⟨n, v⟩ := e
    simp only [List.map_cons, List.lookup_cons]
    split
    · rfl
    · exact ih

end Bag

/-! ## Binding -/

namespace Bound

@[simp] theorem length_slots_mask (v : Value) : (slots v.mask).length = (slots v).length := by
  cases v <;> simp [Value.mask, slots]

/-- The text with placeholders looks at a value only for the number of its slots. -/
theorem fill_mask (p : Platform) (bag : Bag) (before : Nat) (ps : List Piece) :
    (fill p bag.mask before ps).1 = (fill p bag before ps).1 ∧
      (fill p bag.mask before ps).2.length = (fill p bag before ps).2.length := by
  induction ps generalizing before with
  | nil => exact ⟨rfl, rfl⟩
  | cons piece rest ih =>
    cases piece with
    | char c =>
      obtain ⟨htext, hlen⟩ := ih before
      simp only [fill]
      exact ⟨by rw [htext], hlen⟩
    | name n =>
      simp only [fill, Bag.get?_mask]
      cases bag.get? (.ofList n) with
      | none =>
        obtain ⟨htext, hlen⟩ := ih before
        simp only [Option.map_none]
        exact ⟨by rw [htext], hlen⟩
      | some v =>
        obtain ⟨htext, hlen⟩ := ih (before + (slots v).length)
        simp only [Option.map_some, length_slots_mask, List.length_append]
        exact ⟨by rw [htext], by rw [hlen]⟩

end Bound

theorem Platform.bind_sql_mask (p : Platform) (sql : String) (bag : Bag) :
    (p.bind sql bag.mask).sql = (p.bind sql bag).sql :=
  congrArg String.ofList (Bound.fill_mask p bag 0 (Bound.pieces .plain sql.toList)).1

theorem Platform.length_bind_params_mask (p : Platform) (sql : String) (bag : Bag) :
    (p.bind sql bag.mask).params.length = (p.bind sql bag).params.length :=
  (Bound.fill_mask p bag 0 (Bound.pieces .plain sql.toList)).2

/-! ## Predicates -/

namespace Predicate

/-- The predicate with its value masked. -/
def mask (p : Predicate) : Predicate := { p with value := p.value.map Value.mask }

@[simp] theorem contributes_mask (p : Predicate) (scope : Scope) :
    p.mask.contributes scope = p.contributes scope := by
  simp only [contributes, mask, Option.isSome_map]
  rfl

theorem compile_mask (p : Predicate) (scope : Scope) : p.mask.compile scope = p.compile scope := by
  simp only [compile, contributes_mask]
  rfl

theorem boundEntries_mask (base : String) (bounds : List Value) :
    boundEntries base (bounds.map Value.mask) =
      (boundEntries base bounds).map fun (n, v) => (n, v.mask) := by
  simp [boundEntries, List.zipIdx_map, List.map_map, Function.comp_def]

theorem bindable_mask (op : Operator) (v : Value) : bindable op v.mask = (bindable op v).mask := by
  have hmasked : bindable op v.mask = v.mask := by
    cases v <;> rfl
  rw [hmasked, bindable]
  cases h : v.text?.bind op.pattern? with
  | none => rfl
  | some pattern =>
    -- only a scalar has a pattern
    cases v with
    | list items => simp [Value.text?] at h
    | _ => rfl

theorem parameters_mask (p : Predicate) : p.mask.parameters = p.parameters.mask := by
  cases hv : p.value with
  | none => simp [parameters, mask, hv, Bag.mask, Bag.empty]
  | some v =>
    have hempty : Bag.empty = Bag.empty.mask := rfl
    simp only [parameters, mask, hv, Option.map_some]
    split
    · rfl
    · split
      · cases v with
        | list bounds =>
          simp only [Value.mask, Value.maskAll_eq_map, boundEntries_mask]
          exact Bag.insertAll_mask .empty _
        | _ => rfl
      · rw [bindable_mask]
        exact Bag.insert_mask .empty p.base (bindable p.operator v)

end Predicate

/-! ## Trees -/

namespace Node

mutual

/-- The filter with the values of its predicates masked. -/
def mask : Node → Node
  | predicate p => predicate p.mask
  | group n c children => group n c (maskAll children)

def maskAll : List Node → List Node
  | [] => []
  | n :: rest => mask n :: maskAll rest

end

mutual

theorem compile_mask (scope : Scope) : ∀ n : Node, n.mask.compile scope = n.compile scope
  | predicate p => p.compile_mask scope
  | group _ c children => by
    simp only [mask, compile, fragments_mask scope children]

theorem fragments_mask (scope : Scope) :
    ∀ ns : List Node, fragments scope (maskAll ns) = fragments scope ns
  | [] => rfl
  | n :: rest => by
    simp only [maskAll, fragments, compile_mask scope n, fragments_mask scope rest]

end

theorem condition_mask (n : Node) (scope : Scope) : n.mask.condition scope = n.condition scope := by
  rw [condition, compile_mask, condition]

mutual

theorem aggregated_mask : ∀ n : Node, n.mask.aggregated = n.aggregated
  | predicate _ => rfl
  | group _ _ children => anyAggregated_mask children

theorem anyAggregated_mask : ∀ ns : List Node, anyAggregated (maskAll ns) = anyAggregated ns
  | [] => rfl
  | n :: rest => by
    simp only [maskAll, anyAggregated, aggregated_mask n, anyAggregated_mask rest]

end

mutual

theorem parameters_mask : ∀ n : Node, n.mask.parameters = n.parameters.mask
  | predicate p => p.parameters_mask
  | group _ _ children => gather_mask .empty children

theorem gather_mask (bag : Bag) : ∀ ns : List Node, gather bag.mask (maskAll ns) = (gather bag ns).mask
  | [] => rfl
  | n :: rest => by
    simp only [maskAll, gather, parameters_mask n, Bag.extend_mask]
    exact gather_mask (bag.extend n.parameters) rest

end

end Node
end Listing
