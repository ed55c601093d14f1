import Listing.Filter.Node
import Listing.Proofs.Condition.Runs
/-!
# What a filter means

A truth for every place of a filter gives the filter a truth: a group holds when all parts of some run
do, the runs being those of its children that say something (`meaning`). Predicates are told apart by
where they stand, since two of them may be equal.
-/
namespace Listing

/-- A place in a filter: which child to go to, at each group from the root on. -/
abbrev Path := List Nat

namespace Node

/-! ## Leaves -/

/-- A predicate and its place. -/
structure Leaf where
  path : Path
  predicate : Predicate

mutual

/-- The predicates with their places, for a filter that stands at `path`. -/
def leavesAt (path : Path) : Node → List Leaf
  | predicate p => [⟨path, p⟩]
  | group _ _ children => childLeaves path 0 children

/-- The same for children of the group at `path`, counted from `i` on. -/
def childLeaves (path : Path) (i : Nat) : List Node → List Leaf
  | [] => []
  | n :: rest => leavesAt (path ++ [i]) n ++ childLeaves path (i + 1) rest

end

/-- The predicates that say something in a query, from left to right. -/
def contributing (scope : Scope) (n : Node) : List Leaf :=
  (n.leavesAt []).filter fun l => l.predicate.contributes scope

mutual

theorem map_leavesAt (path : Path) : ∀ n : Node, (n.leavesAt path).map Leaf.predicate = n.predicates
  | predicate _ => rfl
  | group _ _ children => map_childLeaves path 0 children

theorem map_childLeaves (path : Path) (i : Nat) :
    ∀ ns : List Node, (childLeaves path i ns).map Leaf.predicate = allPredicates ns
  | [] => rfl
  | n :: rest => by
    rw [childLeaves, List.map_append, map_leavesAt (path ++ [i]) n, map_childLeaves path (i + 1) rest,
      allPredicates]

end

mutual

theorem path_of_mem_leavesAt (path : Path) {l : Leaf} :
    ∀ n : Node, l ∈ n.leavesAt path → ∃ rest, l.path = path ++ rest
  | predicate p, h => by
    rw [leavesAt, List.mem_singleton] at h
    exact ⟨[], by rw [h, List.append_nil]⟩
  | group _ _ children, h => by
    obtain ⟨j, _, rest, hpath⟩ := path_of_mem_childLeaves path 0 children h
    exact ⟨j :: rest, hpath⟩

theorem path_of_mem_childLeaves (path : Path) (i : Nat) {l : Leaf} :
    ∀ ns : List Node, l ∈ childLeaves path i ns → ∃ j, i ≤ j ∧ ∃ rest, l.path = path ++ j :: rest
  | [], h => by cases h
  | n :: ns, h => by
    rw [childLeaves, List.mem_append] at h
    rcases h with h | h
    · obtain ⟨rest, hpath⟩ := path_of_mem_leavesAt (path ++ [i]) n h
      exact ⟨i, Nat.le_refl i, rest, by rw [hpath, List.append_assoc, List.singleton_append]⟩
    · obtain ⟨j, hj, rest, hpath⟩ := path_of_mem_childLeaves path (i + 1) ns h
      exact ⟨j, by omega, rest, hpath⟩

end

mutual

/-- No two predicates stand at one place. -/
theorem nodup_leavesAt (path : Path) : ∀ n : Node, ((n.leavesAt path).map Leaf.path).Nodup
  | predicate _ => by simp [leavesAt]
  | group _ _ children => nodup_childLeaves path 0 children

theorem nodup_childLeaves (path : Path) (i : Nat) :
    ∀ ns : List Node, ((childLeaves path i ns).map Leaf.path).Nodup
  | [] => List.nodup_nil
  | n :: rest => by
    rw [childLeaves, List.map_append, List.nodup_append]
    refine ⟨nodup_leavesAt (path ++ [i]) n, nodup_childLeaves path (i + 1) rest, ?_⟩
    intro a ha b hb hab
    obtain ⟨l, hl, rfl⟩ := List.mem_map.1 ha
    obtain ⟨m, hm, rfl⟩ := List.mem_map.1 hb
    obtain ⟨below, hlpath⟩ := path_of_mem_leavesAt (path ++ [i]) n hl
    obtain ⟨j, hj, below', hmpath⟩ := path_of_mem_childLeaves path (i + 1) rest hm
    rw [hlpath, hmpath, List.append_assoc, List.singleton_append, List.append_cancel_left_eq,
      List.cons.injEq] at hab
    omega

end

/-! ## Truth -/

mutual

/-- The filter's truth in a query, under a truth for every place; `none` if it says nothing there. -/
def meaning (scope : Scope) (v : Path → Bool) : Node → Option Bool
  | predicate p => if p.contributes scope then some (v []) else none
  | group _ _ children =>
    match meanings scope v 0 children with
    | [] => none
    | parts => some (anyRun parts)

/-- The connective and the truth of each child that says something, counted from `i` on. -/
def meanings (scope : Scope) (v : Path → Bool) (i : Nat) : List Node → List (Connective × Bool)
  | [] => []
  | n :: rest =>
    match meaning scope (fun path => v (i :: path)) n with
    | some b => (n.connective, b) :: meanings scope v (i + 1) rest
    | none => meanings scope v (i + 1) rest

end

/-! ## Saying something -/

/-- Whether one of its predicates says something in a query. -/
def speaks (scope : Scope) (n : Node) : Bool := n.predicates.any fun p => p.contributes scope

theorem speaks_predicate (scope : Scope) (p : Predicate) : (predicate p).speaks scope = p.contributes scope := by
  simp [speaks, predicates]

theorem speaks_group (scope : Scope) (number : UInt32) (c : Connective) (children : List Node) :
    (group number c children).speaks scope = children.any fun n => n.speaks scope := by
  rw [speaks, predicates]
  induction children with
  | nil => rfl
  | cons n rest ih => rw [allPredicates, List.any_append, ih, List.any_cons, speaks]

theorem contributing_eq_nil {scope : Scope} {n : Node} : n.contributing scope = [] ↔ n.speaks scope = false := by
  rw [speaks, ← n.map_leavesAt [], contributing, List.filter_eq_nil_iff]
  simp

mutual

/-- A filter has a truth if it says something. -/
theorem isSome_meaning (scope : Scope) (v : Path → Bool) :
    ∀ n : Node, (n.meaning scope v).isSome = n.speaks scope
  | predicate p => by
    rw [meaning, speaks_predicate]
    cases p.contributes scope <;> rfl
  | group number c children => by
    have h := isEmpty_meanings scope v 0 children
    rw [meaning, speaks_group]
    cases hparts : meanings scope v 0 children with
    | nil => simpa [hparts] using h
    | cons part rest => simpa [hparts] using h

theorem isEmpty_meanings (scope : Scope) (v : Path → Bool) (i : Nat) :
    ∀ ns : List Node, (meanings scope v i ns).isEmpty = !ns.any fun n => n.speaks scope
  | [] => rfl
  | n :: rest => by
    have hn := isSome_meaning scope (fun path => v (i :: path)) n
    rw [meanings, List.any_cons, ← hn]
    cases meaning scope (fun path => v (i :: path)) n with
    | some b => rfl
    | none => exact isEmpty_meanings scope v (i + 1) rest

end

theorem meaning_eq_none {scope : Scope} {n : Node} (h : n.speaks scope = false) (v : Path → Bool) :
    n.meaning scope v = none := by
  rw [← isSome_meaning scope v n] at h
  exact Option.isNone_iff_eq_none.1 (Option.isSome_eq_false_iff.1 h)

end Node
end Listing
