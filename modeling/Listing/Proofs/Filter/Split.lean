import Mathlib
import Listing.Catalog.Change
import Listing.Proofs.Filter.Clause
import Listing.Proofs.Filter.Walk
/-!
# A filter split over two queries

A filter with an aggregated field is put on two queries: the list's own gets its inner condition, the
one around it its outer condition, which is the whole filter. A row that the inner condition refuses is
lost, whether or not the whole filter accepts it. `splits` says when that cannot happen, whatever the
truth of the predicates (`conditions_iff_splits`): in every group, each outer run must contain all children
of some inner run, and these children must keep in turn. Filters whose groups join by `AND` split
(`splits_of_conjunctive`); where an `OR` joins an aggregated field to others, rows are lost (`minor_lost`).
-/
namespace Listing

namespace Node

open Condition (read)

/-! ## Groups and the runs of their children -/

mutual

/-- What holds of a group when it holds of its children, holds of every filter. -/
@[elab_as_elim]
theorem descend {P : Node → Prop} (leaf : ∀ p, P (.predicate p))
    (branch : ∀ number c children, (∀ n ∈ children, P n) → P (.group number c children)) : ∀ n, P n
  | .predicate p => leaf p
  | .group number c children => branch number c children (descendAll leaf branch children)

theorem descendAll {P : Node → Prop} (leaf : ∀ p, P (.predicate p))
    (branch : ∀ number c children, (∀ n ∈ children, P n) → P (.group number c children)) :
    ∀ ns : List Node, ∀ n ∈ ns, P n
  | [] => by simp
  | n :: rest => by
    intro m hm
    rcases List.mem_cons.1 hm with hm | hm
    · rw [hm]
      exact descend leaf branch n
    · exact descendAll leaf branch rest m hm

end

/-- The children that say something in a query, with their places, behind their connectives. -/
def speakers (scope : Scope) (i : Nat) (children : List Node) : List (Connective × Node × Nat) :=
  ((children.zipIdx i).filter fun x => x.1.speaks scope).map fun x => (x.1.connective, x)

/-- The filter's truth in a query; one that says nothing there is true. -/
def holds (scope : Scope) (v : Path → Bool) (n : Node) : Bool := (n.meaning scope v).getD true

theorem holds_of_silent {scope : Scope} {n : Node} (h : n.speaks scope = false) (v : Path → Bool) :
    n.holds scope v = true := by
  rw [holds, meaning_eq_none h]
  rfl

theorem mem_speakers {scope : Scope} {children : List Node} {x : Node × Nat} :
    x ∈ (speakers scope 0 children).map Prod.snd ↔ children[x.2]? = some x.1 ∧ x.1.speaks scope = true := by
  obtain ⟨n, j⟩ := x
  simp [speakers, List.mem_zipIdx_iff_getElem?]

theorem meanings_eq_map (scope : Scope) (v : Path → Bool) (i : Nat) (ns : List Node) :
    meanings scope v i ns =
      (speakers scope i ns).map fun (c, x) => (c, x.1.holds scope fun path => v (x.2 :: path)) := by
  induction ns generalizing i with
  | nil => rfl
  | cons n rest ih =>
    have hn := n.isSome_meaning scope fun path => v (i :: path)
    rw [meanings, speakers, List.zipIdx_cons, List.filter_cons]
    cases hm : n.meaning scope fun path => v (i :: path) with
    | none =>
      rw [hm, Option.isSome_none] at hn
      rw [if_neg (by simp [← hn])]
      exact ih (i + 1)
    | some b =>
      rw [hm, Option.isSome_some] at hn
      rw [if_pos hn.symm]
      simp only [List.map_cons, holds, hm, Option.getD_some]
      exact congrArg _ (ih (i + 1))

theorem holds_predicate {scope : Scope} {p : Predicate} (h : (predicate p).speaks scope = true)
    (v : Path → Bool) : (predicate p).holds scope v = v [] := by
  rw [speaks_predicate] at h
  rw [holds, meaning, if_pos h]
  rfl

/-- The children of a group that says something, with their truths. -/
theorem holds_of_meanings {scope : Scope} {number : UInt32} {c : Connective} {children : List Node}
    (h : (group number c children).speaks scope = true) (v : Path → Bool) :
    meanings scope v 0 children ≠ [] ∧
      (group number c children).holds scope v = anyRun (meanings scope v 0 children) := by
  have hsome := (group number c children).isSome_meaning scope v
  rw [h, meaning] at hsome
  rw [holds, meaning]
  cases hparts : meanings scope v 0 children with
  | nil => rw [hparts] at hsome; cases hsome
  | cons part rest => exact ⟨List.cons_ne_nil part rest, rfl⟩

/-- A group holds if all children of some run do. -/
theorem holds_group {scope : Scope} {number : UInt32} {c : Connective} {children : List Node}
    (h : (group number c children).speaks scope = true) (v : Path → Bool) :
    (group number c children).holds scope v = (runs (speakers scope 0 children)).any fun run =>
      run.all fun x => x.1.holds scope fun path => v (x.2 :: path) := by
  rw [(holds_of_meanings h v).2, meanings_eq_map]
  exact anyRun_map (fun x : Node × Nat => x.1.holds scope fun path => v (x.2 :: path)) _

/-- A filter whose predicates all have one truth has it too. -/
theorem holds_const (scope : Scope) (b : Bool) (n : Node) (h : n.speaks scope = true) :
    n.holds scope (fun _ => b) = b := by
  induction n using descend with
  | leaf p => exact holds_predicate h _
  | branch number c children ih =>
    obtain ⟨hne, hholds⟩ := holds_of_meanings h fun _ => b
    rw [hholds]
    refine anyRun_of_forall hne fun part hpart => ?_
    rw [meanings_eq_map, List.mem_map] at hpart
    obtain ⟨⟨d, x⟩, hx, rfl⟩ := hpart
    obtain ⟨hchild, hspeaks⟩ := mem_speakers.1 (List.mem_map.2 ⟨_, hx, rfl⟩)
    exact ih x.1 (List.mem_of_getElem? hchild) hspeaks

/-! ## When a filter splits -/

mutual

/-- Whether the inner condition is true whenever the outer one is. -/
def keeps : Node → Bool
  | predicate _ => true
  | group _ _ children =>
    (runs (speakers .outer 0 children)).all fun run =>
      (runs (speakers .inner 0 children)).any fun part =>
        part.all fun x => run.any (fun y => y.2 == x.2) && (keepers 0 children).contains x.2

/-- The places of the children that keep, counted from `i` on. -/
def keepers (i : Nat) : List Node → List Nat
  | [] => []
  | n :: rest => if keeps n then i :: keepers (i + 1) rest else keepers (i + 1) rest

end

theorem mem_keepers {i j : Nat} {ns : List Node} :
    j ∈ keepers i ns ↔ ∃ n, (n, j) ∈ ns.zipIdx i ∧ n.keeps = true := by
  induction ns generalizing i with
  | nil => simp [keepers]
  | cons n rest ih =>
    rw [keepers, List.zipIdx_cons]
    split
    · next h =>
      rw [List.mem_cons, ih]
      constructor
      · rintro (rfl | ⟨m, hm, hkeeps⟩)
        · exact ⟨n, List.mem_cons_self, h⟩
        · exact ⟨m, List.mem_cons_of_mem _ hm, hkeeps⟩
      · rintro ⟨m, hm, hkeeps⟩
        rcases List.mem_cons.1 hm with hm | hm
        · cases hm
          exact .inl rfl
        · exact .inr ⟨m, hm, hkeeps⟩
    · next h =>
      rw [ih]
      constructor
      · rintro ⟨m, hm, hkeeps⟩
        exact ⟨m, List.mem_cons_of_mem _ hm, hkeeps⟩
      · rintro ⟨m, hm, hkeeps⟩
        rcases List.mem_cons.1 hm with hm | hm
        · cases hm
          exact absurd hkeeps h
        · exact ⟨m, hm, hkeeps⟩

/-- A group keeps if every outer run contains an inner one whose children keep. -/
theorem keeps_group {number : UInt32} {c : Connective} {children : List Node} :
    (group number c children).keeps = true ↔
      ∀ run ∈ runs (speakers .outer 0 children), ∃ part ∈ runs (speakers .inner 0 children),
        ∀ x ∈ part, x ∈ run ∧ x.1.keeps = true := by
  simp only [keeps, List.all_eq_true, List.any_eq_true, Bool.and_eq_true, beq_iff_eq, List.contains_iff_mem]
  constructor
  · intro h run hrun
    obtain ⟨part, hpart, hall⟩ := h run hrun
    refine ⟨part, hpart, fun x hx => ?_⟩
    have hchild := (mem_speakers.1 (mem_of_mem_runs hpart hx)).1
    obtain ⟨⟨y, hy, hplace⟩, hkeeper⟩ := hall x hx
    constructor
    · have hother := (mem_speakers.1 (mem_of_mem_runs hrun hy)).1
      rw [hplace, hchild, Option.some.injEq] at hother
      have hyx : x = y := Prod.ext hother hplace.symm
      rw [hyx]
      exact hy
    · obtain ⟨n, hn, hkeeps⟩ := mem_keepers.1 hkeeper
      rw [List.mem_zipIdx_iff_getElem?, hchild, Option.some.injEq] at hn
      rw [hn]
      exact hkeeps
  · intro h run hrun
    obtain ⟨part, hpart, hall⟩ := h run hrun
    refine ⟨part, hpart, fun x hx => ?_⟩
    obtain ⟨hmem, hkeeps⟩ := hall x hx
    have hchild := (mem_speakers.1 (mem_of_mem_runs hpart hx)).1
    exact ⟨⟨x, hmem, rfl⟩, mem_keepers.2 ⟨x.1, List.mem_zipIdx_iff_getElem?.2 hchild, hkeeps⟩⟩

/-- A filter that keeps holds in the list's own query whenever it does around it. -/
theorem holds_inner_of_keeps (n : Node) (hi : n.speaks .inner = true) (ho : n.speaks .outer = true)
    (hkeeps : n.keeps = true) {v : Path → Bool} (hv : n.holds .outer v = true) : n.holds .inner v = true := by
  induction n using descend generalizing v with
  | leaf p =>
    rw [holds_predicate ho] at hv
    rw [holds_predicate hi]
    exact hv
  | branch number c children ih =>
    rw [holds_group ho, List.any_eq_true] at hv
    obtain ⟨run, hrun, htrue⟩ := hv
    obtain ⟨part, hpart, hin⟩ := keeps_group.1 hkeeps run hrun
    rw [holds_group hi, List.any_eq_true]
    refine ⟨part, hpart, List.all_eq_true.2 fun x hx => ?_⟩
    obtain ⟨hxrun, hxkeeps⟩ := hin x hx
    obtain ⟨hchild, hxi⟩ := mem_speakers.1 (mem_of_mem_runs hpart hx)
    obtain ⟨_, hxo⟩ := mem_speakers.1 (mem_of_mem_runs hrun hxrun)
    exact ih x.1 (List.mem_of_getElem? hchild) hxi hxo hxkeeps (List.all_eq_true.1 htrue x hxrun)

/-- A child in a run can be made true around the list's own query and false in it, unless it keeps; a
child outside the run can be made false. -/
theorem exists_child_truth {m : Node} {inRun : Prop} (ho : inRun → m.speaks .outer = true)
    (hlost : m.speaks .inner = true → m.speaks .outer = true → m.keeps = false →
      ∃ v, m.holds .outer v = true ∧ m.holds .inner v = false) :
    ∃ w, (inRun → m.holds .outer w = true) ∧
      (m.speaks .inner = true → ¬ (inRun ∧ m.keeps = true) → m.holds .inner w = false) := by
  by_cases hrun : inRun
  · by_cases hbad : m.speaks .inner = true ∧ m.keeps = false
    · obtain ⟨w, hwo, hwi⟩ := hlost hbad.1 (ho hrun) hbad.2
      exact ⟨w, fun _ => hwo, fun _ _ => hwi⟩
    · refine ⟨fun _ => true, fun _ => holds_const .outer true m (ho hrun), fun hi hnot => ?_⟩
      have hkeeps : m.keeps = false := Bool.eq_false_iff.2 fun hk => hnot ⟨hrun, hk⟩
      exact absurd ⟨hi, hkeeps⟩ hbad
  · exact ⟨fun _ => false, fun h => absurd h hrun, fun hi _ => holds_const .inner false m hi⟩

/-- Truths for the predicates of a group, given for each of its children. -/
def truthsOf (w : Nat → Path → Bool) : Path → Bool
  | [] => true
  | j :: path => w j path

/-- All children of a run can be made true around the list's own query, and all that do not keep or are outside of
the run false in it. -/
theorem exists_truths {children : List Node} {run : List (Node × Nat)} (hrun : run ∈ runs (speakers .outer 0 children))
    (hlost : ∀ m ∈ children, m.speaks .inner = true → m.speaks .outer = true → m.keeps = false →
      ∃ w, m.holds .outer w = true ∧ m.holds .inner w = false) :
    ∃ w : Nat → Path → Bool, ∀ j m, children[j]? = some m →
      ((m, j) ∈ run → m.holds .outer (w j) = true) ∧
      (m.speaks .inner = true → ¬ ((m, j) ∈ run ∧ m.keeps = true) → m.holds .inner (w j) = false) := by
  have hchildren : ∀ j : Nat, ∃ w : Path → Bool, ∀ m, children[j]? = some m →
      ((m, j) ∈ run → m.holds .outer w = true) ∧
      (m.speaks .inner = true → ¬ ((m, j) ∈ run ∧ m.keeps = true) → m.holds .inner w = false) := by
    intro j
    cases hchild : children[j]? with
    | none => exact ⟨fun _ => true, by simp⟩
    | some m =>
      have hmo : (m, j) ∈ run → m.speaks .outer = true :=
        fun hmem => (mem_speakers.1 (mem_of_mem_runs hrun hmem)).2
      obtain ⟨w, hw⟩ := exists_child_truth hmo (hlost m (List.mem_of_getElem? hchild))
      refine ⟨w, fun n hn => ?_⟩
      cases hn
      exact hw
  exact Classical.axiomOfChoice hchildren

/-- A filter that does not keep has predicates with truths under which a row is lost. -/
theorem exists_lost (n : Node) (hi : n.speaks .inner = true) (ho : n.speaks .outer = true)
    (hkeeps : n.keeps = false) : ∃ v, n.holds .outer v = true ∧ n.holds .inner v = false := by
  induction n using descend with
  | leaf p => cases hkeeps
  | branch number c children ih =>
    have hbad : ∃ run ∈ runs (speakers .outer 0 children), ∀ part ∈ runs (speakers .inner 0 children),
        ∃ x ∈ part, ¬ (x ∈ run ∧ x.1.keeps = true) := by
      have hnot : ¬ (group number c children).keeps = true := by simp [hkeeps]
      rw [keeps_group] at hnot
      simpa only [Classical.not_forall, not_exists, not_and, exists_prop] using hnot
    obtain ⟨run, hrun, hparts⟩ := hbad
    obtain ⟨w, hw⟩ := exists_truths hrun ih
    refine ⟨truthsOf w, ?_, ?_⟩
    · rw [holds_group ho, List.any_eq_true]
      refine ⟨run, hrun, List.all_eq_true.2 fun x hx => ?_⟩
      have hchild := (mem_speakers.1 (mem_of_mem_runs hrun hx)).1
      exact (hw x.2 x.1 hchild).1 hx
    · rw [holds_group hi, List.any_eq_false]
      intro part hpart
      obtain ⟨x, hx, hlost⟩ := hparts part hpart
      obtain ⟨hchild, hxi⟩ := mem_speakers.1 (mem_of_mem_runs hpart hx)
      have hfalse : x.1.holds .inner (w x.2) = false := (hw x.2 x.1 hchild).2 hxi hlost
      intro hall
      have htrue : x.1.holds .inner (w x.2) = true := List.all_eq_true.1 hall x hx
      rw [hfalse] at htrue
      cases htrue

/-! ## The two conditions -/

/-- The truth that a reader gets from the tokens of the filter's condition; no condition is true. -/
def conditionHolds (scope : Scope) (v : Path → Bool) (n : Node) : Bool :=
  (n.tokensAt scope []).all fun ts => (read ts).any fun f => f.eval fun l => v l.path

theorem conditionHolds_eq (scope : Scope) (v : Path → Bool) (n : Node) :
    n.conditionHolds scope v = n.holds scope v := by
  rw [conditionHolds, holds]
  cases hts : n.tokensAt scope [] with
  | none =>
    have hsilent : n.speaks scope = false := by
      rw [← isSome_tokensAt scope [] n, hts]
      rfl
    rw [meaning_eq_none hsilent]
    rfl
  | some ts =>
    obtain ⟨f, hf, heval⟩ := operand_tokensAt scope [] n hts
    have hmeaning : n.meaning scope v = some (f.eval fun l => v l.path) := heval v
    rw [hmeaning, Option.all_some, Condition.read_of_operand hf]
    rfl

/-- Whether the inner and the outer condition together say what the filter says. -/
def splits (n : Node) : Bool := !n.speaks .inner || (n.speaks .outer && n.keeps)

/-- The inner and the outer condition of a filter are spelled by its tokens for the two queries. As these
are read, both together are the meaning of the filter, under every truth of its predicates, if and only if
the filter splits. -/
theorem conditions_iff_splits (n : Node) :
    (∀ scope, n.Legible scope →
      n.condition scope = (n.tokensAt scope []).map (Condition.spell (Leaf.text scope))) ∧
    ((∀ v : Path → Bool, (n.conditionHolds .inner v && n.conditionHolds .outer v) = n.holds .outer v) ↔
      n.splits = true) := by
  refine ⟨fun scope h => n.condition_eq_spell scope [] h, ?_⟩
  simp only [conditionHolds_eq]
  constructor
  · intro h
    cases hi : n.speaks .inner with
    | false => simp [splits, hi]
    | true =>
      have hlost : ∀ v, n.holds .outer v = true → n.holds .inner v = true := by
        intro v hv
        have hboth := h v
        rw [hv, Bool.and_true] at hboth
        exact hboth
      cases ho : n.speaks .outer with
      | false =>
        have hfalse := holds_const .inner false n hi
        rw [hlost _ (holds_of_silent ho _)] at hfalse
        cases hfalse
      | true =>
        cases hkeeps : n.keeps with
        | true => simp [splits, ho, hkeeps]
        | false =>
          obtain ⟨v, hvo, hvi⟩ := exists_lost n hi ho hkeeps
          rw [hlost v hvo] at hvi
          cases hvi
  · intro h v
    cases hi : n.speaks .inner with
    | false =>
      rw [holds_of_silent hi, Bool.true_and]
    | true =>
      rw [splits, hi, Bool.not_true, Bool.false_or, Bool.and_eq_true] at h
      cases hv : n.holds .outer v with
      | false => rw [Bool.and_false]
      | true => rw [holds_inner_of_keeps n hi h.1 h.2 hv, Bool.and_self]

/-! ## Groups joined by `AND` -/

mutual

/-- Whether every group joins its children by `AND`. -/
def conjunctive : Node → Bool
  | predicate _ => true
  | group _ _ children => allConjunctive children

def allConjunctive : List Node → Bool
  | [] => true
  | n :: rest => n.connective == .and && conjunctive n && allConjunctive rest

end

theorem conjunctive_group {number : UInt32} {c : Connective} {children : List Node} :
    (group number c children).conjunctive = true ↔
      ∀ n ∈ children, n.connective = .and ∧ n.conjunctive = true := by
  rw [conjunctive]
  induction children with
  | nil => simp [allConjunctive]
  | cons n rest ih => simp [allConjunctive, ih, and_assoc]

theorem runs_speakers_of_and {scope : Scope} {number : UInt32} {c : Connective} {children : List Node}
    (hand : ∀ n ∈ children, n.connective = .and) (h : (group number c children).speaks scope = true) :
    runs (speakers scope 0 children) = [(speakers scope 0 children).map Prod.snd] := by
  refine runs_of_and ?_ fun part hpart => ?_
  · obtain ⟨hne, _⟩ := holds_of_meanings h fun _ => true
    intro hnil
    rw [meanings_eq_map, hnil] at hne
    exact hne rfl
  · obtain ⟨x, hx, rfl⟩ := List.mem_map.1 hpart
    have hchild := List.mem_zipIdx_iff_getElem?.1 (List.mem_filter.1 hx).1
    exact hand x.1 (List.mem_of_getElem? hchild)

/-- Every predicate that says something in the list's own query says something around it. -/
def Named (n : Node) : Prop := ∀ p ∈ n.predicates, p.contributes .inner = true → p.contributes .outer = true

theorem Named.speaks {n : Node} (h : n.Named) (hi : n.speaks .inner = true) : n.speaks .outer = true := by
  obtain ⟨p, hp, hpi⟩ := List.any_eq_true.1 hi
  exact List.any_eq_true.2 ⟨p, hp, h p hp hpi⟩

theorem Named.child {number : UInt32} {c : Connective} {children : List Node}
    (h : (group number c children).Named) {n : Node} (hn : n ∈ children) : n.Named := by
  intro p hp
  refine h p ?_
  rw [predicates]
  clear h
  induction children with
  | nil => cases hn
  | cons m rest ih =>
    rw [allPredicates, List.mem_append]
    rcases List.mem_cons.1 hn with rfl | hn
    · exact .inl hp
    · exact .inr (ih hn)

theorem keeps_of_conjunctive (n : Node) (hand : n.conjunctive = true) (hnamed : n.Named)
    (hi : n.speaks .inner = true) : n.keeps = true := by
  induction n using descend with
  | leaf p => rfl
  | branch number c children ih =>
    have hchildren := conjunctive_group.1 hand
    have hjoined : ∀ n ∈ children, n.connective = .and := fun n hn => (hchildren n hn).1
    rw [keeps_group]
    intro run hrun
    rw [runs_speakers_of_and hjoined (hnamed.speaks hi), List.mem_singleton] at hrun
    refine ⟨(speakers .inner 0 children).map Prod.snd, ?_, fun x hx => ?_⟩
    · rw [runs_speakers_of_and hjoined hi, List.mem_singleton]
    · obtain ⟨hchild, hxi⟩ := mem_speakers.1 hx
      have hmem : x.1 ∈ children := List.mem_of_getElem? hchild
      constructor
      · rw [hrun]
        exact mem_speakers.2 ⟨hchild, (hnamed.child hmem).speaks hxi⟩
      · exact ih x.1 hmem (hchildren x.1 hmem).2 (hnamed.child hmem) hxi

/-- A filter whose groups join by `AND` splits. -/
theorem splits_of_conjunctive (n : Node) (hand : n.conjunctive = true) (hnamed : n.Named) :
    n.splits = true := by
  cases hi : n.speaks .inner with
  | false => rw [splits, hi, Bool.not_false, Bool.true_or]
  | true => rw [splits, hnamed.speaks hi, keeps_of_conjunctive n hand hnamed hi, Bool.and_self, Bool.or_true]

/-- Countries by the age of their inhabitants and the number of their towns. -/
def countries : Catalog :=
  ((Catalog.ofColumns [⟨"age", "t.age"⟩, ⟨"city_cnt", "count(distinct c.id)"⟩]).apply
    (.customize "city_cnt" { aggregated := true })).1

/-- Adults, joined by a connective to countries of many towns. -/
def adultsWithTowns (c : Connective) : Node :=
  .group 0 .and [
    .predicate ⟨1, .and, "t.age", "age", .greaterThan, some (.int 18), false, ":age_1", none⟩,
    .predicate ⟨2, c, "count(distinct c.id)", "city_cnt", .greaterThan, some (.int 2), true, ":citycnt_2", none⟩]

example : (adultsWithTowns .and).splits = true := by decide

def adult : Json.Members := [("property", .str "age"), ("operator", .str "greater_than"), ("value", .int 18)]

def orManyTowns : Json.Members :=
  [("bool_operator", .str "or"), ("property", .str "city_cnt"), ("operator", .str "greater_than"), ("value", .int 2)]

theorem build_adultsWithTowns :
    Spec.build countries (.arr [.obj adult, .obj orManyTowns]) = .ok (adultsWithTowns .or) := by
  have htowns : ∀ next, Spec.node countries next (.obj orManyTowns) =
      Spec.buildLeaf countries .or orManyTowns next := by
    intro next
    rw [Spec.node_condition countries next rfl]
    rfl
  rw [Spec.build, if_neg (by decide), Spec.node_array, Spec.groupOf]
  simp only [Spec.nodes_cons, htowns]
  cbv

/-- Clients may ask for adults or countries of many towns. Minors in such a country are accepted by the
filter and refused by its inner condition. -/
theorem minor_lost :
    Spec.build countries (.arr [.obj adult, .obj orManyTowns]) = .ok (adultsWithTowns .or) ∧
    (adultsWithTowns .or).aggregated = true ∧
    (adultsWithTowns .or).condition .inner = some "(t.age > :age_1)" ∧
    (adultsWithTowns .or).condition .outer = some "(age > :age_1 OR city_cnt > :citycnt_2)" ∧
    ¬ ∀ v : Path → Bool, ((adultsWithTowns .or).conditionHolds .inner v &&
      (adultsWithTowns .or).conditionHolds .outer v) = (adultsWithTowns .or).holds .outer v := by
  refine ⟨build_adultsWithTowns, rfl, by decide +kernel, by decide +kernel, fun h => ?_⟩
  have hrow := h fun path => path == [1]
  have hinner : (adultsWithTowns .or).conditionHolds .inner (fun path => path == [1]) = false := rfl
  have hfilter : (adultsWithTowns .or).holds .outer (fun path => path == [1]) = true := rfl
  rw [hinner, hfilter, Bool.false_and] at hrow
  cases hrow

end Node
end Listing
