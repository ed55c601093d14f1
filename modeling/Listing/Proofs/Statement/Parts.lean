import Mathlib.Data.List.Forall2
import Listing.Proofs.Filter.Placeholders
import Listing.Statement.Basic
/-!
# Texts in parts

A text around comparisons is a row of parts: what is copied, and the comparisons of a filter's leaves. Bound,
each leaf has placeholders for its own values, counted on from those of the leaves in front (`Part.bound`).
`Shows` says of a text with names that binding makes that of it and takes the values leaf by leaf; it passes
on to texts that are put together (`Shows.append`), lists of conditions (`shows_whereSql`) and the condition
of a filter (`shows_condition`).
-/
open Listing.Bound (Inert Fills Breaks)

namespace Listing

open Condition (Token joint spell)
open Node (Leaf)

/-- A part of a statement's text: what is copied, or the comparison of a leaf. -/
inductive Part where
  | text (cs : List Char)
  | leaf (scope : Scope) (l : Leaf)

namespace Part

/-- The text of parts, parameters by name. -/
def named : List Part → List Char
  | [] => []
  | text cs :: parts => cs ++ named parts
  | leaf scope l :: parts => (l.predicate.comparison scope).toList ++ named parts

/-- The leaves among parts, with the query that they stand in. -/
def leaves : List Part → List (Scope × Leaf)
  | [] => []
  | text _ :: parts => leaves parts
  | leaf scope l :: parts => (scope, l) :: leaves parts

/-- The values of leaves, in order. -/
def values (ls : List (Scope × Leaf)) : List Value := ls.flatMap fun (_, l) => l.predicate.values

/-- The text of parts behind `before` values, with placeholders for the values of each leaf where it stands. -/
def bound (q : Platform) (before : Nat) : List Part → List Char
  | [] => []
  | text cs :: parts => cs ++ bound q before parts
  | leaf scope l :: parts =>
    (l.predicate.comparisonAt q before scope).toList ++ bound q (before + l.predicate.values.length) parts

theorem named_append (parts parts' : List Part) : named (parts ++ parts') = named parts ++ named parts' := by
  induction parts with
  | nil => rfl
  | cons part parts ih => cases part <;> simp [named, ih]

theorem leaves_append (parts parts' : List Part) : leaves (parts ++ parts') = leaves parts ++ leaves parts' := by
  induction parts with
  | nil => rfl
  | cons part parts ih => cases part <;> simp [leaves, ih]

theorem values_append (ls ms : List (Scope × Leaf)) : values (ls ++ ms) = values ls ++ values ms :=
  List.flatMap_append

/-- What stands behind parts is counted on from their values. -/
theorem bound_append (q : Platform) (before : Nat) (parts parts' : List Part) :
    bound q before (parts ++ parts') =
      bound q before parts ++ bound q (before + (values (leaves parts)).length) parts' := by
  induction parts generalizing before with
  | nil => rfl
  | cons part parts ih =>
    cases part with
    | text cs => simp [bound, leaves, ih]
    | leaf scope l => simp [bound, leaves, values, ih, Nat.add_assoc]

/-- Every value is one of a leaf, behind those of the parts in front. -/
theorem exists_leaf {parts : List Part} {i : Nat} {v : Value} (h : (values (leaves parts))[i]? = some v) :
    ∃ front scope l back k, parts = front ++ leaf scope l :: back ∧ i = (values (leaves front)).length + k ∧
      l.predicate.values[k]? = some v := by
  induction parts generalizing i with
  | nil => cases h
  | cons part parts ih =>
    cases part with
    | text cs =>
      obtain ⟨front, scope, l, back, k, rfl, hi, hv⟩ := ih h
      exact ⟨text cs :: front, scope, l, back, k, rfl, hi, hv⟩
    | leaf scope l =>
      have hsplit : values (leaves (leaf scope l :: parts)) = l.predicate.values ++ values (leaves parts) := rfl
      rw [hsplit] at h
      by_cases hi : i < l.predicate.values.length
      · rw [List.getElem?_append_left hi] at h
        exact ⟨[], scope, l, parts, i, rfl, by simp [leaves, values], h⟩
      · rw [List.getElem?_append_right (Nat.le_of_not_lt hi)] at h
        obtain ⟨front, scope', l', back, k, rfl, hrest, hv⟩ := ih h
        refine ⟨leaf scope l :: front, scope', l', back, k, rfl, ?_, hv⟩
        have hfront : values (leaves (leaf scope l :: front)) = l.predicate.values ++ values (leaves front) := rfl
        rw [hfront, List.length_append]
        omega

end Part

/-! ## Texts that show leaves -/

/-- A bound statement is a text with names in parts: what is no leaf's comparison is copied, each leaf has
placeholders for its own values, the values are those of the leaves in order, and no name is left. -/
structure Bound.Places (b : Bound) (q : Platform) (sql : String) (ls : List (Scope × Leaf)) : Prop where
  parts : ∃ parts, sql = .ofList (Part.named parts) ∧ Part.leaves parts = ls ∧ b.sql = .ofList (Part.bound q 0 parts)
  params : b.params = Part.values ls
  /-- The value at a position belongs to a leaf, and the placeholder of that position stands in the comparison of
  that leaf: `before` placeholders come before the comparison's own. -/
  owner : ∀ i v, b.params[i]? = some v → ∃ front scope l back before k, (scope, l) ∈ ls ∧ i = before + k ∧
    l.predicate.values[k]? = some v ∧ b.sql = front ++ l.predicate.comparisonAt q before scope ++ back
  unnamed : ∀ name, .name name ∉ Bound.pieces .plain b.sql.toList

/-- Binding turns a text into parts around some leaves, and takes the leaves' values for it. -/
def Shows (q : Platform) (bag : Bag) (s : String) (ls : List (Scope × Leaf)) : Prop :=
  ∃ parts, Part.named parts = s.toList ∧ Part.leaves parts = ls ∧
    Fills q bag s.toList (fun before => Part.bound q before parts) (Part.values ls) ∧
    ∀ before, Inert (Part.bound q before parts)

variable {q : Platform} {bag : Bag}

theorem shows_inert {s : String} (h : Inert s.toList) : Shows q bag s [] := by
  refine ⟨[.text s.toList], by simp [Part.named], rfl, ?_, fun before => by simpa [Part.bound] using h⟩
  have hfills : Fills q bag s.toList (fun _ => s.toList) [] := Bound.fills_inert h
  simpa [Part.bound, Part.values] using hfills

theorem shows_leaf {l : Leaf} {scope : Scope} (h : l.predicate.Placeable bag scope) :
    Shows q bag (l.text scope) [(scope, l)] := by
  refine ⟨[.leaf scope l], by simp [Part.named, Leaf.text], rfl, ?_, fun before => ?_⟩
  · simpa [Part.bound, Part.values, Leaf.text] using Predicate.fills_comparison h
  · simpa [Part.bound] using Predicate.inert_comparisonAt h before

/-- Text with leaves goes on with text that ends a name. -/
theorem Shows.append {s t : String} {ls ms : List (Scope × Leaf)} (hs : Shows q bag s ls) (ht : Shows q bag t ms)
    (hbreaks : Breaks t.toList) : Shows q bag (s ++ t) (ls ++ ms) := by
  obtain ⟨parts, hnamed, rfl, hfills, hinert⟩ := hs
  obtain ⟨parts', hnamed', rfl, hfills', hinert'⟩ := ht
  refine ⟨parts ++ parts', ?_, Part.leaves_append parts parts', ?_, fun before => ?_⟩
  · rw [Part.named_append, hnamed, hnamed', String.toList_append]
  · simp only [Part.bound_append, Part.values_append, String.toList_append]
    exact hfills.append hfills' hbreaks
  · rw [Part.bound_append]
    exact (hinert _).append (hinert' _)

/-- Copied text can stand in front of every text. -/
theorem Shows.inert_append {s t : String} {ls : List (Scope × Leaf)} (hs : Inert s.toList) (ht : Shows q bag t ls) :
    Shows q bag (s ++ t) ls := by
  obtain ⟨parts, hnamed, rfl, hfills, hinert⟩ := ht
  refine ⟨.text s.toList :: parts, ?_, rfl, ?_, fun before => hs.append (hinert before)⟩
  · rw [Part.named, hnamed, String.toList_append]
  · rw [String.toList_append]
    exact hfills.inert_append hs

theorem Shows.append_inert {s t : String} {ls : List (Scope × Leaf)} (hs : Shows q bag s ls) (ht : Inert t.toList)
    (hbreaks : Breaks t.toList) : Shows q bag (s ++ t) ls := by
  have happend := hs.append (shows_inert ht) hbreaks
  rwa [List.append_nil] at happend

/-- Texts show their leaves one after another, if what separates them ends a name. -/
theorem shows_intercalate {separator : String} (hseparator : Inert separator.toList)
    (hbreaks : ∀ rest, Breaks (separator.toList ++ rest)) {texts : List String} {lss : List (List (Scope × Leaf))}
    (h : List.Forall₂ (Shows q bag) texts lss) : Shows q bag (String.intercalate separator texts) lss.flatten := by
  induction h with
  | nil => exact shows_inert .nil
  | @cons s ls texts lss hs htexts ih =>
    cases htexts with
    | nil => simpa using hs
    | cons =>
      rw [String.intercalate_cons_cons, String.append_assoc, List.flatten_cons]
      refine hs.append (ih.inert_append hseparator) ?_
      rw [String.toList_append]
      exact hbreaks _

/-- What shows leaves is bound with their values in their places. -/
theorem Shows.places_bind {s : String} {ls : List (Scope × Leaf)} (h : Shows q bag s ls) :
    (q.bind s bag).Places q s ls := by
  obtain ⟨parts, hnamed, rfl, hfills, hinert⟩ := h
  have hbind : q.bind s bag = ⟨.ofList (Part.bound q 0 parts), Part.values (Part.leaves parts)⟩ := by
    rw [Platform.bind, hfills.fill_eq]
  rw [hbind]
  refine ⟨⟨parts, by rw [hnamed, String.ofList_toList], rfl, rfl⟩, rfl, fun i v hv => ?_, fun name => ?_⟩
  · obtain ⟨front, scope, l, back, k, rfl, hi, hv⟩ := Part.exists_leaf hv
    refine ⟨.ofList (Part.bound q 0 front), scope, l,
      .ofList (Part.bound q ((Part.values (Part.leaves front)).length + l.predicate.values.length) back), _, k, ?_, hi,
      hv, ?_⟩
    · simp [Part.leaves_append, Part.leaves]
    · rw [Part.bound_append, Part.bound, Nat.zero_add, String.ofList_append, String.ofList_append,
        String.ofList_toList, String.append_assoc]
  · rw [String.toList_ofList]
    exact Bound.not_mem_pieces_of_inert (hinert 0) name

/-! ## Conditions -/

theorem shows_whereSql {conditions : List String} {lss : List (List (Scope × Leaf))}
    (h : List.Forall₂ (Shows q bag) conditions lss) : Shows q bag (Statement.whereSql conditions) lss.flatten := by
  have hwhere : Inert " WHERE ".toList := Bound.inert_of_all (by decide)
  have hand : Inert " AND ".toList := Bound.inert_of_all (by decide)
  have hopening : Inert "(".toList := Bound.inert_of_all (by decide)
  have hclosing : Inert ")".toList := Bound.inert_of_all (by decide)
  have hparentheses : List.Forall₂ (Shows q bag) (conditions.map fun c => "(" ++ c ++ ")") lss := by
    rw [List.forall₂_map_left_iff]
    refine h.imp fun c ls hc => ?_
    exact (hc.inert_append hopening).append_inert hclosing (Bound.breaks_cons rfl _)
  have hall := (shows_intercalate hand (fun rest => Bound.breaks_cons rfl _) hparentheses).inert_append hwhere
  cases h with
  | nil => exact shows_inert .nil
  | cons hc hrest =>
    cases hrest with
    | nil => simpa [Statement.whereSql] using hc.inert_append hwhere
    | cons => exact hall

namespace Node

variable {scope : Scope}

theorem shows_joined (ts : List (Token Leaf)) (c : Connective) (us : List (Token Leaf))
    (hts : Shows q bag (spell (Leaf.text scope) ts) ((Condition.atoms ts).map (scope, ·)))
    (hus : Shows q bag (spell (Leaf.text scope) us) ((Condition.atoms us).map (scope, ·))) :
    Shows q bag (spell (Leaf.text scope) (ts ++ joint c :: us))
      ((Condition.atoms (ts ++ joint c :: us)).map (scope, ·)) := by
  have hconnective : Inert (" " ++ (c.sql ++ " ")).toList :=
    .plain (List.all_eq_true.mp (by cases c <;> decide))
  have hbreaks : Breaks (" " ++ (c.sql ++ " ") ++ spell (Leaf.text scope) us).toList := by
    rw [String.toList_append, String.toList_append]
    exact Bound.breaks_cons rfl _
  rw [Condition.spell_joined, Condition.atoms_joined, List.map_append]
  exact hts.append (hus.inert_append hconnective) hbreaks

theorem shows_enclosed (ts : List (Token Leaf))
    (hts : Shows q bag (spell (Leaf.text scope) ts) ((Condition.atoms ts).map (scope, ·))) :
    Shows q bag (spell (Leaf.text scope) (.opening :: ts ++ [.closing]))
      ((Condition.atoms (.opening :: ts ++ [.closing])).map (scope, ·)) := by
  have hopening : Inert "(".toList := Bound.inert_of_all (by decide)
  have hclosing : Inert ")".toList := Bound.inert_of_all (by decide)
  rw [Condition.spell_enclosed, Condition.atoms_enclosed]
  exact (hts.append_inert hclosing (Bound.breaks_cons rfl _)).inert_append hopening

/-- The condition of a filter shows the leaves that say something. -/
theorem shows_condition {n : Node} (h : ∀ p ∈ n.predicates, p.contributes scope = true → p.Placeable bag scope)
    {text : String} (htext : n.condition scope = some text) :
    Shows q bag text ((n.contributing scope).map (scope, ·)) := by
  have hlegible : n.Legible scope := fun p hp hspeaks => (h p hp hspeaks).renderer.legible scope
  rw [condition_eq_spell scope n [] hlegible] at htext
  obtain ⟨ts, hts, rfl⟩ := Option.map_eq_some_iff.mp htext
  have hatoms : Condition.atoms ts = n.contributing scope := by
    rw [contributing, ← atoms_tokensAt scope [] n, hts]
    rfl
  rw [← hatoms]
  refine tokensAt_induction scope shows_joined shows_enclosed [] n (fun path p hp hspeaks => ?_) hts
  rw [spell, spell, String.append_empty]
  exact shows_leaf (h p hp hspeaks)

end Node
end Listing
