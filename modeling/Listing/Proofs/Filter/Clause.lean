import Listing.Proofs.Filter.Meaning
import Listing.Proofs.Text.Trim
/-!
# The condition of a filter

The text of a filter's condition is the spelling of tokens: each predicate that says something is one
atom, and groups stand in parentheses (`condition_eq_spell`). Connectives are trimmed from texts, which
takes off the first connective and nothing else because every part begins with a character that is not
blank. A reader of the tokens gets the filter's meaning back (`condition_reads`).
-/
namespace Listing

open Condition (Token Operand Segment join joint atoms read)

/-! ## Spelling -/

namespace Condition

variable {α : Type}

def Token.spelled (word : α → String) : Token α → String
  | .atom a => word a
  | .and => " AND "
  | .or => " OR "
  | .opening => "("
  | .closing => ")"

/-- The text of tokens. -/
def spell (word : α → String) : List (Token α) → String
  | [] => ""
  | t :: ts => t.spelled word ++ spell word ts

theorem spell_append (word : α → String) (ts us : List (Token α)) :
    spell word (ts ++ us) = spell word ts ++ spell word us := by
  induction ts with
  | nil => simp [spell]
  | cons t ts ih => simp [spell, ih, String.append_assoc]

theorem spelled_joint (word : α → String) (c : Connective) :
    (joint c).spelled word = " " ++ (c.sql ++ " ") := by
  cases c <;> rfl

theorem spell_joined (word : α → String) (ts : List (Token α)) (c : Connective) (us : List (Token α)) :
    spell word (ts ++ joint c :: us) = spell word ts ++ (" " ++ (c.sql ++ " ") ++ spell word us) := by
  rw [spell_append, spell, spelled_joint]

theorem spell_enclosed (word : α → String) (ts : List (Token α)) :
    spell word (.opening :: ts ++ [.closing]) = "(" ++ (spell word ts ++ ")") := by
  rw [List.cons_append, spell, spell_append]
  simp [Token.spelled, spell]

theorem atoms_joined (ts : List (Token α)) (c : Connective) (us : List (Token α)) :
    atoms (ts ++ joint c :: us) = atoms ts ++ atoms us := by
  rw [atoms_append]
  cases c <;> rfl

theorem atoms_enclosed (ts : List (Token α)) : atoms (.opening :: ts ++ [.closing]) = atoms ts := by
  rw [atoms_append]
  exact List.append_nil _

/-- Parts behind their connectives are the joined parts behind the first connective. -/
theorem intercalate_parts (word : α → String) (c : Connective) (ts : List (Token α))
    (rest : List (Connective × List (Token α))) :
    String.intercalate " " (((c, ts) :: rest).map fun (c, ts) => c.sql ++ " " ++ spell word ts) =
      c.sql ++ " " ++ spell word (join ((c, ts) :: rest)) := by
  induction rest generalizing c ts with
  | nil => simp [join]
  | cons part rest ih =>
    obtain ⟨d, us⟩ := part
    have hnext := ih d us
    simp only [List.map_cons] at hnext ⊢
    rw [String.intercalate_cons_cons, hnext]
    simp only [join, List.flatMap_cons, spell_append, List.cons_append, spell, spelled_joint,
      String.append_assoc]

end Condition

/-! ## Trimming a connective -/

/-- A connective and the blanks behind it are trimmed, whatever follows. -/
theorem trimConnective_behind (c : Connective) (text : String) :
    trimConnective (c.sql ++ " " ++ text) = .ofList (Text.trimFront text.toList) := by
  have hdrop : dropConnective (c.sql ++ " " ++ text).toList = Text.trimFront text.toList := by
    cases c with
    | and =>
      have hfront : (Connective.and.sql ++ " " ++ text).toList = 'A' :: 'N' :: 'D' :: ' ' :: text.toList := by
        simp [Connective.sql]
      rw [hfront, dropConnective, Text.trimFront_of_begins ⟨'A', _, rfl, by decide⟩]
      rfl
    | or =>
      have hfront : (Connective.or.sql ++ " " ++ text).toList = 'O' :: 'R' :: ' ' :: text.toList := by
        simp [Connective.sql]
      rw [hfront, dropConnective, Text.trimFront_of_begins ⟨'O', _, rfl, by decide⟩]
      rfl
  rw [trimConnective, hdrop]

/-- A connective in front of a text that begins is all that is trimmed. -/
theorem trimConnective_sql (c : Connective) {text : String} (h : Text.Begins text.toList) :
    trimConnective (c.sql ++ " " ++ text) = text := by
  rw [trimConnective_behind, Text.trimFront_of_begins h, String.ofList_toList]

/-! ## Comparisons -/

namespace Predicate

/-- The predicate's own renderer, if it has one, writes something for it. -/
def Legible (p : Predicate) (scope : Scope) : Prop :=
  ∀ r, p.renderer = some r → Text.isBlankText (r ⟨p.expression scope, p.operator, p.rendered⟩) = false

/-- The comparison of a predicate that says something begins. -/
theorem begins_comparison {p : Predicate} {scope : Scope} (hp : p.contributes scope = true)
    (h : p.Legible scope) : Text.Begins (p.comparison scope).toList := by
  refine Text.begins_trim ?_
  cases hr : p.renderer with
  | some r => exact h r hr
  | none =>
    have hexpression : Text.isBlankText (p.expression scope) = false := by
      simp only [contributes, Bool.and_eq_true, Bool.not_eq_true'] at hp
      exact hp.1.2
    simp only [Text.isBlankText] at hexpression
    simp [Text.isBlankText, Renderer.plain, hexpression]

/-- Comparing in lower case writes something. -/
theorem legible_of_lower {p : Predicate} (scope : Scope) (h : p.renderer = some Renderer.lower) :
    p.Legible scope := by
  intro r hr
  rw [h, Option.some.injEq] at hr
  rw [← hr, Text.isBlankText, Renderer.lower, String.toList_append, String.toList_append, String.toList_append,
    List.all_append, List.all_append, List.all_append]
  rfl

end Predicate

namespace Node

/-- A predicate as its comparison. -/
def Leaf.text (scope : Scope) (l : Leaf) : String := l.predicate.comparison scope

/-- All predicates that say something in a query can be read there. -/
def Legible (scope : Scope) (n : Node) : Prop :=
  ∀ p ∈ n.predicates, p.contributes scope = true → p.Legible scope

/-! ## Tokens -/

/-- Parts in parentheses, if there are any. -/
def bracket? : List (Connective × List (Token Leaf)) → Option (List (Token Leaf))
  | [] => none
  | parts => some (.opening :: join parts ++ [.closing])

mutual

/-- The tokens of a filter that stands at `path`; `none` if it says nothing in the query. -/
def tokensAt (scope : Scope) (path : Path) : Node → Option (List (Token Leaf))
  | predicate p => if p.contributes scope then some [.atom ⟨path, p⟩] else none
  | group _ _ children => bracket? (partsAt scope path 0 children)

/-- The connective and the tokens of each child that says something, counted from `i` on. -/
def partsAt (scope : Scope) (path : Path) (i : Nat) : List Node → List (Connective × List (Token Leaf))
  | [] => []
  | n :: rest =>
    match tokensAt scope (path ++ [i]) n with
    | some ts => (n.connective, ts) :: partsAt scope path (i + 1) rest
    | none => partsAt scope path (i + 1) rest

end

/-! ## Text and tokens -/

section
variable (scope : Scope)

/-- Groups begin with their parenthesis, predicates with their comparison. -/
theorem begins_of_tokensAt {path : Path} {n : Node} {ts : List (Token Leaf)} (h : n.Legible scope)
    (hts : n.tokensAt scope path = some ts) : Text.Begins (Condition.spell (Leaf.text scope) ts).toList := by
  cases n with
  | predicate p =>
    rw [tokensAt] at hts
    split at hts
    · next hp =>
      cases hts
      rw [Condition.spell, Condition.spell, String.append_empty]
      exact Predicate.begins_comparison hp (h p (by simp [predicates]) hp)
    · cases hts
  | group number c children =>
    rw [tokensAt] at hts
    cases hparts : partsAt scope path 0 children with
    | nil => rw [hparts] at hts; cases hts
    | cons part rest =>
      rw [hparts, bracket?, Option.some.injEq] at hts
      · rw [← hts, List.cons_append, Condition.spell, String.toList_append]
        exact Text.Begins.append ⟨'(', [], by simp [Token.spelled], by decide⟩ _
      · simp

mutual

/-- A filter is compiled to its tokens behind its connective. -/
theorem compile_eq_spell (path : Path) :
    ∀ n : Node, n.Legible scope →
      n.compile scope =
        (n.tokensAt scope path).map fun ts => n.connective.sql ++ " " ++ Condition.spell (Leaf.text scope) ts
  | predicate p, _ => by
    rw [compile, Predicate.compile, tokensAt]
    split
    · simp [connective, Condition.spell, Token.spelled, Leaf.text]
    · rfl
  | group _ c children, h => by
    obtain ⟨hfragments, hbegins⟩ := fragments_eq_spell path 0 children h
    rw [compile, tokensAt, hfragments]
    cases hparts : partsAt scope path 0 children with
    | nil => rfl
    | cons part rest =>
      obtain ⟨d, ts⟩ := part
      have hfirst : Text.Begins (Condition.spell (Leaf.text scope) (join ((d, ts) :: rest))).toList := by
        rw [join, Condition.spell_append, String.toList_append]
        exact (hbegins (d, ts) (by rw [hparts]; exact List.mem_cons_self)).append _
      have hopening : " (" = " " ++ "(" := rfl
      rw [enclose, Condition.intercalate_parts, trimConnective_sql d hfirst, hopening]
      simp only [bracket?, Option.map_some, connective, List.isEmpty_cons, Bool.false_eq_true, if_false,
        List.map_cons, List.cons_append, Condition.spell, Condition.spell_append, Token.spelled,
        String.append_empty, String.append_assoc]

theorem fragments_eq_spell (path : Path) (i : Nat) :
    ∀ ns : List Node, (∀ p ∈ allPredicates ns, p.contributes scope = true → p.Legible scope) →
      fragments scope ns = (partsAt scope path i ns).map (fun (c, ts) =>
        c.sql ++ " " ++ Condition.spell (Leaf.text scope) ts) ∧
      ∀ part ∈ partsAt scope path i ns, Text.Begins (Condition.spell (Leaf.text scope) part.2).toList
  | [], _ => ⟨rfl, fun _ h => by cases h⟩
  | n :: rest, h => by
    have hn : n.Legible scope := fun p hp => h p (List.mem_append_left _ hp)
    obtain ⟨hrest, hbegins⟩ := fragments_eq_spell path (i + 1) rest fun p hp => h p (List.mem_append_right _ hp)
    rw [fragments, compile_eq_spell (path ++ [i]) n hn, partsAt]
    cases hts : n.tokensAt scope (path ++ [i]) with
    | none => exact ⟨hrest, hbegins⟩
    | some ts =>
      refine ⟨congrArg _ hrest, fun part hpart => ?_⟩
      rcases List.mem_cons.1 hpart with rfl | hpart
      · exact begins_of_tokensAt scope hn hts
      · exact hbegins part hpart

end

/-- A filter's condition is spelled by its tokens. -/
theorem condition_eq_spell (n : Node) (path : Path) (h : n.Legible scope) :
    n.condition scope = (n.tokensAt scope path).map (Condition.spell (Leaf.text scope)) := by
  rw [condition, compile_eq_spell scope path n h]
  cases hts : n.tokensAt scope path with
  | none => rfl
  | some ts => exact congrArg some (trimConnective_sql n.connective (begins_of_tokensAt scope h hts))

end

/-! ## Induction on tokens -/

section
variable {P : List (Token Leaf) → Prop}

theorem join_induction (joined : ∀ ts c us, P ts → P us → P (ts ++ joint c :: us))
    {parts : List (Connective × List (Token Leaf))} (hne : parts ≠ []) (h : ∀ part ∈ parts, P part.2) :
    P (join parts) := by
  obtain ⟨⟨c, ts⟩, rest, rfl⟩ := List.exists_cons_of_ne_nil hne
  rw [List.forall_mem_cons] at h
  obtain ⟨hts, hrest⟩ := h
  rw [join]
  induction rest generalizing ts with
  | nil => simpa using hts
  | cons part rest ih =>
    obtain ⟨d, us⟩ := part
    rw [List.forall_mem_cons] at hrest
    have hnext := ih (ts ++ joint d :: us) (by simp) (joined ts d us hts hrest.1) hrest.2
    simpa using hnext

variable (scope : Scope)

mutual

/-- What holds of comparisons alone, and of connected and enclosed tokens if it holds of those, holds of the
tokens of a filter. -/
theorem tokensAt_induction (joined : ∀ ts c us, P ts → P us → P (ts ++ joint c :: us))
    (enclosed : ∀ ts, P ts → P (.opening :: ts ++ [.closing])) (path : Path) {ts : List (Token Leaf)} :
    ∀ n : Node, (∀ path, ∀ p ∈ n.predicates, p.contributes scope = true → P [.atom ⟨path, p⟩]) →
      n.tokensAt scope path = some ts → P ts
  | predicate p, h, hts => by
    rw [tokensAt] at hts
    split at hts
    · next hp =>
      cases hts
      exact h path p (by simp [predicates]) hp
    · cases hts
  | group _ _ children, h, hts => by
    have hparts := partsAt_induction joined enclosed path 0 children h
    rw [tokensAt] at hts
    cases hcases : partsAt scope path 0 children with
    | nil => rw [hcases] at hts; cases hts
    | cons part rest =>
      rw [hcases] at hparts
      rw [hcases, bracket?, Option.some.injEq] at hts
      · rw [← hts]
        exact enclosed _ (join_induction joined (List.cons_ne_nil part rest) hparts)
      · simp

theorem partsAt_induction (joined : ∀ ts c us, P ts → P us → P (ts ++ joint c :: us))
    (enclosed : ∀ ts, P ts → P (.opening :: ts ++ [.closing])) (path : Path) (i : Nat) :
    ∀ ns : List Node, (∀ path, ∀ p ∈ allPredicates ns, p.contributes scope = true → P [.atom ⟨path, p⟩]) →
      ∀ part ∈ partsAt scope path i ns, P part.2
  | [], _ => fun _ hpart => by cases hpart
  | n :: rest, h => by
    have hrest := partsAt_induction joined enclosed path (i + 1) rest fun path p hp =>
      h path p (List.mem_append_right _ hp)
    intro part hpart
    rw [partsAt] at hpart
    split at hpart
    · next ts hts =>
      rcases List.mem_cons.1 hpart with rfl | hpart
      · exact tokensAt_induction joined enclosed (path ++ [i]) n
          (fun path p hp => h path p (List.mem_append_left _ hp)) hts
      · exact hrest part hpart
    · exact hrest part hpart

end

end

/-! ## Tokens and leaves -/

section
variable (scope : Scope)

mutual

/-- Every predicate that says something is one atom of the tokens, and nothing else is. -/
theorem atoms_tokensAt (path : Path) :
    ∀ n : Node, ((n.tokensAt scope path).map atoms).getD [] =
      (n.leavesAt path).filter fun l => l.predicate.contributes scope
  | predicate p => by
    rw [tokensAt, leavesAt]
    cases hp : p.contributes scope <;> simp [hp, atoms]
  | group _ _ children => by
    rw [tokensAt, leavesAt, ← atoms_partsAt path 0 children]
    cases partsAt scope path 0 children with
    | nil => rfl
    | cons part rest =>
      simp only [bracket?, Option.map_some, Option.getD_some]
      rw [Condition.atoms_enclosed, Condition.atoms_join]

theorem atoms_partsAt (path : Path) (i : Nat) :
    ∀ ns : List Node, ((partsAt scope path i ns).flatMap fun (_, ts) => atoms ts) =
      (childLeaves path i ns).filter fun l => l.predicate.contributes scope
  | [] => rfl
  | n :: rest => by
    rw [partsAt, childLeaves, List.filter_append, ← atoms_tokensAt (path ++ [i]) n,
      ← atoms_partsAt path (i + 1) rest]
    cases n.tokensAt scope (path ++ [i]) <;> rfl

end

mutual

theorem isSome_tokensAt (path : Path) : ∀ n : Node, (n.tokensAt scope path).isSome = n.speaks scope
  | predicate p => by
    rw [tokensAt, speaks_predicate]
    cases p.contributes scope <;> rfl
  | group number c children => by
    have h := isEmpty_partsAt path 0 children
    rw [tokensAt, speaks_group]
    cases hparts : partsAt scope path 0 children with
    | nil => simpa [hparts, bracket?] using h
    | cons part rest => simpa [hparts, bracket?] using h

theorem isEmpty_partsAt (path : Path) (i : Nat) :
    ∀ ns : List Node, (partsAt scope path i ns).isEmpty = !ns.any fun n => n.speaks scope
  | [] => rfl
  | n :: rest => by
    rw [partsAt, List.any_cons, ← isSome_tokensAt (path ++ [i]) n]
    cases n.tokensAt scope (path ++ [i]) with
    | some ts => rfl
    | none => exact isEmpty_partsAt path (i + 1) rest

end

end

/-! ## Reading the tokens -/

mutual

/-- Tokens are an operand whose formula is true when the filter is. -/
theorem operand_tokensAt (scope : Scope) (path : Path) {ts : List (Token Leaf)} :
    ∀ n : Node, n.tokensAt scope path = some ts →
      ∃ f, Operand ts f ∧ ∀ v : Path → Bool,
        n.meaning scope (fun below => v (path ++ below)) = some (f.eval fun l => v l.path)
  | predicate p, h => by
    rw [tokensAt] at h
    split at h
    · next hp =>
      cases h
      refine ⟨.atom ⟨path, p⟩, Condition.operand_atom _, fun v => ?_⟩
      rw [meaning, if_pos hp, List.append_nil]
      rfl
    · cases h
  | group _ _ children, h => by
    obtain ⟨parts, hwritten, hoperand, hmeaning⟩ := operand_partsAt scope path 0 children
    rw [tokensAt, ← hwritten] at h
    cases parts with
    | nil => cases h
    | cons part rest =>
      rw [List.map_cons, bracket?, Option.some.injEq, ← List.map_cons] at h
      · obtain ⟨f, hf, heval⟩ := Condition.operand_join hoperand (List.cons_ne_nil part rest)
        refine ⟨f, h ▸ hf, fun v => ?_⟩
        rw [meaning, hmeaning v, List.map_cons, heval, List.map_cons]
      · simp

theorem operand_partsAt (scope : Scope) (path : Path) (i : Nat) :
    ∀ ns : List Node, ∃ parts : List (Segment Leaf), parts.map Segment.written = partsAt scope path i ns ∧
      (∀ part ∈ parts, Operand part.tokens part.formula) ∧ ∀ v : Path → Bool,
        meanings scope (fun below => v (path ++ below)) i ns = parts.map (Segment.holds fun l => v l.path)
  | [] => ⟨[], rfl, by simp, fun _ => rfl⟩
  | n :: rest => by
    obtain ⟨parts, hwritten, hoperand, hmeaning⟩ := operand_partsAt scope path (i + 1) rest
    have hbelow : ∀ (v : Path → Bool) (below : Path), v (path ++ i :: below) = v (path ++ [i] ++ below) := by
      intro v below
      rw [List.append_assoc, List.singleton_append]
    rw [partsAt]
    cases hts : n.tokensAt scope (path ++ [i]) with
    | none =>
      have hsilent : n.speaks scope = false := by
        rw [← isSome_tokensAt scope (path ++ [i]) n, hts]
        rfl
      refine ⟨parts, hwritten, hoperand, fun v => ?_⟩
      rw [meanings, meaning_eq_none hsilent]
      exact hmeaning v
    | some ts =>
      obtain ⟨f, hf, heval⟩ := operand_tokensAt scope (path ++ [i]) n hts
      refine ⟨⟨n.connective, ts, f⟩ :: parts, by rw [List.map_cons, hwritten]; rfl, ?_, fun v => ?_⟩
      · intro part hpart
        rcases List.mem_cons.1 hpart with rfl | hpart
        · exact hf
        · exact hoperand part hpart
      · have hn : n.meaning scope (fun below => v (path ++ i :: below)) = some (f.eval fun l => v l.path) := by
          rw [← heval v]
          exact congrArg (fun u => n.meaning scope u) (funext (hbelow v))
        rw [meanings, hn, hmeaning v]
        rfl

end

/-- A filter has a condition if some predicate says something. The condition is then spelled by tokens
whose atoms are those predicates, each once and in order, and a reader of the tokens gets a formula that
is true when the filter is. -/
theorem condition_reads (scope : Scope) (n : Node) (h : n.Legible scope) :
    (n.condition scope = none ↔ n.contributing scope = []) ∧
    ∀ text, n.condition scope = some text → ∃ ts f,
      text = Condition.spell (Leaf.text scope) ts ∧ atoms ts = n.contributing scope ∧
      ((atoms ts).map Leaf.path).Nodup ∧ read ts = some f ∧
      ∀ v : Path → Bool, n.meaning scope v = some (f.eval fun l => v l.path) := by
  rw [condition_eq_spell scope n [] h]
  constructor
  · rw [contributing_eq_nil, ← isSome_tokensAt scope [] n]
    cases n.tokensAt scope [] <;> simp
  · intro text htext
    obtain ⟨ts, hts, rfl⟩ := Option.map_eq_some_iff.1 htext
    obtain ⟨f, hf, heval⟩ := operand_tokensAt scope [] n hts
    have hatoms : atoms ts = n.contributing scope := by
      rw [contributing, ← atoms_tokensAt scope [] n, hts]
      rfl
    refine ⟨ts, f, rfl, hatoms, ?_, Condition.read_of_operand hf, heval⟩
    rw [hatoms]
    exact (n.nodup_leavesAt []).sublist (List.filter_sublist.map Leaf.path)

/-- Adults, or those of a name who live in a country of many towns. -/
def adultsOrNamed : Node :=
  .group 0 .and [
    .predicate ⟨1, .or, "t.age", "age", .greaterThan, some (.int 17), false, ":age_1", none⟩,
    .group 2 .or [
      .predicate ⟨3, .or, "t.name", "name", .contains, some (.str "an"), false, ":name_3", some Renderer.lower⟩,
      .predicate ⟨4, .and, "count(*)", "towns", .greaterThan, some (.int 2), true, ":towns_4", none⟩]]

theorem condition_reads_adultsOrNamed :
    adultsOrNamed.Legible .inner ∧
    ∃ ts f, "(t.age > :age_1 OR (lower(t.name) LIKE :name_3))" = Condition.spell (Leaf.text .inner) ts ∧
      read ts = some f ∧
      ∀ v : Path → Bool, adultsOrNamed.meaning .inner v = some (f.eval fun l => v l.path) := by
  have hlegible : adultsOrNamed.Legible .inner := by
    intro p hp _
    simp only [adultsOrNamed, predicates, allPredicates, List.append_nil, List.cons_append, List.nil_append,
      List.mem_cons, List.not_mem_nil, or_false] at hp
    rcases hp with rfl | rfl | rfl
    · intro r hr
      cases hr
    · exact Predicate.legible_of_lower .inner rfl
    · intro r hr
      cases hr
  have htext : adultsOrNamed.condition .inner = some "(t.age > :age_1 OR (lower(t.name) LIKE :name_3))" := by
    decide +kernel
  obtain ⟨ts, f, hspell, _, _, hread, hmeaning⟩ := (condition_reads .inner adultsOrNamed hlegible).2 _ htext
  exact ⟨hlegible, ts, f, hspell, hread, hmeaning⟩

end Node
end Listing
