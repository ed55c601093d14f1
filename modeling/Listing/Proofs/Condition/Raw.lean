import Listing.Proofs.Condition.Lexemes
import Listing.Proofs.Condition.Reader
import Listing.Statement.Basic
import Mathlib.Data.List.Forall2
/-!
# Reading raw conditions

`read` gives the formula of a balanced text: operands are joined by `AND` and `OR` with the usual
precedence, an operand that is a text in parentheses is read itself, and any other is an atom. The `AND`
of a range and whatever stands between `CASE` and `END` belong to their operand. Conditions of a
statement are read as all of them at once, whatever stands in them (`read_whereSql`).
-/
namespace Listing.Raw

/-! ## The reader -/

open Condition (Formula Frame)

/-- The operand that is being read. -/
structure Operand where
  text : List Char := []
  /-- The formula of the text in parentheses that the operand consists of so far. -/
  group : Option (Formula (List Char)) := none
  /-- Whether the next `AND` belongs to a range. -/
  range : Bool := false
  /-- How many times `CASE` waits for its `END`. -/
  cases : Nat := 0

/-- What has been read since a parenthesis was opened. -/
structure Level where
  frame : Frame (List Char) := .empty
  operand : Operand := {}
  text : List Char := []

/-- The keyword in small letters, read in any letter case. -/
def isKeyword (keyword : String) (cs : List Char) : Bool := cs.map Char.toLower == keyword.toList

namespace Operand

def formula (o : Operand) : Formula (List Char) := o.group.getD (.atom (Text.trimChars o.text))

/-- The operand with a character that is no letter; a group stays one behind blanks. -/
def mark (o : Operand) (c : Char) : Operand :=
  { o with text := o.text ++ [c], group := if Text.isBlank c then o.group else none }

/-- The operand with a text in parentheses, of which it consists if nothing stands in front. -/
def enclose (o : Operand) (inner : List Char) (f : Formula (List Char)) : Operand :=
  { o with
    text := o.text ++ '(' :: inner ++ [')']
    group := if o.text.all Text.isBlank then some f else none }

/-- The operand with a word that joins no operands. -/
def word (o : Operand) (cs : List Char) : Operand :=
  { text := o.text ++ cs
    group := none
    range := if o.cases = 0 && isKeyword "between" cs then true else o.range && !isKeyword "and" cs
    cases := if isKeyword "case" cs then o.cases + 1 else if isKeyword "end" cs then o.cases - 1 else o.cases }

end Operand

namespace Level

def close (l : Level) : Formula (List Char) := l.frame.close l.operand.formula

/-- The level behind a word, which may be a connective. -/
def word (l : Level) (cs : List Char) : Level :=
  if isKeyword "and" cs && l.operand.cases = 0 && !l.operand.range then
    { frame := { l.frame with term := some (l.frame.conjoin l.operand.formula) }, text := l.text ++ cs }
  else if isKeyword "or" cs && l.operand.cases = 0 then
    { frame := ⟨some l.close, none⟩, text := l.text ++ cs }
  else { l with operand := l.operand.word cs, text := l.text ++ cs }

def mark (l : Level) (c : Char) : Level := { l with operand := l.operand.mark c, text := l.text ++ [c] }

/-- The level behind a text in parentheses. -/
def enclose (l : Level) (inner : Level) : Level :=
  { l with operand := l.operand.enclose inner.text inner.close, text := l.text ++ '(' :: inner.text ++ [')'] }

end Level

/-- The levels behind a lexeme, the innermost first. -/
def next : List Level → Lexeme → Option (List Level)
  | l :: outer, .word cs => some (l.word cs :: outer)
  | l :: outer, .mark c => some (l.mark c :: outer)
  | l :: outer, .inner c => some (l.mark c :: outer)
  | l :: outer, .opening => some ({} :: l :: outer)
  | l :: up :: outer, .closing => some (up.enclose l :: outer)
  | _, _ => none

def run (ls : List Level) (lexemes : List Lexeme) : Option (List Level) := lexemes.foldlM next ls

/-- The formula of a text on a platform; `none` if the text is not balanced. -/
def read (p : Platform) (cs : List Char) : Option (Formula (List Char)) :=
  match (cut p .plain cs).bind (run [{}]) with
  | some [l] => some l.close
  | _ => none

theorem run_append (ls : List Level) (xs ys : List Lexeme) :
    run ls (xs ++ ys) = (run ls xs).bind fun ls' => run ls' ys := List.foldlM_append

theorem run_cons (ls : List Level) (x : Lexeme) (xs : List Lexeme) :
    run ls (x :: xs) = (next ls x).bind fun ls' => run ls' xs := List.foldlM_cons

/-- The reader has one level more than parentheses are open. -/
theorem length_run (xs : List Lexeme) (n : Nat) {ls : List Level} (h : ls.length = n + 1) :
    (run ls xs).map List.length = (depth n xs).map (· + 1) := by
  induction xs generalizing n ls with
  | nil =>
    show some ls.length = some (n + 1)
    rw [h]
  | cons x xs ih =>
    match ls, h with
    | l :: outer, h =>
      cases x with
      | word | mark | inner => exact ih n h
      | opening => exact ih (n + 1) (congrArg (· + 1) h)
      | closing =>
        cases n with
        | zero =>
          obtain rfl : outer = [] := List.length_eq_zero_iff.mp (Nat.succ.inj h)
          rfl
        | succ n =>
          match outer, h with
          | up :: outer, h => exact ih n (Nat.succ.inj h)

/-- The reader leaves the levels below those it has to do with. -/
theorem run_append_levels {ls ls' : List Level} {xs : List Lexeme} (h : run ls xs = some ls') (outer : List Level) :
    run (ls ++ outer) xs = some (ls' ++ outer) := by
  induction xs generalizing ls with
  | nil =>
    cases h
    rfl
  | cons x xs ih =>
    rw [run_cons] at h ⊢
    obtain ⟨ls₁, hnext, hrun⟩ := Option.bind_eq_some_iff.mp h
    have hsame : next (ls ++ outer) x = some (ls₁ ++ outer) := by
      match ls, x, hnext with
      | l :: ls, .word cs, hnext => cases hnext; rfl
      | l :: ls, .mark c, hnext => cases hnext; rfl
      | l :: ls, .inner c, hnext => cases hnext; rfl
      | l :: ls, .opening, hnext => cases hnext; rfl
      | l :: up :: ls, .closing, hnext => cases hnext; rfl
    rw [hsame]
    exact ih hrun

section
variable {p : Platform}

theorem read_eq_some {cs : List Char} {f : Formula (List Char)} :
    read p cs = some f ↔ ∃ xs l, cut p .plain cs = some xs ∧ run [{}] xs = some [l] ∧ l.close = f := by
  unfold read
  cases hcut : cut p .plain cs with
  | none => simp
  | some xs =>
    rw [Option.bind_some]
    constructor
    · intro h
      split at h
      · next l hrun =>
        cases h
        exact ⟨xs, l, rfl, hrun, rfl⟩
      · cases h
    · rintro ⟨xs', l, hxs, hrun, rfl⟩
      cases hxs
      rw [hrun]

/-- Exactly the balanced texts have a formula. -/
theorem exists_read_iff {cs : List Char} : (∃ f, read p cs = some f) ↔ Balanced p cs := by
  have hlength : ∀ xs, (run [{}] xs).map List.length = (depth 0 xs).map (· + 1) := fun xs => length_run xs 0 rfl
  constructor
  · rintro ⟨f, hf⟩
    obtain ⟨xs, l, hcut, hrun, -⟩ := read_eq_some.mp hf
    have hdepth := hlength xs
    rw [hrun] at hdepth
    obtain ⟨n, hn, hone⟩ := Option.map_eq_some_iff.mp hdepth.symm
    obtain rfl : n = 0 := Nat.succ.inj hone
    exact ⟨xs, hcut, hn⟩
  · rintro ⟨xs, hcut, hn⟩
    have hdepth := hlength xs
    rw [hn] at hdepth
    obtain ⟨ls, hrun, hone⟩ := Option.map_eq_some_iff.mp hdepth
    obtain ⟨l, rfl⟩ := List.length_eq_one_iff.mp hone
    exact ⟨l.close, read_eq_some.mpr ⟨xs, l, hcut, hrun, rfl⟩⟩

/-! ## Conditions joined by `AND` -/

/-- All formulas at once, the first one with the others. -/
def conjunction (f : Formula (List Char)) (fs : List (Formula (List Char))) : Formula (List Char) :=
  fs.foldl .and f

theorem eval_conjunction (v : List Char → Bool) (f : Formula (List Char)) (fs : List (Formula (List Char))) :
    (conjunction f fs).eval v = (f :: fs).all (·.eval v) := by
  induction fs generalizing f with
  | nil => simp [conjunction]
  | cons g fs ih =>
    have hnext := ih (.and f g)
    rw [conjunction, List.foldl_cons]
    rw [conjunction] at hnext
    rw [hnext]
    simp [Formula.eval, Bool.and_assoc]

/-- A level behind a text in parentheses, where only `AND` has joined operands. -/
structure Behind (l : Level) (f : Formula (List Char)) : Prop where
  before : l.frame.before = none
  group : l.operand.group ≠ none
  range : l.operand.range = false
  cases : l.operand.cases = 0
  close : l.close = f

/-- In a level where an operand is awaited, a text in parentheses is that operand. -/
theorem behind_enclose {l inner : Level} (hbefore : l.frame.before = none)
    (hblank : l.operand.text.all Text.isBlank = true) (hrange : l.operand.range = false)
    (hcases : l.operand.cases = 0) : Behind (l.enclose inner) (l.frame.conjoin inner.close) where
  before := hbefore
  group := by simp [Level.enclose, Operand.enclose, hblank]
  range := hrange
  cases := hcases
  close := by simp [Level.close, Level.enclose, Operand.enclose, Operand.formula, hblank, Frame.close, hbefore]

theorem run_parentheses {cs : List Char} {f : Formula (List Char)} (h : read p cs = some f) :
    ∃ xs inner, cut p .plain ('(' :: cs ++ [')']) = some xs ∧ inner.close = f ∧
      ∀ l outer, run (l :: outer) xs = some (l.enclose inner :: outer) := by
  obtain ⟨xs, inner, hcut, hrun, hclose⟩ := read_eq_some.mp h
  refine ⟨_, inner, cut_parentheses hcut, hclose, fun l outer => ?_⟩
  have hinner : run ({} :: l :: outer) xs = some (inner :: l :: outer) := run_append_levels hrun (l :: outer)
  rw [List.cons_append, run_cons]
  show run ({} :: l :: outer) (xs ++ [.closing]) = _
  rw [run_append, hinner]
  rfl

/-- Behind `AND` another text in parentheses is one more operand. -/
theorem behind_and {l : Level} {g f : Formula (List Char)} {cs : List Char} (hl : Behind l g)
    (h : read p cs = some f) :
    ∃ xs l', cut p .plain (' ' :: 'A' :: 'N' :: 'D' :: ' ' :: '(' :: cs ++ [')']) = some xs ∧
      run [l] xs = some [l'] ∧ Behind l' (.and g f) := by
  obtain ⟨xs, inner, hcut, hclose, hrun⟩ := run_parentheses h
  have hand : cut p .plain [' ', 'A', 'N', 'D', ' '] = some [.mark ' ', .word ['A', 'N', 'D'], .mark ' '] := by
    cases p <;> rfl
  have hblank : Text.isBlank ' ' = true := rfl
  have hjoined : cut p .plain ([' ', 'A', 'N', 'D', ' '] ++ ('(' :: cs ++ [')'])) = _ :=
    cut_append hand hcut (breaks_opening _)
  -- the operand in front of `AND` is complete, and a new one is awaited
  have hlevel : (l.mark ' ').word ['A', 'N', 'D'] =
      { frame := ⟨none, some g⟩, text := l.text ++ [' '] ++ ['A', 'N', 'D'] } := by
    have hconjoin : l.frame.conjoin (l.operand.mark ' ').formula = g := by
      obtain ⟨f', hf'⟩ := Option.ne_none_iff_exists'.mp hl.group
      have hsame : (l.operand.mark ' ').formula = l.operand.formula := by
        simp [Operand.formula, Operand.mark, hblank, hf']
      rw [hsame, ← hl.close, Level.close, Frame.close, hl.before]
    have hkeyword : isKeyword "and" ['A', 'N', 'D'] = true := by decide
    have hrange : (l.operand.mark ' ').range = false := hl.range
    have hcases : (l.operand.mark ' ').cases = 0 := hl.cases
    simp [Level.word, Level.mark, hkeyword, hconjoin, hrange, hcases, hl.before]
  refine ⟨_, (((l.mark ' ').word ['A', 'N', 'D']).mark ' ').enclose inner, hjoined, ?_, ?_⟩
  · exact hrun _ []
  · rw [hlevel, ← hclose]
    exact behind_enclose rfl (by simp [Level.mark, Operand.mark, hblank]) rfl rfl

/-- Conditions in parentheses, each behind an `AND`. -/
def others (conditions : List String) : List Char :=
  conditions.flatMap fun c => ' ' :: 'A' :: 'N' :: 'D' :: ' ' :: '(' :: c.toList ++ [')']

theorem breaks_others (conditions : List String) : Breaks p (others conditions) := by
  cases conditions with
  | nil => simp [others, Breaks]
  | cons c rest => exact breaks_space _

theorem behind_others {l : Level} {g : Formula (List Char)} (hl : Behind l g) {conditions : List String}
    {fs : List (Formula (List Char))} (h : List.Forall₂ (fun c f => read p c.toList = some f) conditions fs) :
    ∃ xs l', cut p .plain (others conditions) = some xs ∧ run [l] xs = some [l'] ∧
      Behind l' (conjunction g fs) := by
  induction h generalizing l g with
  | nil => exact ⟨[], l, rfl, rfl, hl⟩
  | @cons c f rest fs hc _ ih =>
    obtain ⟨xs, l₁, hcut, hrun, hl₁⟩ := behind_and hl hc
    obtain ⟨ys, l₂, hcut', hrun', hl₂⟩ := ih hl₁
    refine ⟨xs ++ ys, l₂, cut_append hcut hcut' (breaks_others rest), ?_, hl₂⟩
    rw [run_append, hrun]
    exact hrun'

theorem toList_intercalate (c : String) (rest : List String) :
    (String.intercalate " AND " ((c :: rest).map fun c => "(" ++ c ++ ")")).toList =
      '(' :: c.toList ++ [')'] ++ others rest := by
  induction rest generalizing c with
  | nil => simp [others]
  | cons d rest ih =>
    have hnext := ih d
    simp only [List.map_cons] at hnext ⊢
    rw [String.intercalate_cons_cons, String.toList_append, String.toList_append, hnext]
    simp [others]

/-- The text of conditions is read as all of them at once: one alone stands bare, and several are in
parentheses. -/
theorem read_whereSql {c : String} {rest : List String} {f : Formula (List Char)} {fs : List (Formula (List Char))}
    (hc : read p c.toList = some f) (hrest : List.Forall₂ (fun c f => read p c.toList = some f) rest fs) :
    ∃ text, Statement.whereSql (c :: rest) = " WHERE " ++ text ∧ read p text.toList = some (conjunction f fs) := by
  cases hrest with
  | nil => exact ⟨c, rfl, hc⟩
  | @cons d g rest fs hd hrest =>
    refine ⟨_, rfl, ?_⟩
    obtain ⟨xs, inner, hcut, hclose, hrun⟩ := run_parentheses hc
    have hfirst : Behind (({} : Level).enclose inner) f := hclose ▸ behind_enclose rfl rfl rfl rfl
    obtain ⟨ys, l, hcut', hrun', hl⟩ := behind_others hfirst (.cons hd hrest)
    rw [toList_intercalate]
    refine read_eq_some.mpr ⟨xs ++ ys, l, cut_append hcut hcut' (breaks_others _), ?_, hl.close⟩
    rw [run_append, hrun {} []]
    exact hrun'

end

end Listing.Raw
