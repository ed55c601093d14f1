/-!
# Reading a condition

A condition is a sequence of atoms, `AND`, `OR` and parentheses. `read` gives its formula by the usual
precedence: `AND` binds its neighbours before `OR` does, and parentheses before both. The reader is a
machine with one frame for every open parenthesis; `Operand` says of tokens that it takes them for one
operand, wherever it waits for one.
-/
namespace Listing.Condition

inductive Token (α : Type) where
  | atom (a : α)
  | and
  | or
  | opening
  | closing
deriving DecidableEq, Repr

inductive Formula (α : Type) where
  | atom (a : α)
  | and (f g : Formula α)
  | or (f g : Formula α)
deriving DecidableEq, Repr

variable {α : Type}

/-- The truth of a formula under a truth of its atoms. -/
def Formula.eval (v : α → Bool) : Formula α → Bool
  | .atom a => v a
  | .and f g => f.eval v && g.eval v
  | .or f g => f.eval v || g.eval v

/-- The atoms of a sequence of tokens in order. -/
def atoms (ts : List (Token α)) : List α :=
  ts.filterMap fun
    | .atom a => some a
    | _ => none

@[simp] theorem atoms_append (ts us : List (Token α)) : atoms (ts ++ us) = atoms ts ++ atoms us :=
  List.filterMap_append

/-! ## The reader -/

/-- What has been read since a parenthesis was opened. -/
structure Frame (α : Type) where
  /-- What stands before the last `OR`. -/
  before : Option (Formula α)
  /-- What stands behind it and before the last `AND`. -/
  term : Option (Formula α)

namespace Frame

def empty : Frame α := ⟨none, none⟩

/-- The operands that `AND` has joined, with the last one. -/
def conjoin (fr : Frame α) (f : Formula α) : Formula α :=
  match fr.term with
  | some t => .and t f
  | none => f

/-- All that has been read, with the last operand. -/
def close (fr : Frame α) (f : Formula α) : Formula α :=
  match fr.before with
  | some b => .or b (fr.conjoin f)
  | none => fr.conjoin f

/-- The truth of what `OR` stands behind: nothing is false. -/
def beforeHolds (v : α → Bool) (fr : Frame α) : Bool := fr.before.any (·.eval v)

/-- The truth of what `AND` stands behind: nothing is true. -/
def termHolds (v : α → Bool) (fr : Frame α) : Bool := fr.term.all (·.eval v)

theorem eval_conjoin (v : α → Bool) (fr : Frame α) (f : Formula α) :
    (fr.conjoin f).eval v = (fr.termHolds v && f.eval v) := by
  obtain ⟨before, term⟩ := fr
  cases term <;> simp [conjoin, termHolds, Formula.eval]

theorem eval_close (v : α → Bool) (fr : Frame α) (f : Formula α) :
    (fr.close f).eval v = (fr.beforeHolds v || (fr.termHolds v && f.eval v)) := by
  rw [← eval_conjoin]
  obtain ⟨before, term⟩ := fr
  cases before <;> simp [close, beforeHolds, Formula.eval]

end Frame

/-- Where the reader is: before an operand, or behind one. -/
inductive State (α : Type) where
  | operand (fr : Frame α) (outer : List (Frame α))
  | operator (f : Formula α) (fr : Frame α) (outer : List (Frame α))

def step : State α → Token α → Option (State α)
  | .operand fr outer, .atom a => some (.operator (.atom a) fr outer)
  | .operand fr outer, .opening => some (.operand .empty (fr :: outer))
  | .operator f fr outer, .and => some (.operand { fr with term := some (fr.conjoin f) } outer)
  | .operator f fr outer, .or => some (.operand ⟨some (fr.close f), none⟩ outer)
  | .operator f fr (up :: outer), .closing => some (.operator (fr.close f) up outer)
  | _, _ => none

/-- Where the reader is behind tokens, if it could take them. -/
def run (s : State α) (ts : List (Token α)) : Option (State α) := ts.foldlM step s

/-- The formula of a condition; `none` if the tokens make none. -/
def read (ts : List (Token α)) : Option (Formula α) :=
  match run (.operand .empty []) ts with
  | some (.operator f fr []) => some (fr.close f)
  | _ => none

example : read [.atom 1, .or, .atom 2, .and, .opening, .atom 3, .or, .atom 4, .closing] =
    some (.or (.atom 1) (.and (.atom 2) (.or (.atom 3) (.atom 4)))) := rfl

theorem run_append (s : State α) (ts us : List (Token α)) :
    run s (ts ++ us) = (run s ts).bind fun s' => run s' us := List.foldlM_append

theorem run_cons (s : State α) (t : Token α) (ts : List (Token α)) :
    run s (t :: ts) = (step s t).bind fun s' => run s' ts := List.foldlM_cons

/-- Tokens that the reader takes for one operand with this formula. -/
def Operand (ts : List (Token α)) (f : Formula α) : Prop :=
  ∀ fr outer, run (.operand fr outer) ts = some (.operator f fr outer)

theorem operand_atom (a : α) : Operand [.atom a] (.atom a) := fun _ _ => rfl

theorem read_of_operand {ts : List (Token α)} {f : Formula α} (h : Operand ts f) : read ts = some f := by
  rw [read, h .empty []]
  rfl

/-- What a frame closes with is an operand once in parentheses. -/
theorem operand_parentheses {ts : List (Token α)} {f : Formula α} {fr : Frame α}
    (h : ∀ outer, run (.operand .empty outer) ts = some (.operator f fr outer)) :
    Operand (.opening :: ts ++ [.closing]) (fr.close f) := by
  intro up outer
  rw [List.cons_append, run_cons]
  simp only [step, Option.bind_some]
  rw [run_append, h (up :: outer)]
  rfl

end Listing.Condition
