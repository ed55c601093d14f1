import Listing.Filter.Keyword
import Listing.Proofs.Condition.Reader
/-!
# Runs

Parts that are joined by connectives fall into runs: every `OR` begins a new one, and the first part's
connective does not count. `anyRun` says that all parts of some run hold, and that is what a reader makes
of the parts written one behind the other (`operand_join`).
-/
namespace Listing

variable {α β : Type}

/-- The parts between one `OR` and the next. -/
def runs : List (Connective × α) → List (List α)
  | [] => []
  | [(_, a)] => [[a]]
  | (_, a) :: (.or, b) :: rest => [a] :: runs ((.or, b) :: rest)
  | (_, a) :: (.and, b) :: rest => (runs ((.and, b) :: rest)).modifyHead (a :: ·)

/-- Whether all parts of some run hold. -/
def anyRun (parts : List (Connective × Bool)) : Bool := (runs parts).any fun r => r.all id

/-- The first part stands in front of the first run; the other parts alone say what follows it. -/
theorem exists_runs_cons (rest : List (Connective × α)) :
    ∃ r rs, ∀ c a, runs ((c, a) :: rest) = (a :: r) :: rs := by
  induction rest with
  | nil => exact ⟨[], [], fun _ _ => rfl⟩
  | cons part rest ih =>
    obtain ⟨c, b⟩ := part
    cases c with
    | or => exact ⟨[], runs ((.or, b) :: rest), fun _ _ => rfl⟩
    | and =>
      obtain ⟨r, rs, hr⟩ := ih
      exact ⟨b :: r, rs, fun c a => by rw [runs, hr, List.modifyHead_cons]⟩

theorem runs_or (c : Connective) (a b : α) (rest : List (Connective × α)) :
    runs ((c, a) :: (.or, b) :: rest) = [a] :: runs ((.or, b) :: rest) := rfl

theorem runs_and (c : Connective) (a b : α) (rest : List (Connective × α)) :
    runs ((c, a) :: (.and, b) :: rest) = (runs ((.and, b) :: rest)).modifyHead (a :: ·) := rfl

/-- Runs are the parts cut up. -/
theorem flatten_runs (parts : List (Connective × α)) : (runs parts).flatten = parts.map Prod.snd := by
  induction parts with
  | nil => rfl
  | cons part rest ih =>
    obtain ⟨c, a⟩ := part
    cases rest with
    | nil => rfl
    | cons next rest =>
      obtain ⟨d, b⟩ := next
      cases d with
      | or =>
        rw [runs_or, List.flatten_cons, ih]
        rfl
      | and =>
        obtain ⟨r, rs, hr⟩ := exists_runs_cons rest
        rw [hr, List.flatten_cons] at ih
        rw [runs_and, hr, List.modifyHead_cons, List.flatten_cons, List.cons_append, ih]
        rfl

theorem mem_of_mem_runs {parts : List (Connective × α)} {r : List α} {a : α} (h : r ∈ runs parts)
    (ha : a ∈ r) : a ∈ parts.map Prod.snd := by
  rw [← flatten_runs]
  exact List.mem_flatten.2 ⟨r, h, ha⟩

/-- Without an `OR` there is one run. -/
theorem runs_of_and {parts : List (Connective × α)} (hne : parts ≠ []) (h : ∀ part ∈ parts, part.1 = .and) :
    runs parts = [parts.map Prod.snd] := by
  induction parts with
  | nil => exact absurd rfl hne
  | cons part rest ih =>
    cases rest with
    | nil => rfl
    | cons next rest =>
      have hnext : next.1 = .and := h next (List.mem_cons_of_mem part List.mem_cons_self)
      have hrest := ih (List.cons_ne_nil next rest) fun p hp => h p (List.mem_cons_of_mem part hp)
      obtain ⟨c, a⟩ := part
      obtain ⟨d, b⟩ := next
      subst hnext
      rw [runs_and, hrest]
      rfl

/-- Runs look at the connectives alone. -/
theorem runs_map (g : α → β) (parts : List (Connective × α)) :
    runs (parts.map fun (c, a) => (c, g a)) = (runs parts).map (List.map g) := by
  induction parts with
  | nil => rfl
  | cons part rest ih =>
    obtain ⟨c, a⟩ := part
    cases rest with
    | nil => rfl
    | cons next rest =>
      obtain ⟨d, b⟩ := next
      cases d with
      | or =>
        simp only [List.map_cons] at ih ⊢
        rw [runs_or, runs_or, ih, List.map_cons, List.map_cons, List.map_nil]
      | and =>
        obtain ⟨r, rs, hr⟩ := exists_runs_cons rest
        simp only [List.map_cons] at ih ⊢
        rw [runs_and, runs_and, ih, hr, List.modifyHead_cons, List.map_cons, List.map_cons,
          List.modifyHead_cons, List.map_cons, List.map_cons, List.map_cons]

theorem anyRun_single (c : Connective) (b : Bool) : anyRun [(c, b)] = b := by
  cases b <;> rfl

theorem anyRun_or (c : Connective) (a b : Bool) (rest : List (Connective × Bool)) :
    anyRun ((c, a) :: (.or, b) :: rest) = (a || anyRun ((.or, b) :: rest)) := by
  simp [anyRun, runs_or]

/-- Parts joined by `AND` hold as one. -/
theorem anyRun_and (c : Connective) (a b : Bool) (rest : List (Connective × Bool)) :
    anyRun ((c, a) :: (.and, b) :: rest) = anyRun ((c, a && b) :: rest) := by
  obtain ⟨r, rs, hr⟩ := exists_runs_cons rest
  simp [anyRun, hr, runs_and, Bool.and_assoc]

theorem anyRun_head (c d : Connective) (b : Bool) (rest : List (Connective × Bool)) :
    anyRun ((c, b) :: rest) = anyRun ((d, b) :: rest) := by
  obtain ⟨r, rs, hr⟩ := exists_runs_cons rest
  rw [anyRun, anyRun, hr, hr]

theorem anyRun_map (g : α → Bool) (parts : List (Connective × α)) :
    anyRun (parts.map fun (c, a) => (c, g a)) = (runs parts).any fun r => r.all g := by
  rw [anyRun, runs_map, List.any_map]
  simp [Function.comp_def, List.all_map]

/-- Parts of one truth have it together. -/
theorem anyRun_of_forall {b : Bool} {parts : List (Connective × Bool)} (hne : parts ≠ [])
    (h : ∀ part ∈ parts, part.2 = b) : anyRun parts = b := by
  obtain ⟨⟨c, a⟩, rest, rfl⟩ := List.exists_cons_of_ne_nil hne
  have ha : a = b := h (c, a) List.mem_cons_self
  have hrest : ∀ part ∈ rest, part.2 = b := fun part hpart => h part (List.mem_cons_of_mem _ hpart)
  clear h hne
  subst ha
  induction rest generalizing c with
  | nil => exact anyRun_single c a
  | cons next rest ih =>
    obtain ⟨d, e⟩ := next
    have he : e = a := hrest (d, e) List.mem_cons_self
    have hrest' : ∀ part ∈ rest, part.2 = a := fun part hpart => hrest part (List.mem_cons_of_mem _ hpart)
    subst he
    cases d with
    | or => rw [anyRun_or, ih .or hrest', Bool.or_self]
    | and => rw [anyRun_and, Bool.and_self, ih c hrest']

namespace Condition

/-- A connective as a token. -/
def joint : Connective → Token α
  | .and => .and
  | .or => .or

/-- Parts one behind the other; the first connective is dropped. -/
def join : List (Connective × List (Token α)) → List (Token α)
  | [] => []
  | (_, ts) :: rest => ts ++ rest.flatMap fun (c, us) => joint c :: us

theorem atoms_join (parts : List (Connective × List (Token α))) :
    atoms (join parts) = parts.flatMap fun (_, ts) => atoms ts := by
  cases parts with
  | nil => rfl
  | cons part rest =>
    obtain ⟨c, ts⟩ := part
    rw [join, atoms_append, List.flatMap_cons]
    congr 1
    induction rest with
    | nil => rfl
    | cons part rest ih =>
      obtain ⟨d, us⟩ := part
      rw [List.flatMap_cons, List.flatMap_cons, atoms_append, ih]
      cases d <;> rfl

/-- A part: its connective, its tokens, and the formula they make. -/
structure Segment (α : Type) where
  connective : Connective
  tokens : List (Token α)
  formula : Formula α

namespace Segment

def written (part : Segment α) : Connective × List (Token α) := (part.connective, part.tokens)

def holds (v : α → Bool) (part : Segment α) : Connective × Bool := (part.connective, part.formula.eval v)

end Segment

/-- A connective and the operand behind it. -/
theorem run_segment {c : Connective} {f g : Formula α} {fr fr' : Frame α} {outer : List (Frame α)} {ts : List (Token α)}
    (hstep : step (.operator f fr outer) (joint c) = some (.operand fr' outer)) (hts : Operand ts g)
    (more : List (Token α)) :
    run (.operator f fr outer) ((joint c :: ts) ++ more) = run (.operator g fr' outer) more := by
  rw [List.cons_append, run_cons, hstep, Option.bind_some, run_append, hts, Option.bind_some]

/-- The reader behind an operand, with parts to come. -/
theorem run_rest {parts : List (Segment α)} (h : ∀ part ∈ parts, Operand part.tokens part.formula)
    (f : Formula α) (fr : Frame α) :
    ∃ f' fr', (∀ outer, run (.operator f fr outer)
        ((parts.map Segment.written).flatMap fun (c, us) => joint c :: us) = some (.operator f' fr' outer)) ∧
      ∀ v, (fr'.close f').eval v =
        (fr.beforeHolds v || anyRun ((.and, fr.termHolds v && f.eval v) :: parts.map (Segment.holds v))) := by
  induction parts generalizing f fr with
  | nil =>
    refine ⟨f, fr, fun _ => rfl, fun v => ?_⟩
    rw [Frame.eval_close, List.map_nil, anyRun_single]
  | cons part parts ih =>
    have hpart := h part List.mem_cons_self
    have hparts : ∀ p ∈ parts, Operand p.tokens p.formula := fun p hp => h p (List.mem_cons_of_mem part hp)
    obtain ⟨c, ts, g⟩ := part
    cases c with
    | and =>
      obtain ⟨f', fr', hrun, heval⟩ := ih hparts g { fr with term := some (fr.conjoin f) }
      refine ⟨f', fr', fun outer => ?_, fun v => ?_⟩
      · rw [List.map_cons, List.flatMap_cons, Segment.written, run_segment rfl hpart, hrun outer]
      · have hterm : Frame.termHolds v { fr with term := some (fr.conjoin f) } =
            (fr.termHolds v && f.eval v) := by
          rw [← Frame.eval_conjoin]
          simp [Frame.termHolds]
        rw [heval v, hterm, List.map_cons, Segment.holds, anyRun_and]
        rfl
    | or =>
      obtain ⟨f', fr', hrun, heval⟩ := ih hparts g ⟨some (fr.close f), none⟩
      refine ⟨f', fr', fun outer => ?_, fun v => ?_⟩
      · rw [List.map_cons, List.flatMap_cons, Segment.written, run_segment rfl hpart, hrun outer]
      · have hbefore : Frame.beforeHolds v ⟨some (fr.close f), none⟩ =
            (fr.beforeHolds v || fr.termHolds v && f.eval v) := by
          rw [← Frame.eval_close]
          simp [Frame.beforeHolds]
        have hterm : Frame.termHolds v (⟨some (fr.close f), none⟩ : Frame α) = true := rfl
        rw [heval v, hbefore, hterm, List.map_cons, Segment.holds, anyRun_or, Bool.true_and, Bool.or_assoc,
          anyRun_head .and .or]

/-- Parts in parentheses are an operand that holds when all parts of some run do. -/
theorem operand_join {parts : List (Segment α)} (h : ∀ part ∈ parts, Operand part.tokens part.formula)
    (hne : parts ≠ []) :
    ∃ f, Operand (.opening :: join (parts.map Segment.written) ++ [.closing]) f ∧
      ∀ v, f.eval v = anyRun (parts.map (Segment.holds v)) := by
  obtain ⟨part, rest, rfl⟩ := List.exists_cons_of_ne_nil hne
  have hrest : ∀ p ∈ rest, Operand p.tokens p.formula := fun p hp => h p (List.mem_cons_of_mem part hp)
  obtain ⟨f, fr, hrun, heval⟩ := run_rest hrest part.formula .empty
  refine ⟨fr.close f, operand_parentheses fun outer => ?_, fun v => ?_⟩
  · rw [List.map_cons, Segment.written, join, run_append, h part List.mem_cons_self, Option.bind_some]
    exact hrun outer
  · rw [heval v, List.map_cons, Segment.holds, anyRun_head part.connective .and]
    simp [Frame.beforeHolds, Frame.termHolds, Frame.empty]

end Condition
end Listing
