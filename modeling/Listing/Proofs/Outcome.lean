import Listing.Error
/-!
# Outcomes of computations that may fail

`bind_eq_ok` takes a successful run apart at its first step, `bind_eq_error` one that fails. `Raises` says
of a run that all its errors are of a kind, and `Agree` of two runs that both fail with the same error or
both succeed with related results; both pass from step to step (`Raises.bind`, `Agree.bind`).
-/
namespace Listing

variable {α β γ δ ε : Type}

@[simp] theorem ok_bind (a : α) (f : α → Except ε β) : (Except.ok a >>= f) = f a := rfl

theorem exists_of_isOk {x : Except ε α} (h : x.isOk = true) : ∃ a, x = .ok a := by
  cases x with
  | error e => cases h
  | ok a => exact ⟨a, rfl⟩

theorem bind_eq_ok {x : Except ε α} {f : α → Except ε β} {b : β} :
    x >>= f = .ok b ↔ ∃ a, x = .ok a ∧ f a = .ok b := by
  cases x with
  | error e =>
    constructor
    · intro h; cases h
    · rintro ⟨a, h, _⟩; cases h
  | ok a =>
    constructor
    · intro h; exact ⟨a, rfl, h⟩
    · rintro ⟨a', h, hf⟩; cases h; exact hf

theorem map_eq_ok {x : Except Error α} {f : α → β} {b : β} :
    x.map f = .ok b ↔ ∃ a, x = .ok a ∧ f a = b := by
  cases x with
  | error e =>
    constructor
    · intro h; cases h
    · rintro ⟨a, h, _⟩; cases h
  | ok a =>
    constructor
    · intro h; cases h; exact ⟨a, rfl, rfl⟩
    · rintro ⟨a', h, hf⟩; cases h; rw [← hf]; rfl

theorem bind_eq_error {x : Except Error α} {f : α → Except Error β} {e : Error} :
    x >>= f = .error e ↔ x = .error e ∨ ∃ a, x = .ok a ∧ f a = .error e := by
  cases x with
  | error e' =>
    constructor
    · intro h; cases h; exact .inl rfl
    · rintro (h | ⟨a, h, _⟩) <;> cases h; rfl
  | ok a =>
    constructor
    · intro h; exact .inr ⟨a, rfl, h⟩
    · rintro (h | ⟨a', h, hf⟩) <;> cases h; exact hf

theorem map_eq_error {x : Except Error α} {f : α → β} {e : Error} : x.map f = .error e ↔ x = .error e := by
  cases x <;> simp [Except.map]

/-! ## Errors of a kind -/

/-- Every error of a run is of a kind. -/
def Raises (P : Error → Prop) (x : Except Error α) : Prop := ∀ e, x = .error e → P e

@[simp] theorem raises_ok (P : Error → Prop) (a : α) : Raises P (.ok a) := by simp [Raises]

@[simp] theorem raises_pure (P : Error → Prop) (a : α) : Raises P (pure a) := raises_ok P a

@[simp] theorem raises_error (P : Error → Prop) (e : Error) : Raises P (.error e : Except Error α) ↔ P e := by
  simp [Raises]

namespace Raises

variable {P Q : Error → Prop} {x : Except Error α}

theorem bind {f : α → Except Error β} (h : Raises P x) (hf : ∀ a, x = .ok a → Raises P (f a)) :
    Raises P (x >>= f) := by
  intro e he
  rcases bind_eq_error.1 he with he | ⟨a, ha, he⟩
  · exact h e he
  · exact hf a ha e he

theorem map {f : α → β} (h : Raises P x) : Raises P (x.map f) := fun e he => h e (map_eq_error.1 he)

theorem mono (h : Raises P x) (hPQ : ∀ e, P e → Q e) : Raises Q x := fun e he => hPQ e (h e he)

end Raises

/-! ## Two runs -/

/-- Both fail with the same error, or both succeed with related results. -/
def Agree (R : α → β → Prop) : Except Error α → Except Error β → Prop
  | .ok a, .ok b => R a b
  | .error e, .error e' => e = e'
  | _, _ => False

namespace Agree

variable {R : α → β → Prop} {S : γ → δ → Prop} {x : Except Error α} {y : Except Error β}

theorem ok {a : α} {b : β} (h : R a b) : Agree R (.ok a) (.ok b) := h

theorem error (e : Error) : Agree R (.error e) (.error e) := rfl

theorem of_eq {R : α → α → Prop} {x y : Except Error α} (hR : ∀ a, R a a) (h : x = y) : Agree R x y := by
  subst h
  cases x with
  | error e => exact error e
  | ok a => exact hR a

/-- Runs that agree on their first step and on all that follows from it agree. -/
theorem bind {f : α → Except Error γ} {g : β → Except Error δ} (h : Agree R x y)
    (hfg : ∀ a b, R a b → Agree S (f a) (g b)) : Agree S (x >>= f) (y >>= g) := by
  cases x <;> cases y
  · exact h
  · exact h.elim
  · exact h.elim
  · exact hfg _ _ h

theorem map {f : α → γ} {g : β → δ} (h : Agree R x y) (hfg : ∀ a b, R a b → S (f a) (g b)) :
    Agree S (x.map f) (y.map g) := by
  cases x <;> cases y
  · exact h
  · exact h.elim
  · exact h.elim
  · exact hfg _ _ h

end Agree
end Listing
