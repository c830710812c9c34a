import LispMachine.World.Basic

/-! # Work in sequence

How `do` blocks run, for work that may fail (`Except`) and for work that changes a state as well
(`EStateM`), actions on the world among them.  One direction executes a block step by step; the other
takes a block apart into the steps it went through.  `exists_answer` turns a run that was computed into such an
end. -/

namespace LispMachine

section Except

variable {ε α β : Type} {x : Except ε α} {f : α → Except ε β} {b : β}

theorem bind_ok (h : x >>= f = .ok b) : ∃ a, x = .ok a ∧ f a = .ok b := by
  cases x with
  | error e => cases h
  | ok a => exact ⟨a, rfl, h⟩

theorem map_ok {g : α → β} (h : x.map g = .ok b) : ∃ a, x = .ok a ∧ g a = b := by
  cases x with
  | error e => cases h
  | ok a => exact ⟨a, rfl, Except.ok.inj h⟩

end Except

namespace State

variable {ε σ α β : Type} {x : EStateM ε σ α} {f : α → EStateM ε σ β} {s s' : σ}

theorem bind_of_ok {a : α} (h : x s = .ok a s') : (x >>= f) s = f a s' := by
  simp only [bind, EStateM.bind, h]

theorem bind_of_error {e : ε} (h : x s = .error e s') : (x >>= f) s = .error e s' := by
  simp only [bind, EStateM.bind, h]

theorem bind_eq (x : EStateM ε σ α) (f : α → EStateM ε σ β) (s : σ) :
    (x >>= f) s = match x s with
      | .ok a s' => f a s'
      | .error e s' => .error e s' := by
  cases h : x s with
  | ok a s' => exact bind_of_ok h
  | error e s' => exact bind_of_error h

theorem ok_of_bind {b : β} (h : (x >>= f) s = .ok b s') : ∃ a t, x s = .ok a t ∧ f a t = .ok b s' := by
  rw [bind_eq] at h
  cases hx : x s with
  | ok a t =>
      rw [hx] at h
      exact ⟨a, t, rfl, h⟩
  | error e t =>
      rw [hx] at h
      cases h

theorem error_of_bind {e : ε} (h : (x >>= f) s = .error e s') :
    x s = .error e s' ∨ ∃ a t, x s = .ok a t ∧ f a t = .error e s' := by
  rw [bind_eq] at h
  cases hx : x s with
  | ok a t =>
      rw [hx] at h
      exact .inr ⟨a, t, rfl, h⟩
  | error e' t =>
      rw [hx] at h
      cases h
      exact .inl rfl

@[simp] theorem pure_eq (a : α) (s : σ) : (pure a : EStateM ε σ α) s = .ok a s := rfl

@[simp] theorem get_eq (s : σ) : (get : EStateM ε σ σ) s = .ok s s := rfl

@[simp] theorem modify_eq (g : σ → σ) (s : σ) : (modify g : EStateM ε σ PUnit) s = .ok ⟨⟩ (g s) := rfl

/-- What was answered, if the work ended well. -/
def answer? : EStateM.Result ε σ α → Option (α × σ)
  | .ok a t => some (a, t)
  | .error _ _ => none

theorem exists_answer {r : EStateM.Result ε σ α} {p : α × σ → Bool} (h : (answer? r).any p = true) :
    ∃ a t, r = .ok a t ∧ p (a, t) = true := by
  cases r with
  | ok a t => exact ⟨a, t, rfl, h⟩
  | error e t => cases h

end State

namespace Action

variable {α : Type} {g : World → Except Error α} {w : World}

theorem ofExcept_ok (a : α) (w : World) : Action.ofExcept (.ok a) w = .ok a w := rfl

theorem ofExcept_error (e : Error) (w : World) :
    (Action.ofExcept (.error e) : Action α) w = .error (.error e) w := rfl

theorem read_of_ok {a : α} (h : g w = .ok a) : Action.read g w = .ok a w := by
  rw [Action.read, State.bind_of_ok (State.get_eq w), h, ofExcept_ok]

theorem read_of_error {e : Error} (h : g w = .error e) : Action.read g w = .error (.error e) w := by
  rw [Action.read, State.bind_of_ok (State.get_eq w), h, ofExcept_error]

end Action

end LispMachine
