import Mathlib.Algebra.Ring.Nat
import LispMachine.Machine.Execution
import LispMachine.Proofs.Sequencing

/-! # The operands of a running method

What the primitives that move operands do to a frame, as equations that execute.  A stack that holds
enough slots gives them up (`pop_eq`, `popMany_eq`, `popSlots_eq`), and a push puts exactly the slots of
its type on top (`push_eq`).  All other parts of the running method stay as they are. -/

namespace LispMachine.Machine

namespace Exec

variable {α : Type} {s : Running}

@[simp] theorem fail_eq (e : Error) (s : Running) :
    (Exec.fail e : Exec α) s = .error (.error e) s := rfl

@[simp] theorem modifyFrame_eq (g : Frame → Frame) (s : Running) :
    Exec.modifyFrame g s = .ok () { s with frame := g s.frame } := rfl

theorem lift_of_ok {a : Action α} {y : α} {w : World} (h : a s.world = .ok y w) :
    Exec.lift a s = .ok y { s with world := w } := by
  simp only [Exec.lift, h]

theorem lift_of_error {a : Action α} {e : Fault} {w : World} (h : a s.world = .error e w) :
    Exec.lift a s = .error e { s with world := w } := by
  simp only [Exec.lift, h]

end Exec

namespace Running

/-- The method with another operand stack. -/
def withStack (s : Running) (stack : List Value) : Running :=
  { s with frame := { s.frame with stack } }

/-- The method without the upper slots of its stack. -/
def drop (s : Running) (n : Nat) : Running := s.withStack (s.frame.stack.drop n)

/-- The method with more slots on its stack, the top first. -/
def pushed (s : Running) (slots : List Value) : Running := s.withStack (slots ++ s.frame.stack)

variable (s : Running) (stack slots : List Value) (n m : Nat)

@[simp] theorem withStack_stack : (s.withStack stack).frame.stack = stack := rfl
@[simp] theorem withStack_pc : (s.withStack stack).frame.pc = s.frame.pc := rfl
@[simp] theorem withStack_locals : (s.withStack stack).frame.locals = s.frame.locals := rfl
@[simp] theorem withStack_world : (s.withStack stack).world = s.world := rfl

@[simp] theorem withStack_withStack (stack' : List Value) :
    (s.withStack stack).withStack stack' = s.withStack stack' := rfl

@[simp] theorem drop_stack : (s.drop n).frame.stack = s.frame.stack.drop n := rfl
@[simp] theorem drop_world : (s.drop n).world = s.world := rfl
@[simp] theorem pushed_stack : (s.pushed slots).frame.stack = slots ++ s.frame.stack := rfl
@[simp] theorem pushed_world : (s.pushed slots).world = s.world := rfl

@[simp] theorem drop_zero : s.drop 0 = s := rfl
@[simp] theorem pushed_nil : s.pushed [] = s := rfl

@[simp] theorem drop_drop : (s.drop n).drop m = s.drop (n + m) := by
  simp [drop, List.drop_drop]

end Running

/-- The slots a value of a type takes, the top first. -/
def slotsOf (v : Value) (ty : Ty) : List Value :=
  match ty.width with
  | 0 => []
  | 1 => [v]
  | _ => [.nil, v]

theorem width_cases (ty : Ty) : ty.width = 0 ∨ ty.width = 1 ∨ ty.width = 2 := by
  unfold Ty.width
  split <;> simp

@[simp] theorem length_slotsOf (v : Value) (ty : Ty) : (slotsOf v ty).length = ty.width := by
  rcases width_cases ty with h | h | h <;> simp [slotsOf, h]

section Operands

variable (s : Running)

theorem pushSlot_eq (v : Value) : pushSlot v s = .ok () (s.pushed [v]) := rfl

theorem push_eq (v : Value) (ty : Ty) : push v ty s = .ok () (s.pushed (slotsOf v ty)) := by
  rcases width_cases ty with h | h | h <;> simp only [push, slotsOf, h] <;> rfl

theorem popSlot_cons {v : Value} {rest : List Value} (h : s.frame.stack = v :: rest) :
    popSlot s = .ok v (s.withStack rest) := by
  simp only [popSlot, State.bind_eq, State.get_eq, h]
  rfl

theorem popSlot_eq (h : 1 ≤ s.frame.stack.length) : ∃ v, popSlot s = .ok v (s.drop 1) := by
  obtain ⟨v, rest, hs⟩ := List.exists_cons_of_length_pos h
  refine ⟨v, ?_⟩
  rw [popSlot_cons s hs, Running.drop, hs]
  rfl

theorem pop_eq (ty : Ty) (h : ty.width ≤ s.frame.stack.length) :
    ∃ v, pop ty s = .ok v (s.drop ty.width) := by
  rcases width_cases ty with hw | hw | hw
  · refine ⟨.nil, ?_⟩
    simp only [pop, hw]
    rfl
  · rw [hw] at h
    obtain ⟨v, hv⟩ := popSlot_eq s h
    refine ⟨v, ?_⟩
    simp only [pop, hw]
    exact hv
  · rw [hw] at h
    obtain ⟨u, hu⟩ := popSlot_eq s (by omega)
    obtain ⟨v, hv⟩ := popSlot_eq (s.drop 1) (by simp; omega)
    refine ⟨v, ?_⟩
    simp only [pop, hw]
    rw [State.bind_of_ok hu, hv, Running.drop_drop]

theorem popAll_eq (above : List Value) (types : List Ty)
    (h : (types.map Ty.width).sum ≤ s.frame.stack.length) :
    ∃ vs, popAll above types s = .ok vs (s.drop (types.map Ty.width).sum) := by
  induction types generalizing above s with
  | nil => exact ⟨above, rfl⟩
  | cons ty rest ih =>
      simp only [List.map_cons, List.sum_cons] at h ⊢
      obtain ⟨v, hv⟩ := pop_eq s ty (by omega)
      obtain ⟨vs, hvs⟩ := ih (s.drop ty.width) (v :: above) (by simp; omega)
      refine ⟨vs, ?_⟩
      rw [popAll, State.bind_of_ok hv, hvs, Running.drop_drop]

theorem popMany_eq (types : List Ty) (h : (types.map Ty.width).sum ≤ s.frame.stack.length) :
    ∃ vs, popMany types s = .ok vs (s.drop (types.map Ty.width).sum) := by
  have hsum : (types.reverse.map Ty.width).sum = (types.map Ty.width).sum := by
    rw [List.map_reverse, List.sum_reverse]
  obtain ⟨vs, hvs⟩ := popAll_eq s [] types.reverse (by omega)
  exact ⟨vs, by rw [popMany, hvs, hsum]⟩

theorem popSlots_eq (n : Nat) (h : n ≤ s.frame.stack.length) :
    popSlots n s = .ok (s.frame.stack.take n).reverse (s.drop n) := by
  simp only [popSlots, State.bind_eq, State.get_eq, if_neg (Nat.not_lt.2 h)]
  rfl

end Operands

end LispMachine.Machine
