import LispMachine.Proofs.Machine.Stretches

/-! # The stack under a run

An instruction takes its operands from the top of the stack, and leaves what is below them (`step_shifts`).  So a
run through code that never reaches below a floor, its handlers included, leaves the slots under the floor alone,
and comes to every position with the depth that the code has there (`Floored.inside`).  If depths are consistent
as the verifier asks, a run goes from one to the other (`InStep`). -/

namespace LispMachine.Machine

/-! ### What an instruction does to the stack -/

/-- From a stack the operands are gone, and if control goes on the results are on top of the rest. -/
def Shifts (e : Effect) (stack : List Value) : EStateM.Result Fault Running Step → Prop
  | .ok (.done _) _ => True
  | .ok _ t => ∃ slots, slots.length = e.pushed ∧ t.frame.stack = slots ++ stack.drop e.popped
  | .error _ t => t.frame.stack = stack.drop e.popped

section Shifts

variable {call : Caller} {body : Body} {i : Instruction} {e : Effect} {s t u : Running} {exception : Value}

theorem Ends.shifts {f : Frame} {r : EStateM.Result Fault Running Step}
    (h : Ends call i e.popped e.pushed f r) : Shifts e f.stack r := by
  cases h with
  | next hends h => exact h.stack
  | jump hl h => exact h.stack
  | done v s => trivial
  | fail h hfault => exact congrArg Frame.stack h

theorem Shifts.quiet {α : Type} {stack : List Value} {x : Exec α} {k : α → Exec Step}
    (ht : t.frame.stack = stack.drop e.popped)
    (hx : match x t with
      | .ok _ u => u.frame = t.frame
      | .error _ u => u.frame = t.frame)
    (hk : ∀ a u, u.frame.stack = stack.drop e.popped → Shifts e stack (k a u)) : Shifts e stack ((x >>= k) t) := by
  rw [State.bind_eq]
  cases hrun : x t with
  | ok a u =>
    rw [hrun] at hx
    exact hk a u (hx ▸ ht)
  | error fault u =>
    rw [hrun] at hx
    exact (congrArg Frame.stack hx).trans ht

/-- A call takes its arguments and leaves its result, whatever becomes of the world. -/
theorem invokeDynamic_shifts [Libraries] {n : Nat} (he : (Instruction.invokeDynamic n).effect body.sites = .ok e)
    (hneeds : e.needs ≤ s.frame.stack.length) :
    Shifts e s.frame.stack (step call body (.invokeDynamic n) s) := by
  cases hspec : body.sites[n]? with
  | none =>
    simp only [Instruction.effect, hspec] at he
    cases he
  | some spec =>
    simp only [Instruction.effect, hspec] at he
    cases he
    obtain ⟨args, hargs⟩ := popMany_eq s spec.argTypes hneeds
    simp only [step, hspec]
    rw [State.bind_of_ok hargs]
    refine .quiet rfl ?_ fun result u hu => .quiet hu ?_ fun v u hu => ?_
    · unfold Exec.lift
      dsimp only
      cases callSite call body n spec args _ <;> rfl
    · have hquiet : Quiet call (conform call result spec.ret) u := quiet_conform result spec.ret
      unfold Quiet at hquiet
      cases hrun : conform call result spec.ret u with
      | ok a u' =>
        rw [hrun] at hquiet
        exact hquiet
      | error fault u' =>
        rw [hrun] at hquiet
        exact hquiet.1
    · rw [State.bind_of_ok (push_eq u v spec.ret)]
      refine ⟨slotsOf v spec.ret, ?_, by rw [Running.pushed_stack, hu]⟩
      rw [length_slotsOf, Effect.pushed]
      split
      · rename_i hvoid
        rw [hvoid]
        rfl
      · rfl

theorem step_shifts [Libraries] (he : i.effect body.sites = .ok e) (hneeds : e.needs ≤ s.frame.stack.length) :
    Shifts e s.frame.stack (step call body i s) := by
  by_cases hcall : ∃ n, i = .invokeDynamic n
  · obtain ⟨n, rfl⟩ := hcall
    exact invokeDynamic_shifts he hneeds
  · -- no other instruction looks at the call sites
    have hsame : step call body i s = step call ⟨body.code, [], 0⟩ i s := by
      cases i <;> first | rfl | exact absurd ⟨_, rfl⟩ hcall
    have he : i.effect [] = .ok e := by
      cases i <;> first | exact he | exact absurd ⟨_, rfl⟩ hcall
    obtain ⟨hdelta, henough⟩ := Verifier.delta_of_effect he hneeds
    rw [hsame]
    exact (step_ends call ⟨body.code, [], 0⟩ s hdelta henough (Nat.zero_le _)).shifts

theorem GoesOn.shifts [Libraries] (h : GoesOn call body s t) (hi : body.code.instructions[s.frame.pc]? = some i)
    (he : i.effect body.sites = .ok e) (hneeds : e.needs ≤ s.frame.stack.length) :
    ∃ slots, slots.length = e.pushed ∧ t.frame.stack = slots ++ s.frame.stack.drop e.popped := by
  have hstep : Shifts e s.frame.stack (Machine.step call body i s) := step_shifts he hneeds
  cases h with
  | next hi' hs =>
    obtain rfl := Option.some.inj (hi.symm.trans hi')
    rw [hs] at hstep
    exact hstep
  | jump hi' hs hpc =>
    obtain rfl := Option.some.inj (hi.symm.trans hi')
    rw [hs] at hstep
    exact hstep

theorem Raises.shifts [Libraries] {error : Error} (h : Raises call body s error exception t)
    (hi : body.code.instructions[s.frame.pc]? = some i) (he : i.effect body.sites = .ok e)
    (hneeds : e.needs ≤ s.frame.stack.length) : t.frame.stack = s.frame.stack.drop e.popped := by
  have hstep : Shifts e s.frame.stack (Machine.step call body i s) := step_shifts he hneeds
  obtain ⟨i', u, hi', hs, -, hframe⟩ := h.fails
  obtain rfl := Option.some.inj (hi.symm.trans hi')
  rw [hs] at hstep
  rw [hframe]
  exact hstep

end Shifts

/-! ### Consistent depths -/

/-- With depths as the verifier asks, what has the depth of its position goes to what has that of its own. -/
def InStep (body : Body) (s t : Running) : Prop :=
  ∀ depths room, Verifier.Consistent body.code body.sites depths room →
    depths s.frame.pc = some s.frame.stack.length → depths t.frame.pc = some t.frame.stack.length

section InStep

variable {call : Caller} {body : Body} {s t u : Running}

theorem InStep.refl (body : Body) (s : Running) : InStep body s s := fun _ _ _ h => h

theorem InStep.trans (h : InStep body s t) (h' : InStep body t u) : InStep body s u :=
  fun depths room hc hs => h' depths room hc (h depths room hc hs)

theorem GoesOn.inStep [Libraries] (h : GoesOn call body s t) : InStep body s t := by
  intro depths room hc hs
  obtain ⟨i, popped, pushed, hi, hfits⟩ := hc.reached _ _ hs
  obtain ⟨e, he, hneeds, rfl, rfl⟩ := Verifier.effect_of_delta hfits.delta hfits.enough
  obtain ⟨slots, hlength, hstack⟩ := h.shifts hi he hneeds
  have hdepth : t.frame.stack.length = s.frame.stack.length - e.popped + e.pushed := by
    rw [hstack, List.length_append, hlength, List.length_drop, Nat.add_comm]
  rw [hdepth]
  rcases (h.follows hi).1 with ⟨hpc, hends⟩ | ⟨l, hl, hpc⟩
  · rw [hpc]
    exact hfits.next hends
  · obtain ⟨q, hq, hdepths⟩ := hfits.targets l hl
    obtain rfl := Except.ok.inj ((jumpTarget_of_position hq).symm.trans hpc)
    exact hdepths

end InStep

/-! ### Floors -/

/-- An instruction that is met at a depth takes its operands above the floor, and what may follow it, the handlers
that cover it included, is met at the depth it leaves. -/
structure Above (body : Body) (own : List Handler) (floor : Nat) (D : Nat → Nat → Prop) (pc d : Nat)
    (i : Instruction) (e : Effect) : Prop where
  instruction : body.code.instructions[pc]? = some i
  effect : i.effect body.sites = .ok e
  needs : e.needs ≤ d
  enough : floor + e.popped ≤ d
  next : i.endsBlock = false → D (pc + 1) (d - e.popped + e.pushed)
  targets : ∀ l ∈ i.targets, ∃ q, jumpTarget body.code l = .ok q ∧ D q (d - e.popped + e.pushed)
  handlers : ∀ h ∈ own, h.covers pc = true →
    floor ≤ h.stackDepth ∧ h.stackDepth + e.popped ≤ d ∧ D h.target (h.stackDepth + 1)

/-- Code up to a position, with the depths at which control gets to positions in it: nothing in it reaches below the
floor. -/
def Floored (body : Body) (own : List Handler) (floor last : Nat) (D : Nat → Nat → Prop) : Prop :=
  ∀ pc d, D pc d → pc < last → ∃ i e, Above body own floor D pc d i e

section Floored

variable {call : Caller} {body : Body} {own : List Handler} {floor first last : Nat} {D : Nat → Nat → Prop}
  {s t : Running} {path : List Nat} {below stack : List Value}

theorem suffix_drop {n : Nat} (h : below <:+ stack) (hle : below.length + n ≤ stack.length) :
    below <:+ stack.drop n := by
  obtain ⟨above, rfl⟩ := h
  rw [List.length_append] at hle
  rw [List.drop_append_of_le_length (by omega)]
  exact List.suffix_append _ _

/-- A run inside leaves the slots under the floor alone, and comes to every position with the depth there. -/
theorem Floored.inside [Libraries] (h : Floored body own floor last D) (hi : Inside call body own first last s path t)
    (hs : D s.frame.pc s.frame.stack.length) (hbelow : below <:+ s.frame.stack) (hfloor : below.length = floor) :
    D t.frame.pc t.frame.stack.length ∧ below <:+ t.frame.stack ∧ InStep body s t := by
  induction hi with
  | refl s => exact ⟨hs, hbelow, .refl body s⟩
  | @goes s t u path hin hgoes _ ih =>
    obtain ⟨i, e, ha⟩ := h _ _ hs hin.2
    obtain ⟨slots, hlength, hstack⟩ := hgoes.shifts ha.instruction ha.effect ha.needs
    have hdepth : t.frame.stack.length = s.frame.stack.length - e.popped + e.pushed := by
      rw [hstack, List.length_append, hlength, List.length_drop, Nat.add_comm]
    have hnext : D t.frame.pc t.frame.stack.length := by
      rw [hdepth]
      rcases (hgoes.follows ha.instruction).1 with ⟨hpc, hends⟩ | ⟨l, hl, hpc⟩
      · rw [hpc]
        exact ha.next hends
      · obtain ⟨q, hq, hd⟩ := ha.targets l hl
        exact Except.ok.inj (hq.symm.trans hpc) ▸ hd
    have hunder : below <:+ t.frame.stack := by
      rw [hstack]
      exact (suffix_drop hbelow (hfloor ▸ ha.enough)).trans (List.suffix_append _ _)
    obtain ⟨hd, hkept, hstep⟩ := ih hnext hunder
    exact ⟨hd, hkept, hgoes.inStep.trans hstep⟩
  | @handled s t u path error exception handler hin hraises hfound hown _ ih =>
    obtain ⟨i, e, ha⟩ := h _ _ hs hin.2
    obtain ⟨hmem, hcovers⟩ := hraises.handler_covers hfound
    obtain ⟨hle, henough, htarget⟩ := ha.handlers handler hown hcovers
    have hstack := hraises.shifts ha.instruction ha.effect ha.needs
    have hdepth : (t.handled handler exception).frame.stack.length = handler.stackDepth + 1 := by
      simp only [Running.handled, Frame.handling, List.length_cons, List.length_drop, hstack]
      omega
    have hunder : below <:+ (t.handled handler exception).frame.stack := by
      have hlength : t.frame.stack.length = s.frame.stack.length - e.popped := by rw [hstack, List.length_drop]
      have hunder : below <:+ t.frame.stack := hstack ▸ suffix_drop hbelow (hfloor ▸ ha.enough)
      exact (suffix_drop hunder (by omega)).trans (List.suffix_cons _ _)
    have hstep : InStep body s (t.handled handler exception) := by
      intro depths room hc hdepths
      obtain ⟨i', popped, pushed, hi', hfits⟩ := hc.reached _ _ hdepths
      rw [hdepth]
      exact (hfits.handlers handler hmem hcovers).2.2
    obtain ⟨hd, hkept, hrest⟩ := ih (hdepth.symm ▸ htarget) hunder
    exact ⟨hd, hkept, hstep.trans hrest⟩

end Floored

end LispMachine.Machine
