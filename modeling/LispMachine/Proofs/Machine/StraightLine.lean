import LispMachine.Bytecode.Coercion
import LispMachine.Proofs.Machine.Safety

/-! # Code without branches

`Performs` runs instructions one after the other, by the steps of the machine, as long as each goes on to
the next and none fails.  For the instructions that compiled constants, locals, conversions and collections
consist of, the lemmas here say what is on the stack afterwards.  The conversions a static type calls for
come to `Overload.widen`, except where a number changes its kind (`performs_coerce`).  A frame that runs to
its end has performed its code (`performs_of_runFrame`). -/

namespace LispMachine.Machine

namespace Running

/-- The method at the next instruction. -/
def next (s : Running) : Running := { s with frame := { s.frame with pc := s.frame.pc + 1 } }

/-- The method some instructions on, with another stack. -/
def after (s : Running) (n : Nat) (stack : List Value) : Running :=
  { s with frame := { s.frame with pc := s.frame.pc + n, stack } }

/-- The method some instructions on, with other locals. -/
def storing (s : Running) (n : Nat) (locals : Array Value) : Running :=
  { s with frame := { s.frame with pc := s.frame.pc + n, locals } }

variable (s : Running) (n m : Nat) (stack stack' : List Value) (locals locals' : Array Value)

@[simp] theorem after_stack : (s.after n stack).frame.stack = stack := rfl
@[simp] theorem after_locals : (s.after n stack).frame.locals = s.frame.locals := rfl
@[simp] theorem after_world : (s.after n stack).world = s.world := rfl
@[simp] theorem after_pc : (s.after n stack).frame.pc = s.frame.pc + n := rfl

@[simp] theorem after_after : (s.after n stack).after m stack' = s.after (n + m) stack' := by
  simp [after, Nat.add_assoc]

theorem storing_storing : (s.storing n locals).storing m locals' = s.storing (n + m) locals' := by
  simp [storing, Nat.add_assoc]

theorem after_storing : (s.storing n locals).after m stack = (s.after (n + m) stack).storing 0 locals := by
  simp [storing, after, Nat.add_assoc]

theorem after_zero : s.after 0 s.frame.stack = s := rfl

end Running

/-- The instructions run one after the other, from one state to the other, and none of them jumps or
fails. -/
def Performs [Libraries] (call : Caller) (body : Body) : List Instruction → Running → Running → Prop
  | [], s, t => t = s
  | i :: rest, s, t => ∃ u, step call body i s = .ok .next u ∧ Performs call body rest u.next t

section

variable {call : Caller} {body : Body} {s t : Running} {v : Value} {ty : Ty} {rest : List Value}

theorem performs_append [Libraries] {xs ys : List Instruction} :
    Performs call body (xs ++ ys) s t ↔ ∃ u, Performs call body xs s u ∧ Performs call body ys u t := by
  induction xs generalizing s with
  | nil => simp [Performs]
  | cons i xs ih =>
    simp only [List.cons_append, Performs, ih]
    constructor
    · rintro ⟨u, hu, w, hw, ht⟩
      exact ⟨w, ⟨u, hu, hw⟩, ht⟩
    · rintro ⟨w, ⟨u, hu, hw⟩, ht⟩
      exact ⟨u, hu, w, hw, ht⟩

theorem performs_single [Libraries] {i : Instruction} :
    Performs call body [i] s t ↔ ∃ u, step call body i s = .ok .next u ∧ t = u.next := Iff.rfl

/-- The state that the instructions run to. -/
def performed? [Libraries] (call : Caller) (body : Body) : List Instruction → Running → Option Running
  | [], s => some s
  | i :: rest, s =>
    match step call body i s with
    | .ok .next u => performed? call body rest u.next
    | _ => none

theorem performs_iff [Libraries] {code : List Instruction} :
    Performs call body code s t ↔ performed? call body code s = some t := by
  induction code generalizing s with
  | nil => simp [Performs, performed?, eq_comm]
  | cons i rest ih =>
    simp only [Performs, performed?]
    constructor
    · rintro ⟨u, hu, ht⟩
      simp only [hu]
      exact ih.mp ht
    · intro h
      split at h
      · rename_i u hu
        exact ⟨u, hu, ih.mpr h⟩
      · cases h

/-! ### Operands -/

theorem pop_slotsOf (hty : ty.width ≠ 0) (hstack : s.frame.stack = slotsOf v ty ++ rest) :
    pop ty s = .ok v (s.withStack rest) := by
  rcases width_cases ty with h | h | h
  · exact absurd h hty
  · simp only [slotsOf, h] at hstack
    simp only [pop, h]
    exact popSlot_cons s hstack
  · simp only [slotsOf, h] at hstack
    simp only [pop, h]
    rw [State.bind_of_ok (popSlot_cons s hstack)]
    exact popSlot_cons _ rfl

theorem popSlots_reverse {vs : List Value} (hstack : s.frame.stack = vs.reverse ++ rest) :
    popSlots vs.length s = .ok vs (s.withStack rest) := by
  rw [popSlots_eq s vs.length (by simp [hstack])]
  have htake : (s.frame.stack.take vs.length).reverse = vs := by
    rw [hstack, List.take_left' (by simp), List.reverse_reverse]
  have hdrop : s.drop vs.length = s.withStack rest := by
    rw [Running.drop, hstack, List.drop_left' (by simp)]
  rw [htake, hdrop]

/-! ### Single instructions -/

theorem performs_const [Libraries] {c : Constant} (h : Performs call body [.const c] s t) :
    ∃ v, constantValue s.world c = .ok v ∧ t = s.after 1 (slotsOf v c.ty ++ s.frame.stack) := by
  obtain ⟨u, hu, rfl⟩ := performs_single.mp h
  cases hv : constantValue s.world c with
  | error e =>
    have hread : Exec.lift (Action.read fun w => constantValue w c) s = .error (.error e) s :=
      Exec.lift_of_error (Action.read_of_error hv)
    rw [step, State.bind_of_error hread] at hu
    cases hu
  | ok v =>
    have hread : Exec.lift (Action.read fun w => constantValue w c) s = .ok v s :=
      Exec.lift_of_ok (Action.read_of_ok hv)
    rw [step, State.bind_of_ok hread, State.bind_of_ok (push_eq s v c.ty)] at hu
    cases hu
    exact ⟨v, rfl, rfl⟩

theorem performs_load [Libraries] {slot : Nat} (h : Performs call body [.load slot ty] s t) :
    t = s.after 1 (slotsOf ((s.frame.locals[slot]?).getD .nil) ty ++ s.frame.stack) := by
  obtain ⟨u, hu, rfl⟩ := performs_single.mp h
  rw [step, State.bind_of_ok (State.get_eq s), State.bind_of_ok (push_eq s _ ty)] at hu
  cases hu
  rfl

theorem performs_store [Libraries] {slot : Nat} (hty : ty.width ≠ 0) (hstack : s.frame.stack = slotsOf v ty ++ rest)
    (h : Performs call body [.store slot ty] s t) :
    t = { s.after 1 rest with frame := { (s.after 1 rest).frame with
      locals := s.frame.locals.setIfInBounds slot v } } := by
  obtain ⟨u, hu, rfl⟩ := performs_single.mp h
  rw [step, State.bind_of_ok (pop_slotsOf hty hstack), State.bind_of_ok (Exec.modifyFrame_eq _ _)] at hu
  cases hu
  rfl

/-- Dropping a value takes the slots of its type, whatever is in them. -/
theorem performs_discard [Libraries] {slots : List Value} (hlength : slots.length = ty.width)
    (hstack : s.frame.stack = slots ++ rest) (h : Performs call body (Coercion.discard ty) s t) :
    t = s.after (Coercion.discard ty).length rest := by
  rcases width_cases ty with hw | hw | hw <;> rw [hw] at hlength <;> simp only [Coercion.discard, hw] at h ⊢
  · obtain rfl := List.length_eq_zero_iff.mp hlength
    obtain rfl : t = s := h
    rw [List.nil_append] at hstack
    exact hstack ▸ (Running.after_zero t).symm
  · obtain ⟨u, hu, rfl⟩ := performs_single.mp h
    obtain ⟨v, rfl⟩ := List.length_eq_one_iff.mp hlength
    rw [step, State.bind_of_ok (popSlot_cons s hstack)] at hu
    cases hu
    rfl
  · obtain ⟨u, hu, rfl⟩ := performs_single.mp h
    rw [step, State.bind_of_ok (popSlots_eq s 2 (by rw [hstack, List.length_append]; omega)), Running.drop, hstack,
      List.drop_left' hlength] at hu
    cases hu
    rfl

theorem performs_makeCollection [Libraries] {kind : CollectionKind} {count : Nat} {vs : List Value}
    (hcount : vs.length = if kind = .map then count * 2 else count)
    (hstack : s.frame.stack = vs.reverse ++ rest) (h : Performs call body [.makeCollection kind count] s t) :
    ∃ v, buildCollection kind vs = .ok v ∧ t = s.after 1 (v :: rest) := by
  obtain ⟨u, hu, rfl⟩ := performs_single.mp h
  rw [step, ← hcount, State.bind_of_ok (popSlots_reverse hstack)] at hu
  cases hv : buildCollection kind vs with
  | error e =>
    rw [hv] at hu
    cases hu
  | ok v =>
    rw [hv] at hu
    cases hu
    exact ⟨v, rfl, rfl⟩

theorem performs_buildSpliced [Libraries] {kind : CollectionKind} {splices : List Bool} {vs : List Value}
    (hcount : vs.length = splices.length) (hstack : s.frame.stack = vs.reverse ++ rest)
    (h : Performs call body [.buildSpliced kind splices] s t) :
    ∃ items v, spliceItems vs splices = .ok items ∧ buildCollection kind items = .ok v ∧
      t = s.after 1 (v :: rest) := by
  obtain ⟨u, hu, rfl⟩ := performs_single.mp h
  rw [step, ← hcount, State.bind_of_ok (popSlots_reverse hstack)] at hu
  cases hitems : spliceItems vs splices with
  | error e =>
    rw [hitems] at hu
    cases hu
  | ok items =>
    rw [hitems] at hu
    cases hv : buildCollection kind items with
    | error e =>
      have hbuild : (Exec.lift (Action.ofExcept (buildCollection kind items)) : Exec Value) (s.withStack rest)
          = .error (.error e) (s.withStack rest) := by rw [hv]; rfl
      change (Exec.lift (Action.ofExcept (buildCollection kind items)) >>= _) (s.withStack rest) = _ at hu
      rw [State.bind_of_error hbuild] at hu
      cases hu
    | ok v =>
      have hbuild : (Exec.lift (Action.ofExcept (buildCollection kind items)) : Exec Value) (s.withStack rest)
          = .ok v (s.withStack rest) := by rw [hv]; rfl
      change (Exec.lift (Action.ofExcept (buildCollection kind items)) >>= _) (s.withStack rest) = _ at hu
      rw [State.bind_of_ok hbuild] at hu
      cases hu
      exact ⟨items, v, rfl, hv, rfl⟩

/-! ### Conversions -/

theorem width_prim (p : Prim) : (Ty.prim p).width ≠ 0 := by
  cases p <;> decide

theorem width_ne_zero (h : ty ≠ .void) : ty.width ≠ 0 := by
  cases ty with
  | void => exact absurd rfl h
  | prim p => exact width_prim p
  | any => nofun
  | cls name => nofun

theorem slotsOf_of_width (h : ty.width = 1) (v : Value) : slotsOf v ty = [v] := by
  simp only [slotsOf, h]

theorem performs_box_of_pop [Libraries] {p : Prim} (hpop : pop (.prim p) s = .ok v (s.withStack rest))
    (h : Performs call body [.box p] s t) : t = s.after 1 (v :: rest) := by
  obtain ⟨u, hu, rfl⟩ := performs_single.mp h
  rw [step, State.bind_of_ok hpop] at hu
  cases hu
  rfl

theorem performs_box [Libraries] {p : Prim} (hstack : s.frame.stack = slotsOf v (.prim p) ++ rest)
    (h : Performs call body [.box p] s t) : t = s.after 1 (v :: rest) :=
  performs_box_of_pop (pop_slotsOf (width_prim p) hstack) h

theorem performs_convert_of_pop [Libraries] {p q : Prim} (hpop : pop (.prim p) s = .ok v (s.withStack rest))
    (h : Performs call body [.convert p q] s t) :
    t = s.after 1 (slotsOf (convert q v) (.prim q) ++ rest) := by
  obtain ⟨u, hu, rfl⟩ := performs_single.mp h
  rw [step, State.bind_of_ok hpop, State.bind_of_ok (push_eq _ _ _)] at hu
  cases hu
  rfl

theorem performs_convert [Libraries] {p q : Prim} (hstack : s.frame.stack = slotsOf v (.prim p) ++ rest)
    (h : Performs call body [.convert p q] s t) :
    t = s.after 1 (slotsOf (convert q v) (.prim q) ++ rest) :=
  performs_convert_of_pop (pop_slotsOf (width_prim p) hstack) h

/-- What is unboxed stays as it is, but for a long where a double is wanted. -/
theorem unbox_ok {p : Prim} {a : Value} (h : unbox call v p s = .ok a t) :
    a = Overload.widen (.prim p) v ∧ t = s := by
  unfold unbox at h
  split at h
  case h_6 p v _ _ _ _ _ =>
    obtain ⟨e, u, -, h⟩ := State.ok_of_bind h
    cases h
  all_goals
    cases h
    exact ⟨rfl, rfl⟩

theorem performs_unbox [Libraries] {p : Prim} (hstack : s.frame.stack = v :: rest)
    (h : Performs call body [.unbox p] s t) :
    t = s.after 1 (slotsOf (Overload.widen (.prim p) v) (.prim p) ++ rest) := by
  obtain ⟨u, hu, rfl⟩ := performs_single.mp h
  rw [step, State.bind_of_ok (popSlot_cons s hstack)] at hu
  obtain ⟨a, s₁, ha, hu⟩ := State.ok_of_bind hu
  obtain ⟨rfl, rfl⟩ := unbox_ok ha
  rw [State.bind_of_ok (push_eq _ _ _)] at hu
  cases hu
  rfl

theorem checkClass_ok {cls : String} {a : Unit} (h : checkClass call v cls s = .ok a t) : t = s := by
  have hregistry : Exec.registry s = .ok s.world.registry s := rfl
  rw [checkClass, State.bind_of_ok hregistry] at h
  split at h
  · cases h
    rfl
  · obtain ⟨e, u, -, h⟩ := State.ok_of_bind h
    cases h

theorem performs_checkCast [Libraries] {cls : String} (hstack : s.frame.stack = v :: rest)
    (h : Performs call body [.checkCast cls] s t) : t = s.after 1 (v :: rest) := by
  obtain ⟨u, hu, rfl⟩ := performs_single.mp h
  rw [step, State.bind_of_ok (popSlot_cons s hstack)] at hu
  obtain ⟨⟨⟩, s₁, hs₁, hu⟩ := State.ok_of_bind hu
  obtain rfl := checkClass_ok hs₁
  rw [State.bind_of_ok (pushSlot_eq _ _)] at hu
  cases hu
  rfl

/-- Imposing the type on the value makes no number of another kind of it, but for the double that a long
is widened to. -/
def Suits (target : Ty) (v : Value) : Prop :=
  match target, v with
  | .prim .long, .float _ => False
  | .cls name, .int _ => name ≠ Names.double
  | _, _ => True

theorem convert_long (h : Suits .long v) : convert .long v = v := by
  cases v <;> first | rfl | exact h.elim

theorem convert_double (v : Value) : convert .double v = Overload.widen .double v := by
  cases v <;> rfl

/-- Between two primitive types, the value is what it is widened to. -/
theorem performs_betweenPrims [Libraries] {p q : Prim} {code : List Instruction}
    (hcode : Coercion.betweenPrims p q = .ok code)
    (hv : Suits (.prim q) v) (hstack : s.frame.stack = slotsOf v (.prim p) ++ rest)
    (h : Performs call body code s t) :
    t = s.after code.length (slotsOf (Overload.widen (.prim q) v) (.prim q) ++ rest) := by
  unfold Coercion.betweenPrims at hcode
  split at hcode
  · cases hcode
    rw [performs_convert hstack h, convert_double]
    rfl
  · cases hcode
    rw [performs_convert hstack h, convert_long hv]
    cases v <;> rfl
  · cases hcode

/-- A primitive value that is boxed stays what it is. -/
theorem performs_boxAs [Libraries] {r : Registry} {p : Prim} {cls : String} {code : List Instruction}
    (hcode : Coercion.boxAs r p cls = .ok code) (hv : Suits (.cls cls) v)
    (hstack : s.frame.stack = slotsOf v (.prim p) ++ rest) (h : Performs call body code s t) :
    t = s.after code.length (v :: rest) := by
  unfold Coercion.boxAs at hcode
  split at hcode
  · cases hcode
    exact performs_box hstack h
  split at hcode
  · rename_i hdouble
    obtain ⟨rfl, rfl⟩ := hdouble
    cases hcode
    obtain ⟨u, hu, ht⟩ := h
    have hnext := performs_convert hstack ⟨u, hu, rfl⟩
    rw [hnext] at ht
    have hkeep : convert .double v = v := by
      cases v <;> first | rfl | exact absurd rfl hv
    rw [performs_box rfl ht, hkeep]
    rfl
  · cases hcode

theorem performs_castTo [Libraries] {r : Registry} {source : Ty} {cls : String} {code : List Instruction}
    (hcode : Coercion.castTo r source cls = .ok code) (hstack : s.frame.stack = v :: rest)
    (h : Performs call body code s t) : t = s.after code.length (v :: rest) := by
  unfold Coercion.castTo at hcode
  split at hcode
  · cases hcode
    obtain rfl : t = s := h
    exact hstack ▸ (Running.after_zero t).symm
  split at hcode
  · cases hcode
    exact performs_checkCast hstack h
  · cases hcode

theorem isReference_of_ne (hvoid : ty ≠ .void) (hprim : ∀ p, ty ≠ .prim p) : ty.isReference = true := by
  cases ty with
  | any => rfl
  | void => exact absurd rfl hvoid
  | prim p => exact absurd rfl (hprim p)
  | cls name => rfl

theorem slotsOf_reference (h : ty.isReference = true) (v : Value) : slotsOf v ty = [v] := by
  cases ty <;> first | rfl | cases h

/-- The conversion between two static types widens the value to the type it is wanted as. -/
theorem performs_coerce [Libraries] {r : Registry} {source target : Ty} {code : List Instruction}
    (hcode : Coercion.coerce r source target = .ok code) (hsource : source ≠ .void) (htarget : target ≠ .void)
    (hv : Suits target v) (hsame : source = target → Overload.widen target v = v)
    (hstack : s.frame.stack = slotsOf v source ++ rest) (h : Performs call body code s t) :
    t = s.after code.length (slotsOf (Overload.widen target v) target ++ rest) := by
  unfold Coercion.coerce at hcode
  split at hcode
  · rename_i heq
    cases hcode
    obtain rfl : t = s := h
    rw [hsame heq, ← heq, ← hstack]
    exact (Running.after_zero t).symm
  split at hcode
  · exact absurd rfl htarget
  · exact absurd rfl hsource
  · exact absurd rfl hsource
  · exact performs_betweenPrims hcode hv hstack h
  · cases hcode
    exact performs_box hstack h
  · exact performs_boxAs hcode hv hstack h
  · rename_i hprim _
    rw [slotsOf_reference (isReference_of_ne hsource hprim)] at hstack
    split at hcode
    · cases hcode
      exact performs_unbox hstack h
    · cases hcode
  · rename_i hprim _
    rw [slotsOf_reference (isReference_of_ne hsource hprim)] at hstack
    cases hcode
    obtain rfl : t = s := h
    exact hstack ▸ (Running.after_zero t).symm
  · rename_i hprim _
    rw [slotsOf_reference (isReference_of_ne hsource hprim)] at hstack
    exact performs_castTo hcode hstack h

/-- Boxing leaves every value as it is. -/
theorem performs_toBoxed [Libraries] (hty : ty ≠ .void) (hstack : s.frame.stack = slotsOf v ty ++ rest)
    (h : Performs call body (Coercion.toBoxed ty) s t) :
    t = s.after (Coercion.toBoxed ty).length (v :: rest) := by
  have hnone : ty.isReference = true → s = s.after 0 (v :: rest) := by
    intro href
    rw [slotsOf_reference href, List.singleton_append] at hstack
    exact hstack ▸ (Running.after_zero s).symm
  cases ty with
  | void => exact absurd rfl hty
  | prim p => exact performs_box hstack h
  | any => exact h.trans (hnone rfl)
  | cls name => exact h.trans (hnone rfl)

/-! ### Frames -/

/-- The instruction goes on to the next one, if it does not fail. -/
def GoesNext (x : Exec Step) : Prop := ∀ ⦃s r t⦄, x s = .ok r t → r = .next ∧ t.frame.pc = s.frame.pc

/-- Instructions that compute, and neither jump nor call. -/
def Straight : Instruction → Prop
  | .const _ | .load .. | .store .. | .box _ | .unbox _ | .convert .. | .checkCast _ => True
  | .pop | .pop2 | .makeCollection .. | .buildSpliced .. => True
  | _ => False

/-- A frame that runs to its end, where no error is handled, performs the code in front of it. -/
theorem performs_of_runFrame [Libraries] {code behind : List Instruction} {fuel : Nat} {f : Frame} {w w' : World}
    (hcode : body.code.instructions.toList.drop f.pc = code ++ behind)
    (hnext : ∀ i ∈ code, GoesNext (step call body i)) (hhandlers : body.code.handlers = [])
    (hrun : runFrame call body fuel f w = .ok v w') :
    ∃ n t, Performs call body code ⟨f, w⟩ t ∧ t.frame.pc = f.pc + code.length ∧
      runFrame call body n t.frame t.world = .ok v w' := by
  induction code generalizing fuel f w with
  | nil => exact ⟨fuel, ⟨f, w⟩, rfl, rfl, hrun⟩
  | cons i code ih =>
    have hi : body.code.instructions[f.pc]? = some i := by
      rw [← Array.getElem?_toList, ← List.head?_drop, hcode]
      rfl
    have hrest : body.code.instructions.toList.drop (f.pc + 1) = code ++ behind := by
      rw [← List.drop_drop, hcode]
      rfl
    cases fuel with
    | zero => cases hrun
    | succ fuel =>
      rw [runFrame, hi] at hrun
      simp only at hrun
      cases hstep : step call body i ⟨f, w⟩ with
      | error e s =>
        rw [hstep] at hrun
        cases e with
        | outOfFuel => cases hrun
        | error e =>
          simp only at hrun
          cases hunwind : unwind call body e s.frame s.world with
          | error e' w₁ =>
            rw [hunwind] at hrun
            cases hrun
          | ok f' w₁ =>
            obtain ⟨handler, hmem, -⟩ := unwind_ok call hunwind
            rw [hhandlers] at hmem
            cases hmem
      | ok r s =>
        obtain ⟨rfl, hpc⟩ := hnext i List.mem_cons_self hstep
        rw [hstep] at hrun
        obtain ⟨n, t, hperforms, ht, hrun⟩ := ih (by rw [hpc]; exact hrest)
          (fun i hi => hnext i (List.mem_cons_of_mem _ hi)) hrun
        refine ⟨n, t, ⟨s, hstep, hperforms⟩, ?_, hrun⟩
        rw [ht, List.length_cons]
        simp only [hpc]
        omega

/-- A frame in front of code that is performed runs on behind it. -/
theorem runFrame_of_performs [Libraries] {code behind : List Instruction} {f : Frame} {w : World}
    (hcode : body.code.instructions.toList.drop f.pc = code ++ behind)
    (hnext : ∀ i ∈ code, GoesNext (step call body i)) (h : Performs call body code ⟨f, w⟩ t) (fuel : Nat) :
    runFrame call body (code.length + fuel) f w = runFrame call body fuel t.frame t.world := by
  induction code generalizing f w with
  | nil =>
    obtain rfl : t = ⟨f, w⟩ := h
    rw [List.length_nil, Nat.zero_add]
  | cons i code ih =>
    obtain ⟨s, hstep, hperforms⟩ := h
    have hi : body.code.instructions[f.pc]? = some i := by
      rw [← Array.getElem?_toList, ← List.head?_drop, hcode]
      rfl
    obtain ⟨-, hpc⟩ := hnext i List.mem_cons_self hstep
    have hrest : body.code.instructions.toList.drop (s.frame.pc + 1) = code ++ behind := by
      rw [hpc, ← List.drop_drop, hcode]
      rfl
    rw [List.length_cons, Nat.add_right_comm, runFrame, hi]
    simp only [hstep]
    exact ih hrest (fun i hi => hnext i (List.mem_cons_of_mem _ hi)) hperforms

end

end LispMachine.Machine
