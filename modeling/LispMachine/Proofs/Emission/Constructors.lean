import LispMachine.Proofs.Emission.Methods
import LispMachine.Proofs.Machine.Stretches
import LispMachine.Proofs.World.Fields

/-! # Running constructors

The constructor of an emitted class hands its first arguments to a constructor of the superclass, which then works on
the new object, and stores the others, each in its field.  It ends well just where both do, and what it leaves behind
is what the superclass left, with those fields written (`runFrame_constructor`). -/

namespace LispMachine.Emission

open Form Machine

/-- What a local of a type is read as; a local of type `void` holds nothing. -/
def held (ty : Ty) (v : Value) : Value := if ty = .void then .nil else v

/-- The fields a constructor writes, with what its locals hold for them from the slot `first` on. -/
def storedValues (locals : Array Value) (first : Nat) (stored : List ((String × Ty) × Nat)) : List (String × Value) :=
  stored.map fun ((name, ty), i) => (name, held ty ((locals[first + i]?).getD .nil))

/-- The code that writes those fields. -/
def storeCode (owner : String) (first : Nat) (stored : List ((String × Ty) × Nat)) : List Instruction :=
  stored.flatMap fun ((name, ty), i) => [.load 0 (.cls owner), .load (first + i) ty, .putField owner name ty]

/-- The code that loads the arguments for the superclass. -/
def passCode (params : List (Ty × Nat)) : List Instruction := params.map fun (ty, i) => .load (1 + i) ty

/-- What the superclass gets from the locals from the slot `first` on. -/
def passedValues (locals : Array Value) (first : Nat) (params : List (Ty × Nat)) : List Value :=
  params.map fun (ty, i) => held ty ((locals[first + i]?).getD .nil)

/-- The slots that takes, the top first. -/
def passedSlots (locals : Array Value) (params : List (Ty × Nat)) : List Value :=
  (params.map fun (ty, i) => slotsOf ((locals[1 + i]?).getD .nil) ty).reverse.flatten

/-- A constructor up to its return. -/
def setupCode (owner superclass : String) (params : List Ty) (stored : List (String × Ty)) : List Instruction :=
  .load 0 (.cls owner) :: (passCode params.zipIdx
    ++ .invokeSuper superclass params :: storeCode owner (1 + params.length) stored.zipIdx)

theorem constructorCode_eq (owner superclass : String) (params : List Ty) (stored : List (String × Ty)) :
    constructorCode owner superclass params stored =
      setupCode owner superclass params stored ++ [Instruction.ret .void] := by
  simp only [constructorCode, setupCode, passCode, storeCode, List.cons_append, List.append_assoc, List.nil_append]

theorem length_storeCode (owner : String) (first : Nat) (stored : List ((String × Ty) × Nat)) :
    (storeCode owner first stored).length = 3 * stored.length := by
  simp [storeCode, List.length_flatMap, List.map_const', Nat.mul_comm]

@[simp] theorem length_setupCode (owner superclass : String) (params : List Ty) (stored : List (String × Ty)) :
    (setupCode owner superclass params stored).length = 2 + params.length + 3 * stored.length := by
  simp only [setupCode, passCode, List.length_cons, List.length_append, List.length_map, List.length_zipIdx,
    length_storeCode]
  omega

section Instructions

variable {call : Caller} {body : Body} {s t : Running} {v : Value} {ty : Ty} {rest : List Value}
  {code : List Instruction} {o : ObjectRef} {owner name : String}

/-! ### Instructions -/

/-- Control goes on behind an instruction that neither branches nor ends a block. -/
theorem Plain.goesNext [Libraries] {slots : Nat} {i : Instruction} (h : Plain slots i) : GoesNext
    (step call body i) := by
  intro s r t hstep
  obtain ⟨hfollows, hpc, -⟩ := step_ok hstep
  refine ⟨?_, hpc⟩
  cases r with
  | next => rfl
  | jump l =>
    have hl : l ∈ i.targets := hfollows
    rw [h.2.1] at hl
    cases hl
  | done v =>
    obtain ⟨ty, rfl⟩ := hfollows
    cases h.1

theorem pop_held (hstack : s.frame.stack = slotsOf v ty ++ rest) : pop ty s = .ok (held ty v) (s.withStack rest) := by
  by_cases hty : ty = .void
  · subst hty
    have hrest : s.withStack rest = s := congrArg s.withStack hstack.symm
    rw [hrest]
    rfl
  · rw [held, if_neg hty]
    exact pop_slotsOf (width_ne_zero hty) hstack

theorem popAll_held (qs : List (Ty × Value)) (above : List Value)
    (hstack : s.frame.stack = (qs.map fun q => slotsOf q.2 q.1).flatten ++ rest) :
    popAll above (qs.map Prod.fst) s = .ok ((qs.map fun q => held q.1 q.2).reverse ++ above) (s.withStack rest) := by
  induction qs generalizing s above with
  | nil =>
    have hrest : s.withStack rest = s := congrArg s.withStack hstack.symm
    rw [hrest]
    rfl
  | cons q qs ih =>
    rw [List.map_cons, List.flatten_cons, List.append_assoc] at hstack
    rw [List.map_cons, popAll, State.bind_of_ok (pop_held hstack), ih _ rfl]
    simp [Running.withStack]

theorem popMany_passed {locals : Array Value} {params : List (Ty × Nat)}
    (hstack : s.frame.stack = passedSlots locals params ++ rest) :
    popMany (params.map Prod.fst) s = .ok (passedValues locals 1 params) (s.withStack rest) := by
  have hpop := popAll_held (params.reverse.map fun p => (p.1, (locals[1 + p.2]?).getD .nil)) [] (by
    rw [hstack, passedSlots, List.map_map, ← List.map_reverse]
    rfl)
  rw [List.map_map, List.map_map, ← List.map_reverse, List.reverse_reverse, List.append_nil] at hpop
  rw [popMany, ← List.map_reverse]
  exact hpop

/-- The method some instructions on, with another stack in another world. -/
def beyond (s : Running) (n : Nat) (stack : List Value) (w : World) : Running := { s.after n stack with world := w }

theorem performs_load_cons [Libraries] {slot : Nat} :
    Performs call body (.load slot ty :: code) s t ↔
      Performs call body code (s.after 1 (slotsOf ((s.frame.locals[slot]?).getD .nil) ty ++ s.frame.stack)) t := by
  have hstep : step call body (.load slot ty) s
      = .ok .next (s.pushed (slotsOf ((s.frame.locals[slot]?).getD .nil) ty)) := by
    rw [step, State.bind_of_ok (State.get_eq s), State.bind_of_ok (push_eq s _ ty)]
    rfl
  constructor
  · rintro ⟨u, hu, hrest⟩
    cases hstep.symm.trans hu
    exact hrest
  · exact fun hrest => ⟨_, hstep, hrest⟩

/-- An instruction that ends in an action on the world goes on just where the action ends well. -/
theorem performs_lift_cons [Libraries] {i : Instruction} {m : Action Unit} {stack : List Value}
    (hstep : step call body i s = (Exec.lift m >>= fun _ => pure Step.next) (s.withStack stack)) :
    Performs call body (i :: code) s t ↔
      ∃ w, m s.world = .ok () w ∧ Performs call body code (beyond s 1 stack w) t := by
  rw [Performs, hstep]
  cases hm : m s.world with
  | ok u w =>
    rw [State.bind_of_ok (Exec.lift_of_ok (s := s.withStack stack) hm)]
    constructor
    · rintro ⟨u, hu, hrest⟩
      cases hu
      exact ⟨w, rfl, hrest⟩
    · rintro ⟨w', hw, hrest⟩
      cases hw
      exact ⟨_, rfl, hrest⟩
  | error e w =>
    rw [State.bind_of_error (Exec.lift_of_error (s := s.withStack stack) hm)]
    constructor
    · rintro ⟨u, hu, -⟩
      cases hu
    · rintro ⟨w', hw, -⟩
      cases hw

theorem performs_putField_cons [Libraries] (hstack : s.frame.stack = slotsOf v ty ++ Value.object o :: rest) :
    Performs call body (.putField owner name ty :: code) s t ↔
      ∃ w, Action.setField o name (held ty v) s.world = .ok () w ∧ Performs call body code (beyond s 1 rest w) t := by
  have hobject : popObject call (s.withStack (.object o :: rest)) = .ok o (s.withStack rest) := by
    rw [popObject, State.bind_of_ok (popSlot_cons _ rfl)]
    rfl
  refine performs_lift_cons ?_
  rw [step, State.bind_of_ok (pop_held hstack), State.bind_of_ok hobject]

theorem performs_invokeSuper_cons [Libraries] {params : List Ty} {args : List Value} {receiver : Value}
    (hargs : popMany params s = .ok args (s.withStack (receiver :: rest))) :
    Performs call body (.invokeSuper owner params :: code) s t ↔
      ∃ w, superConstructor call owner params receiver args s.world = .ok () w ∧
        Performs call body code (beyond s 1 rest w) t := by
  refine performs_lift_cons ?_
  rw [step, State.bind_of_ok hargs, State.bind_of_ok (popSlot_cons _ rfl)]
  rfl

/-- A field is written from its local. -/
theorem performs_storeField [Libraries] {slot : Nat} (hthis : s.frame.locals[0]? = some (Value.object o)) :
    Performs call body (.load 0 (.cls owner) :: .load slot ty :: .putField owner name ty :: code) s t ↔
      ∃ w, Action.setField o name (held ty ((s.frame.locals[slot]?).getD .nil)) s.world = .ok () w ∧
        Performs call body code (beyond s 3 s.frame.stack w) t := by
  rw [performs_load_cons, performs_load_cons, hthis,
    performs_putField_cons (v := (s.frame.locals[slot]?).getD .nil) (o := o) rfl]
  exact Iff.rfl

end Instructions

/-! ### The code of a constructor -/

section Code

variable {call : Caller} {body : Body} {s t : Running} {o : ObjectRef} {owner superclass : String}

theorem performs_passCode [Libraries] (params : List (Ty × Nat)) :
    Performs call body (passCode params) s t ↔
      t = s.after params.length (passedSlots s.frame.locals params ++ s.frame.stack) := by
  induction params generalizing s with
  | nil => exact Iff.rfl
  | cons p params ih =>
    rw [passCode, List.map_cons, performs_load_cons]
    refine ih.trans ?_
    rw [Running.after_after, Running.after_locals, Running.after_stack, Nat.add_comm 1, List.length_cons]
    simp [passedSlots]

theorem performs_storeCode [Libraries] (first : Nat) (stored : List ((String × Ty) × Nat))
    (hthis : s.frame.locals[0]? = some (Value.object o)) :
    Performs call body (storeCode owner first stored) s t ↔
      ∃ w, Action.storeFields o (storedValues s.frame.locals first stored) s.world = .ok () w ∧
        t = beyond s (3 * stored.length) s.frame.stack w := by
  induction stored generalizing s with
  | nil =>
    constructor
    · intro h
      obtain rfl : t = s := h
      exact ⟨t.world, rfl, rfl⟩
    · rintro ⟨w, hw, rfl⟩
      cases hw
      rfl
  | cons f stored ih =>
    obtain ⟨⟨name, ty⟩, i⟩ := f
    refine (performs_storeField hthis).trans ?_
    have hbeyond (w₁ w : World) : beyond (beyond s 3 s.frame.stack w₁) (3 * stored.length) s.frame.stack w
        = beyond s (3 * (stored.length + 1)) s.frame.stack w := by
      simp only [beyond, Running.after, Nat.mul_add, Nat.mul_one, Nat.add_assoc, Nat.add_comm 3]
    have hrest (w₁ : World) := ih (s := beyond s 3 s.frame.stack w₁) hthis
    constructor
    · rintro ⟨w₁, hset, hperforms⟩
      obtain ⟨w, hstore, rfl⟩ := (hrest w₁).1 hperforms
      exact ⟨w, (State.bind_of_ok hset).trans hstore, hbeyond w₁ w⟩
    · rintro ⟨w, hstore, rfl⟩
      obtain ⟨⟨⟩, w₁, hset, hstore⟩ := State.ok_of_bind hstore
      exact ⟨w₁, hset, (hrest w₁).2 ⟨w, hstore, (hbeyond w₁ w).symm⟩⟩

/-- A constructor runs the one of the superclass and then writes the fields. -/
theorem performs_setupCode [Libraries] (params : List Ty) (stored : List (String × Ty))
    (hthis : s.frame.locals[0]? = some (Value.object o)) (hstack : s.frame.stack = []) (t : Running) :
    Performs call body (setupCode owner superclass params stored) s t ↔
      ∃ w₁ w₂, superConstructor call superclass params (.object o) (passedValues s.frame.locals 1 params.zipIdx) s.world
          = .ok () w₁ ∧
        Action.storeFields o (storedValues s.frame.locals (1 + params.length) stored.zipIdx) w₁ = .ok () w₂ ∧
        t = beyond s (2 + params.length + 3 * stored.length) [] w₂ := by
  let u := s.after (1 + params.length) (passedSlots s.frame.locals params.zipIdx ++ [Value.object o])
  have hargs : popMany params u = .ok (passedValues s.frame.locals 1 params.zipIdx) (u.withStack [.object o]) := by
    have hpop : popMany (params.zipIdx.map Prod.fst) u = .ok _ (u.withStack [.object o]) := popMany_passed rfl
    rwa [List.zipIdx_map_fst] at hpop
  rw [setupCode, performs_load_cons, hthis, hstack, performs_append]
  have hsuper : Performs call body (.invokeSuper superclass params :: storeCode owner (1 + params.length) stored.zipIdx)
      u t ↔ _ := performs_invokeSuper_cons hargs
  have hstore (w₁ : World) : Performs call body (storeCode owner (1 + params.length) stored.zipIdx)
      (beyond u 1 [] w₁) t ↔ _ := performs_storeCode (1 + params.length) stored.zipIdx hthis
  have hbeyond (w₁ w₂ : World) : beyond (beyond u 1 [] w₁) (3 * stored.zipIdx.length) [] w₂
      = beyond s (2 + params.length + 3 * stored.length) [] w₂ := by
    simp only [u, beyond, Running.after, List.length_zipIdx, Running.mk.injEq, Frame.mk.injEq, and_true]
    omega
  have hpassed (w : Running) : Performs call body (passCode params.zipIdx) (s.after 1 [.object o]) w ↔ w = u := by
    rw [performs_passCode, Running.after_after, List.length_zipIdx]
    exact Iff.rfl
  constructor
  · rintro ⟨w, hw, hrest⟩
    obtain rfl := (hpassed w).1 hw
    obtain ⟨w₁, hok, hrest⟩ := hsuper.1 hrest
    obtain ⟨w₂, hstored, rfl⟩ := (hstore w₁).1 hrest
    exact ⟨w₁, w₂, hok, hstored, hbeyond w₁ w₂⟩
  · rintro ⟨w₁, w₂, hok, hstored, rfl⟩
    exact ⟨u, (hpassed u).2 rfl, hsuper.2 ⟨w₁, hok, (hstore w₁).2 ⟨w₂, hstored, (hbeyond w₁ w₂).symm⟩⟩⟩

end Code

/-! ### Running it -/

section Runs

variable {call : Caller} {body : Body} {o : ObjectRef} {owner superclass : String} {params : List Ty}
  {stored : List (String × Ty)} {locals : Array Value}

theorem setupCode_plain {i : Instruction} (hi : i ∈ setupCode owner superclass params stored) :
    Plain (params.length + stored.length + 1) i := by
  obtain ⟨code, hcode, hplain⟩ := constructorCode_plain owner superclass params stored
  rw [constructorCode_eq, List.append_cancel_right_eq] at hcode
  exact hplain i (hcode ▸ hi)

/-- A constructor ends well just where that of the superclass does and the fields can be written. -/
theorem runFrame_constructor [Libraries] (call : Caller) (body : Body)
    (hcode : body.code.instructions.toList = constructorCode owner superclass params stored)
    (hhandlers : body.code.handlers = []) (hthis : locals[0]? = some (Value.object o)) (w : World) :
    (∀ fuel v w', runFrame call body fuel { locals } w = .ok v w' →
      ∃ w₁, superConstructor call superclass params (.object o) (passedValues locals 1 params.zipIdx) w = .ok () w₁ ∧
        Action.storeFields o (storedValues locals (1 + params.length) stored.zipIdx) w₁ = .ok () w') ∧
    ∀ fuel w₁ w', 3 + params.length + 3 * stored.length ≤ fuel →
      superConstructor call superclass params (.object o) (passedValues locals 1 params.zipIdx) w = .ok () w₁ →
      Action.storeFields o (storedValues locals (1 + params.length) stored.zipIdx) w₁ = .ok () w' →
      runFrame call body fuel { locals } w = .ok .nil w' := by
  rw [constructorCode_eq] at hcode
  have hnext : ∀ i ∈ setupCode owner superclass params stored, GoesNext (step call body i) :=
    fun i hi => (setupCode_plain hi).goesNext
  have hperforms (t : Running) : Performs call body (setupCode owner superclass params stored) ⟨{ locals }, w⟩ t ↔ _ :=
    performs_setupCode params stored hthis rfl t
  have hlast : body.code.instructions[(setupCode owner superclass params stored).length]? = some (.ret .void) := by
    rw [← Array.getElem?_toList, hcode, List.getElem?_concat_length]
  -- behind everything else, the constructor returns
  have hreturn (n : Nat) (w' : World) : runFrame call body (n + 1)
      (beyond ⟨{ locals }, w⟩ (2 + params.length + 3 * stored.length) [] w').frame w' = .ok .nil w' := by
    have hpc : (beyond ⟨{ locals }, w⟩ (2 + params.length + 3 * stored.length) [] w').frame.pc
        = (setupCode owner superclass params stored).length := by
      simp [beyond]
    rw [runFrame, hpc, hlast]
    rfl
  refine ⟨fun fuel v w' hrun => ?_, fun fuel w₁ w' hfuel hsuper hstore => ?_⟩
  · obtain ⟨n, t, ht, -, hrun⟩ := performs_of_runFrame (f := { locals }) hcode hnext hhandlers hrun
    obtain ⟨w₁, w₂, hsuper, hstore, rfl⟩ := (hperforms t).1 ht
    cases n with
    | zero => cases hrun
    | succ n =>
      cases (hreturn n w₂).symm.trans hrun
      exact ⟨w₁, hsuper, hstore⟩
  · obtain ⟨n, rfl⟩ := Nat.exists_eq_add_of_le hfuel
    have hperformed := (hperforms _).2 ⟨w₁, w', hsuper, hstore, rfl⟩
    have hrun := runFrame_of_performs (f := { locals }) hcode hnext hperformed (n + 1)
    rw [length_setupCode] at hrun
    rw [show 3 + params.length + 3 * stored.length + n = 2 + params.length + 3 * stored.length + (n + 1) by omega, hrun]
    exact hreturn n w'

end Runs

end LispMachine.Emission
