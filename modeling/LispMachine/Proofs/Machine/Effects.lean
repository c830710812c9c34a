import LispMachine.Proofs.Machine.Operands
import LispMachine.Proofs.Verifier.Depths

/-! # What an instruction does to its frame

The verifier goes by `Verifier.delta?`; the machine pops and pushes by hand, instruction by instruction.
`step_ends` says that the two agree.  With its operands on the stack, an instruction takes exactly the
slots `delta?` says and leaves exactly those it says; it goes on only if it does not end a block, and
jumps only to one of its labels.  When it fails, all its operands are gone and nothing has been pushed.

The same theorem settles which errors an instruction can raise.  Errors that only broken code runs into
(`Broken`) come from nowhere but other code that the instruction had to run (`Foreign`). -/

namespace LispMachine.Machine

/-! ### Errors of broken code -/

/-- The causes that tell of broken code. -/
inductive Broken : Cause → Prop where
  | underflow : Broken underflow.cause
  | unplacedLabel (l : Label) : Broken (Error.internal ("unplaced label L" ++ toString l)).cause
  | missingSite (i : Nat) : Broken (Error.internal ("missing call site " ++ toString i)).cause
  | pastEnd (pc : Nat) : Broken (Error.internal ("pc " ++ toString pc ++ " past end of code")).cause

/-- What a call, a constructor or a superclass constructor failed with. -/
inductive Foreign (call : Caller) : Cause → Prop where
  | site {index : Nat} {args : List Value} {e : Error} {w w' : World} (hsite : index < w.sites.size)
      (hrun : invokeSite call index args w = .error (.error e) w') : Foreign call e.cause
  | construct {cls : String} {params : List Ty} {args : List Value} {e : Error} {w w' : World}
      (hrun : newInstance call cls params args w = .error (.error e) w') : Foreign call e.cause
  | superclass {owner : String} {params : List Ty} {receiver : Value} {args : List Value} {e : Error}
      {w w' : World}
      (hrun : superConstructor call owner params receiver args w = .error (.error e) w') :
      Foreign call e.cause

/-- A fault that is not the code's own: if it tells of broken code, then of other code. -/
def Excused (call : Caller) (fault : Fault) : Prop :=
  ∀ e, fault = .error e → Broken e.cause → Foreign call e.cause

/-- The letters the messages about broken code start with. -/
theorem Broken.head {kind : ErrorKind} {message : String} (h : Broken (.failure kind message)) :
    kind = .internal ∧ message.toList.head? ∈ [some 'o', some 'u', some 'm', some 'p'] := by
  generalize hc : Cause.failure kind message = c at h
  cases h <;> cases hc <;> simp

variable {call : Caller}

theorem excused_of_head {message : String} (c : Char) (hc : message.toList.head? = some c)
    (h : c ∉ ['o', 'u', 'm', 'p']) : Excused call (.error (Error.internal message)) := by
  intro e he hb
  obtain rfl := Fault.error.inj he
  have hhead := hb.head.2
  rw [hc] at hhead
  exact absurd (by simpa using hhead) h

theorem excused_of_kind {kind : ErrorKind} (message : String) (h : kind ≠ .internal) :
    Excused call (.error (Error.of kind message)) := by
  intro e he hb
  obtain rfl := Fault.error.inj he
  exact absurd hb.head.1 h

theorem excused_thrown (v : Value) : Excused call (.error (Error.thrown v)) := by
  intro e he hb
  obtain rfl := Fault.error.inj he
  generalize hc : (Error.thrown v).cause = c at hb
  cases hb <;> cases hc

theorem excused_outOfFuel : Excused call .outOfFuel := by
  intro e he
  cases he

/-- Whatever goes wrong has nothing to do with broken code. -/
def Mild {α : Type} (x : Except Error α) : Prop := ∀ e, x = .error e → ∀ c, Excused c (.error e)

section Mild

variable {α β : Type}

theorem mild_ok (a : α) : Mild (.ok a : Except Error α) := by
  intro e he
  cases he

theorem mild_error {kind : ErrorKind} (message : String) (h : kind ≠ .internal) :
    Mild (.error (Error.of kind message) : Except Error α) := by
  intro e he c
  obtain rfl := Except.error.inj he
  exact excused_of_kind message h

theorem mild_bind {x : Except Error α} {f : α → Except Error β} (hx : Mild x)
    (hf : ∀ a, Mild (f a)) : Mild (x >>= f) := by
  cases x with
  | error e =>
      intro e' he'
      obtain rfl := Except.error.inj he'
      exact hx e rfl
  | ok a => exact hf a

end Mild

theorem mild_constantValue [Libraries] (w : World) (c : Constant) : Mild (constantValue w c) := by
  unfold constantValue patternValue
  split
  case h_9 | h_10 | h_11 =>
    split
    · exact mild_ok _
    · exact mild_error _ (by decide)
  all_goals exact mild_ok _

theorem mild_slotOf (w : World) (o : ObjectRef) (field : String) : Mild (w.slotOf o field) := by
  unfold World.slotOf
  split
  · exact mild_ok _
  · exact mild_error _ (by decide)

theorem mild_getField (w : World) (o : ObjectRef) (field : String) : Mild (w.getField o field) :=
  mild_bind (mild_slotOf w o field) fun _ => mild_ok _

theorem mild_staticField (r : Registry) (owner name : String) : Mild (staticField r owner name) := by
  unfold staticField
  split
  · exact mild_ok _
  · exact mild_error _ (by decide)

theorem mild_importClass (w : World) (name : String) : Mild (w.importClass name) := by
  unfold World.importClass
  split
  · exact mild_ok _
  · exact mild_error _ (by decide)

theorem mild_buildCollection (kind : CollectionKind) (items : List Value) :
    Mild (buildCollection kind items) := by
  unfold buildCollection
  split
  case h_4 =>
    split
    · exact mild_ok _
    · exact mild_error _ (by decide)
  all_goals exact mild_ok _

theorem mild_spliceItems (vs : List Value) (flags : List Bool) : Mild (spliceItems vs flags) := by
  fun_induction spliceItems vs flags with
  | case1 v vs flags items h ih => exact mild_bind ih fun _ => mild_ok _
  | case2 => exact mild_error _ (by decide)
  | case3 v vs flags ih => exact mild_bind ih fun _ => mild_ok _
  | case4 => exact mild_ok _

/-- The error of a failed cast is a thrown exception, or what making the exception failed with. -/
theorem excused_castError {v : Value} {expected : String} {w w' : World} {e : Error}
    (h : castError call v expected w = .ok e w') : Excused call (.error e) := by
  unfold castError at h
  split at h
  · cases h
    exact excused_thrown _
  · rename_i e' w'' hmake
    cases h
    intro e he _
    obtain rfl := Fault.error.inj he
    exact .construct hmake
  · cases h

theorem excused_castError_fault {v : Value} {expected : String} {w w' : World} {fault : Fault}
    (h : castError call v expected w = .error fault w') : Excused call fault := by
  unfold castError at h
  split at h
  · cases h
  · cases h
  · cases h
    exact excused_outOfFuel

/-! ### Work that leaves the frame alone -/

/-- Leaves the frame as it is, and fails with excused faults only. -/
def Quiet {α : Type} (call : Caller) (x : Exec α) (t : Running) : Prop :=
  match x t with
  | .ok _ t' => t'.frame = t.frame
  | .error fault t' => t'.frame = t.frame ∧ Excused call fault

section Quiet

variable {α β : Type} {t : Running}

theorem quiet_pure (a : α) : Quiet call (pure a) t := rfl

theorem quiet_fail {e : Error} (h : Excused call (.error e)) :
    Quiet call (Exec.fail e : Exec α) t := ⟨rfl, h⟩

theorem quiet_bind {x : Exec α} {f : α → Exec β} (hx : Quiet call x t)
    (hf : ∀ a t', t'.frame = t.frame → Quiet call (f a) t') : Quiet call (x >>= f) t := by
  unfold Quiet at hx ⊢
  rw [State.bind_eq]
  split at hx
  · rename_i a t' h
    rw [h]
    have := hf a t' hx
    unfold Quiet at this
    rwa [hx] at this
  · rename_i fault t' h
    rw [h]
    exact hx

theorem quiet_lift {a : Action α} (h : ∀ fault w', a t.world = .error fault w' → Excused call fault) :
    Quiet call (Exec.lift a) t := by
  unfold Quiet
  cases hr : a t.world with
  | ok x w' => rw [Exec.lift_of_ok hr]
  | error fault w' =>
      rw [Exec.lift_of_error hr]
      exact ⟨rfl, h fault w' hr⟩

theorem quiet_ofExcept {x : Except Error α} (h : Mild x) :
    Quiet call (Exec.lift (Action.ofExcept x)) t := by
  refine quiet_lift ?_
  intro fault w' hr
  cases x with
  | ok a => cases hr
  | error e =>
      cases hr
      exact h e rfl call

theorem quiet_read {g : World → Except Error α} (h : ∀ w, Mild (g w)) :
    Quiet call (Exec.lift (Action.read g)) t := quiet_ofExcept (h t.world)

theorem quiet_get : Quiet call (get : Exec Running) t := rfl

theorem quiet_registry : Quiet call Exec.registry t := rfl

theorem quiet_modify (g : World → World) : Quiet call (Exec.lift (modify g)) t := rfl

theorem quiet_failCast (v : Value) (expected : String) :
    Quiet call (failCast call v expected : Exec α) t := by
  unfold Quiet failCast
  rw [State.bind_eq]
  cases hr : castError call v expected t.world with
  | ok e w' =>
      rw [Exec.lift_of_ok hr]
      exact ⟨rfl, excused_castError hr⟩
  | error fault w' =>
      rw [Exec.lift_of_error hr]
      exact ⟨rfl, excused_castError_fault hr⟩

theorem quiet_unbox (v : Value) (p : Prim) : Quiet call (unbox call v p) t := by
  unfold unbox
  split
  case h_6 => exact quiet_failCast _ _
  all_goals exact quiet_pure _

theorem quiet_checkClass (v : Value) (cls : String) : Quiet call (checkClass call v cls) t := by
  unfold checkClass
  refine quiet_bind (quiet_registry) ?_
  intro r t' _
  split
  · exact quiet_pure _
  · exact quiet_failCast _ _

theorem quiet_conform (v : Value) (ty : Ty) : Quiet call (conform call v ty) t := by
  unfold conform
  split
  · exact quiet_unbox _ _
  · exact quiet_bind (quiet_checkClass _ _) fun _ _ _ => quiet_pure _
  · exact quiet_pure _

theorem quiet_findVar (space name : String) : Quiet call (findVar space name) t := by
  unfold findVar
  refine quiet_bind (quiet_get) ?_
  intro a t' ht'
  split
  · exact quiet_pure _
  · exact quiet_fail (excused_of_kind _ (by decide))

/-- A call through a site that is there. -/
theorem quiet_callSite {body : Body} {i : Nat} {spec : SiteSpec} {args : List Value}
    (h : body.firstSite + i < t.world.sites.size) :
    Quiet call (Exec.lift (callSite call body i spec args)) t := by
  refine quiet_lift ?_
  intro fault w' hr
  unfold callSite at hr
  split at hr
  · rename_i e w'' hrun
    cases hr
    intro e' he' _
    have hcause : e'.cause = e.cause := by
      obtain rfl := Fault.error.inj he'
      cases spec.span with
      | none => rfl
      | some span =>
          simp only [Error.atSpan]
          split <;> rfl
    rw [hcause]
    exact .site h hrun
  · rename_i hrun
    intro e he _
    rw [he] at hr
    exact absurd hr (hrun e w')

end Quiet

/-! ### Instructions -/

/-- From a frame, with `popped` slots gone and `pushed` new ones on top. -/
structure Leaves (f : Frame) (popped pushed : Nat) (f' : Frame) : Prop where
  pc : f'.pc = f.pc
  locals : f'.locals.size = f.locals.size
  stack : ∃ slots, slots.length = pushed ∧ f'.stack = slots ++ f.stack.drop popped

/-- What may come of an instruction that takes `popped` slots of a frame and leaves `pushed`. -/
inductive Ends (call : Caller) (i : Instruction) (popped pushed : Nat) (f : Frame) :
    EStateM.Result Fault Running Step → Prop where
  | next {s : Running} (hends : i.endsBlock = false) (h : Leaves f popped pushed s.frame) :
      Ends call i popped pushed f (.ok .next s)
  | jump {l : Label} {s : Running} (hl : l ∈ i.targets) (h : Leaves f popped pushed s.frame) :
      Ends call i popped pushed f (.ok (.jump l) s)
  | done (v : Value) (s : Running) : Ends call i popped pushed f (.ok (.done v) s)
  | fail {fault : Fault} {s : Running} (h : s.frame = { f with stack := f.stack.drop popped })
      (hfault : Excused call fault) : Ends call i popped pushed f (.error fault s)

section Instructions

variable {α : Type} {i : Instruction} {popped pushed : Nat} {f : Frame} {t : Running}

/-- The operands are taken and nothing is left yet. -/
def Taken (f : Frame) (popped : Nat) (t : Running) : Prop :=
  t.frame = { f with stack := f.stack.drop popped }

theorem taken_drop (s : Running) (n : Nat) : Taken s.frame n (s.drop n) := rfl

theorem taken_zero (s : Running) : Taken s.frame 0 s := rfl

theorem Ends.quiet {x : Exec α} {k : α → Exec Step} (ht : Taken f popped t) (hx : Quiet call x t)
    (hk : ∀ a t', Taken f popped t' → Ends call i popped pushed f (k a t')) :
    Ends call i popped pushed f ((x >>= k) t) := by
  rw [State.bind_eq]
  unfold Quiet at hx
  split at hx
  · rename_i a t' h
    rw [h]
    exact hk a t' (hx.trans ht)
  · rename_i fault t' h
    rw [h]
    exact .fail (hx.1.trans ht) hx.2

theorem Taken.leaves (ht : Taken f popped t) (slots : List Value) :
    Leaves f popped slots.length (t.pushed slots).frame := by
  unfold Taken at ht
  refine ⟨?_, ?_, slots, rfl, ?_⟩ <;> simp [Running.pushed, ht]

theorem Ends.pushNext {v : Value} {ty : Ty} (ht : Taken f popped t) (hends : i.endsBlock = false)
    (hw : ty.width = pushed) :
    Ends call i popped pushed f ((push v ty >>= fun _ => pure Step.next) t) := by
  rw [State.bind_of_ok (push_eq t v ty)]
  have hl := ht.leaves (slotsOf v ty)
  rw [length_slotsOf, hw] at hl
  exact .next hends hl

theorem Ends.pushSlotNext {v : Value} (ht : Taken f popped t) (hends : i.endsBlock = false) :
    Ends call i popped 1 f ((pushSlot v >>= fun _ => pure Step.next) t) := by
  rw [State.bind_of_ok (pushSlot_eq t v)]
  exact .next hends (ht.leaves [v])

theorem Ends.pureNext (ht : Taken f popped t) (hends : i.endsBlock = false) :
    Ends call i popped 0 f ((pure Step.next : Exec Step) t) := .next hends (ht.leaves [])

theorem Ends.pureJump {l : Label} (ht : Taken f popped t) (hl : l ∈ i.targets) :
    Ends call i popped 0 f ((pure (Step.jump l) : Exec Step) t) := .jump hl (ht.leaves [])

/-- The object under a field instruction is taken even if it turns out to be none. -/
theorem popObject_eq (call : Caller) (s : Running) (h : 1 ≤ s.frame.stack.length) :
    ∃ x, popObject call s = x (s.drop 1) ∧ Quiet call x (s.drop 1) := by
  obtain ⟨v, hv⟩ := popSlot_eq s h
  refine ⟨_, State.bind_of_ok hv, ?_⟩
  split
  · exact quiet_pure _
  · exact quiet_failCast _ _

/-- The key of a switch is taken even if it turns out to be no long. -/
theorem popKey_eq (call : Caller) (s : Running) (h : 2 ≤ s.frame.stack.length) :
    ∃ x, popKey s = x (s.drop 2) ∧ Quiet call x (s.drop 2) := by
  obtain ⟨v, hv⟩ := pop_eq s .long h
  refine ⟨_, State.bind_of_ok hv, ?_⟩
  split
  · exact quiet_pure _
  · refine quiet_bind quiet_get ?_
    intro s' t' _
    exact quiet_fail (excused_of_head 's' (by simp) (by decide))

theorem Taken.drop (ht : Taken f popped t) (n : Nat) : Taken f (popped + n) (t.drop n) := by
  unfold Taken at ht ⊢
  simp [Running.drop, Running.withStack, ht, List.drop_drop]

theorem Ends.taking {x : Exec α} {k : α → Exec Step} {n total : Nat} (ht : Taken f popped t)
    (htotal : popped + n = total) (hx : ∃ y, x t = y (t.drop n) ∧ Quiet call y (t.drop n))
    (hk : ∀ a t', Taken f total t' → Ends call i total pushed f (k a t')) :
    Ends call i total pushed f ((x >>= k) t) := by
  subst htotal
  obtain ⟨y, hy, hq⟩ := hx
  have hsame : (x >>= k) t = (y >>= k) (t.drop n) := by rw [State.bind_eq, State.bind_eq, hy]
  rw [hsame]
  exact .quiet (ht.drop n) hq hk

theorem switchTarget_mem (targets : List Label) (default : Label) (position : Option Nat) :
    switchTarget targets default position ∈ targets ++ [default] := by
  unfold switchTarget
  cases h : position.bind fun i => targets[i]? with
  | none => simp
  | some l =>
      obtain ⟨n, -, hn⟩ := Option.bind_eq_some_iff.1 h
      simp [List.mem_of_getElem? hn]

theorem needs_replicate (n : Nat) (push : Option Ty) :
    (Effect.ops (List.replicate n .any) push).needs = n := by
  simp [Effect.needs, Ty.width]

theorem popped_replicate (n : Nat) (push : Option Ty) :
    (Effect.ops (List.replicate n .any) push).popped = n := by
  simp [Effect.popped, Ty.width]

theorem quiet_setField (o : ObjectRef) (name : String) (v : Value) :
    Quiet call (Exec.lift (Action.setField o name v)) t := by
  refine quiet_lift ?_
  intro fault w' hrun
  unfold Action.setField at hrun
  cases hslot : t.world.slotOf o name with
  | error e =>
      rw [State.bind_of_error (Action.read_of_error hslot)] at hrun
      cases hrun
      exact mild_slotOf t.world o name e hslot call
  | ok slot =>
      rw [State.bind_of_ok (Action.read_of_ok hslot)] at hrun
      cases hrun

/-- Defining a var never fails. -/
theorem Ends.defining {space name : String} {value : Option Value} {flags : VarFlags}
    (ht : Taken f popped t) (hends : i.endsBlock = false) :
    Ends call i popped 1 f ((do
      let v ← Exec.lift (Action.change fun w => (w.ensureSpace space).intern space name)
      Exec.lift (modify fun w => w.define v value flags)
      pushSlot (.var v)
      return .next : Exec Step) t) := by
  refine .quiet ht rfl ?_
  intro v t ht
  refine .quiet ht (quiet_modify _) ?_
  intro _ t ht
  exact .pushSlotNext ht hends

end Instructions

/-! ### What each instruction does to the operands

An instruction that finds its operands takes as many slots as its effect says and leaves as many, or fails with an
excused fault.  There is one lemma for each instruction, and `step_ends` puts them together. -/

/-- The machine moves the operands of the instruction just as its effect says. -/
def Moves [Libraries] (call : Caller) (i : Instruction) : Prop :=
  ∀ (body : Body) (s : Running) (effect : Effect), i.effect body.sites = .ok effect →
    effect.needs ≤ s.frame.stack.length → body.firstSite + body.sites.length ≤ s.world.sites.size →
    Ends call i effect.popped effect.pushed s.frame (step call body i s)

section Moves

variable [Libraries] (call : Caller)

theorem moves_nop : Moves call .nop := by
  rintro body s _ ⟨⟩ - -
  exact .pureNext (taken_zero s) rfl

theorem moves_const (c : Constant) : Moves call (.const c) := by
  rintro body s _ ⟨⟩ - -
  refine .quiet (taken_zero s) (quiet_read fun w => mild_constantValue w c) ?_
  intro v t ht
  exact .pushNext ht rfl rfl

theorem moves_load (slot : Nat) (ty : Ty) : Moves call (.load slot ty) := by
  rintro body s _ ⟨⟩ - -
  refine .quiet (taken_zero s) quiet_get ?_
  intro s' t ht
  exact .pushNext ht rfl rfl

theorem moves_store (slot : Nat) (ty : Ty) : Moves call (.store slot ty) := by
  rintro body s _ ⟨⟩ hneeds -
  obtain ⟨v, hv⟩ := pop_eq s ty hneeds
  rw [step, State.bind_of_ok hv]
  exact .next rfl ⟨rfl, by simp [Running.drop], [], rfl, rfl⟩

theorem moves_getField (owner name : String) (ty : Ty) : Moves call (.getField owner name ty) := by
  rintro body s _ ⟨⟩ hneeds -
  refine .taking (taken_zero s) rfl (popObject_eq call s hneeds) ?_
  intro o t ht
  refine .quiet ht (quiet_read fun w => mild_getField w o name) ?_
  intro v t ht
  exact .pushNext ht rfl rfl

theorem moves_putField (owner name : String) (ty : Ty) : Moves call (.putField owner name ty) := by
  rintro body s _ ⟨⟩ hneeds -
  have hsum : 1 + ty.width ≤ s.frame.stack.length := hneeds
  obtain ⟨v, hv⟩ := pop_eq s ty (by omega)
  have hobject := popObject_eq call (s.drop ty.width) (by simp; omega)
  rw [step, State.bind_of_ok hv]
  refine .taking (taken_drop s _) (Nat.add_comm ty.width 1) hobject ?_
  intro o t ht
  refine .quiet ht (quiet_setField o name v) ?_
  intro _ t ht
  exact .pureNext ht rfl

theorem moves_getStatic (owner name : String) (ty : Ty) : Moves call (.getStatic owner name ty) := by
  rintro body s _ ⟨⟩ - -
  refine .quiet (taken_zero s) (quiet_read fun w => mild_staticField _ owner name) ?_
  intro v t ht
  exact .pushNext ht rfl rfl

theorem moves_varRef (space name : String) : Moves call (.varRef space name) := by
  rintro body s _ ⟨⟩ - -
  refine .quiet (taken_zero s) (quiet_findVar space name) ?_
  intro v t ht
  exact .pushSlotNext ht rfl

theorem moves_defVar (space name : String) (flags : VarFlags) (init : Bool) :
    Moves call (.defVar space name flags init) := by
  rintro body s _ ⟨⟩ hneeds -
  cases init with
  | false =>
      refine .quiet (taken_zero s) (quiet_pure none) ?_
      intro value t ht
      exact .defining ht rfl
  | true =>
      obtain ⟨v, hv⟩ := popSlot_eq s hneeds
      have hsome : (do return some (← popSlot) : Exec (Option Value)) s = .ok (some v) (s.drop 1) :=
        State.bind_of_ok hv
      simp only [step, if_true]
      rw [State.bind_of_ok hsome]
      exact .defining (taken_drop s 1) rfl

theorem moves_setVar (space name : String) : Moves call (.setVar space name) := by
  rintro body s _ ⟨⟩ hneeds -
  obtain ⟨value, hvalue⟩ := popSlot_eq s hneeds
  rw [step, State.bind_of_ok hvalue]
  refine .quiet (taken_drop s 1) (quiet_findVar space name) ?_
  intro v t ht
  refine .quiet ht (quiet_modify _) ?_
  intro _ t ht
  exact .pushSlotNext ht rfl

theorem moves_invokeDynamic (n : Nat) : Moves call (.invokeDynamic n) := by
  intro body s effect heffect hneeds hsites
  simp only [Instruction.effect] at heffect
  split at heffect
  · rename_i spec hspec
    cases heffect
    have hlt : n < body.sites.length := (List.getElem?_eq_some_iff.1 hspec).1
    obtain ⟨args, hargs⟩ := popMany_eq s spec.argTypes hneeds
    simp only [step, hspec]
    rw [State.bind_of_ok hargs]
    refine .quiet (taken_drop s _) (quiet_callSite (by simp; omega)) ?_
    intro result t ht
    refine .quiet ht (quiet_conform result spec.ret) ?_
    intro v t ht
    refine .pushNext ht rfl ?_
    simp only [Effect.pushed]
    split
    · rename_i hvoid
      simp [hvoid, Ty.width]
    · rfl
  · cases heffect

theorem moves_invokeSuper (owner : String) (params : List Ty) : Moves call (.invokeSuper owner params) := by
  rintro body s _ ⟨⟩ hneeds -
  have hsum : 1 + (params.map Ty.width).sum ≤ s.frame.stack.length := hneeds
  obtain ⟨args, hargs⟩ := popMany_eq s params (by omega)
  obtain ⟨receiver, hreceiver⟩ := popSlot_eq (s.drop (params.map Ty.width).sum) (by simp; omega)
  rw [step, State.bind_of_ok hargs, State.bind_of_ok hreceiver, Running.drop_drop,
    show Effect.popped (.ops (.any :: params) none) = (params.map Ty.width).sum + 1 from
      Nat.add_comm 1 _]
  refine .quiet (taken_drop s _) (quiet_lift fun fault w' hrun e he _ => ?_) ?_
  · rw [he] at hrun
    exact .superclass hrun
  · intro _ t ht
    exact .pureNext ht rfl

theorem moves_newInstance (cls : String) (params : List Ty) : Moves call (.newInstance cls params) := by
  rintro body s _ ⟨⟩ hneeds -
  obtain ⟨args, hargs⟩ := popMany_eq s params hneeds
  rw [step, State.bind_of_ok hargs]
  refine .quiet (taken_drop s _) (quiet_lift fun fault w' hrun e he _ => ?_) ?_
  · rw [he] at hrun
    exact .construct hrun
  · intro v t ht
    exact .pushSlotNext ht rfl

theorem moves_box (p : Prim) : Moves call (.box p) := by
  rintro body s _ ⟨⟩ hneeds -
  obtain ⟨v, hv⟩ := pop_eq s (.prim p) hneeds
  rw [step, State.bind_of_ok hv]
  exact .pushSlotNext (taken_drop s _) rfl

theorem moves_unbox (p : Prim) : Moves call (.unbox p) := by
  rintro body s _ ⟨⟩ hneeds -
  obtain ⟨v, hv⟩ := popSlot_eq s hneeds
  rw [step, State.bind_of_ok hv]
  refine .quiet (taken_drop s 1) (quiet_unbox v p) ?_
  intro v t ht
  exact .pushNext ht rfl rfl

theorem moves_convert (source target : Prim) : Moves call (.convert source target) := by
  rintro body s _ ⟨⟩ hneeds -
  obtain ⟨v, hv⟩ := pop_eq s (.prim source) hneeds
  rw [step, State.bind_of_ok hv]
  exact .pushNext (taken_drop s _) rfl rfl

theorem moves_checkCast (cls : String) : Moves call (.checkCast cls) := by
  rintro body s _ ⟨⟩ hneeds -
  obtain ⟨v, hv⟩ := popSlot_eq s hneeds
  rw [step, State.bind_of_ok hv]
  refine .quiet (taken_drop s 1) (quiet_checkClass v cls) ?_
  intro _ t ht
  exact .pushSlotNext ht rfl

theorem moves_truthy : Moves call .truthy := by
  rintro body s _ ⟨⟩ hneeds -
  obtain ⟨v, hv⟩ := popSlot_eq s hneeds
  rw [step, State.bind_of_ok hv]
  exact .pushSlotNext (taken_drop s 1) rfl

theorem moves_hashCode : Moves call .hashCode := by
  rintro body s _ ⟨⟩ hneeds -
  obtain ⟨v, hv⟩ := popSlot_eq s hneeds
  rw [step, State.bind_of_ok hv]
  exact .pushNext (taken_drop s 1) rfl rfl

theorem moves_equiv : Moves call .equiv := by
  rintro body s _ ⟨⟩ hneeds -
  have htwo : 2 ≤ s.frame.stack.length := hneeds
  obtain ⟨b, hb⟩ := popSlot_eq s (by omega)
  obtain ⟨a, ha⟩ := popSlot_eq (s.drop 1) (by simp; omega)
  rw [step, State.bind_of_ok hb, State.bind_of_ok ha, Running.drop_drop]
  exact .pushSlotNext (taken_drop s 2) rfl

theorem moves_instanceOf (cls : String) : Moves call (.instanceOf cls) := by
  rintro body s _ ⟨⟩ hneeds -
  obtain ⟨v, hv⟩ := popSlot_eq s hneeds
  rw [step, State.bind_of_ok hv]
  exact .quiet (taken_drop s 1) quiet_registry fun _ t ht => .pushSlotNext ht rfl

theorem moves_ifFalse (label : Label) : Moves call (.ifFalse label) := by
  rintro body s _ ⟨⟩ hneeds -
  obtain ⟨v, hv⟩ := popSlot_eq s hneeds
  rw [step, State.bind_of_ok hv]
  split
  · exact .pureJump (taken_drop s 1) (by simp [Instruction.targets])
  · exact .pureNext (taken_drop s 1) rfl
  · refine .quiet (taken_drop s 1) quiet_get ?_
    intro s' t ht
    exact .fail ht (excused_of_head 'b' (by simp) (by decide))

theorem moves_goto (label : Label) : Moves call (.goto label) := by
  rintro body s _ ⟨⟩ - -
  exact .pureJump (taken_zero s) (by simp [Instruction.targets])

theorem moves_lookupSwitch (keys : List Int64) (targets : List Label) (default : Label) :
    Moves call (.lookupSwitch keys targets default) := by
  rintro body s _ ⟨⟩ hneeds -
  refine .taking (taken_zero s) rfl (popKey_eq call s hneeds) ?_
  intro key t ht
  exact .pureJump ht (switchTarget_mem targets default _)

theorem moves_tableSwitch (low : Int64) (targets : List Label) (default : Label) :
    Moves call (.tableSwitch low targets default) := by
  rintro body s _ ⟨⟩ hneeds -
  refine .taking (taken_zero s) rfl (popKey_eq call s hneeds) ?_
  intro key t ht
  exact .pureJump ht (switchTarget_mem targets default _)

theorem moves_makeCollection (kind : CollectionKind) (count : Nat) : Moves call (.makeCollection kind count) := by
  rintro body s _ ⟨⟩ hneeds -
  rw [needs_replicate] at hneeds
  rw [popped_replicate, step, State.bind_of_ok (popSlots_eq s _ hneeds)]
  refine .quiet (taken_drop s _) (quiet_ofExcept (mild_buildCollection kind _)) ?_
  intro v t ht
  exact .pushSlotNext ht rfl

theorem moves_buildSpliced (kind : CollectionKind) (splices : List Bool) :
    Moves call (.buildSpliced kind splices) := by
  rintro body s _ ⟨⟩ hneeds -
  rw [needs_replicate] at hneeds
  rw [popped_replicate, step, State.bind_of_ok (popSlots_eq s _ hneeds)]
  refine .quiet (taken_drop s _) (quiet_ofExcept (mild_spliceItems _ splices)) ?_
  intro items t ht
  refine .quiet ht (quiet_ofExcept (mild_buildCollection kind items)) ?_
  intro v t ht
  exact .pushSlotNext ht rfl

theorem moves_switchSpace (name : String) : Moves call (.switchSpace name) := by
  rintro body s _ ⟨⟩ - -
  refine .quiet (taken_zero s) (quiet_modify _) ?_
  intro _ t ht
  exact .pushSlotNext ht rfl

theorem moves_importClass (name : String) : Moves call (.importClass name) := by
  rintro body s _ ⟨⟩ - -
  refine .quiet (taken_zero s) (quiet_read fun w => mild_importClass w name) ?_
  intro w t ht
  refine .quiet ht rfl ?_
  intro _ t ht
  exact .pushSlotNext ht rfl

theorem moves_pop : Moves call .pop := by
  rintro body s _ ⟨⟩ hneeds -
  obtain ⟨v, hv⟩ := popSlot_eq s hneeds
  rw [step, State.bind_of_ok hv]
  exact .pureNext (taken_drop s 1) rfl

theorem moves_pop2 : Moves call .pop2 := by
  rintro body s _ ⟨⟩ hneeds -
  rw [step, State.bind_of_ok (popSlots_eq s 2 hneeds)]
  exact .pureNext (taken_drop s 2) rfl

theorem moves_dup : Moves call .dup := by
  rintro body s _ ⟨⟩ hneeds -
  obtain ⟨v, rest, hstack⟩ := List.exists_cons_of_length_pos hneeds
  simp only [step, State.bind_eq, State.get_eq, hstack]
  exact .pushSlotNext (taken_zero s) rfl

theorem moves_throwTop : Moves call .throwTop := by
  rintro body s _ ⟨⟩ hneeds -
  obtain ⟨v, hv⟩ := popSlot_eq s hneeds
  rw [step, State.bind_of_ok hv]
  split
  · exact .fail (taken_drop s 1) (excused_of_kind _ (by decide))
  · exact .fail (taken_drop s 1) (excused_thrown v)

theorem moves_ret (ty : Ty) : Moves call (.ret ty) := by
  rintro body s _ ⟨⟩ hneeds -
  have hwidth : ty.width ≤ s.frame.stack.length := by
    by_cases hvoid : ty = .void
    · simp [hvoid, Ty.width]
    · simpa [Effect.needs, Effect.popped, hvoid] using hneeds
  obtain ⟨v, hv⟩ := pop_eq s ty hwidth
  rw [step, State.bind_of_ok hv]
  exact .done v _

end Moves

/-- The machine moves operands just as the verifier thinks it does. -/
theorem step_ends [Libraries] (call : Caller) {i : Instruction} {popped pushed : Nat} (body : Body) (s : Running)
    (hdelta : Verifier.delta? i body.sites s.frame.stack.length = some (popped, pushed))
    (henough : popped ≤ s.frame.stack.length)
    (hsites : body.firstSite + body.sites.length ≤ s.world.sites.size) :
    Ends call i popped pushed s.frame (step call body i s) := by
  obtain ⟨effect, heffect, hneeds, rfl, rfl⟩ := Verifier.effect_of_delta hdelta henough
  have hmoves : Moves call i := by
    cases i with
    | nop => exact moves_nop call
    | const _ => exact moves_const call _
    | load _ _ => exact moves_load call _ _
    | store _ _ => exact moves_store call _ _
    | getField _ _ _ => exact moves_getField call _ _ _
    | putField _ _ _ => exact moves_putField call _ _ _
    | getStatic _ _ _ => exact moves_getStatic call _ _ _
    | varRef _ _ => exact moves_varRef call _ _
    | defVar _ _ _ _ => exact moves_defVar call _ _ _ _
    | setVar _ _ => exact moves_setVar call _ _
    | invokeDynamic _ => exact moves_invokeDynamic call _
    | invokeSuper _ _ => exact moves_invokeSuper call _ _
    | newInstance _ _ => exact moves_newInstance call _ _
    | box _ => exact moves_box call _
    | unbox _ => exact moves_unbox call _
    | convert _ _ => exact moves_convert call _ _
    | checkCast _ => exact moves_checkCast call _
    | truthy => exact moves_truthy call
    | hashCode => exact moves_hashCode call
    | equiv => exact moves_equiv call
    | instanceOf _ => exact moves_instanceOf call _
    | ifFalse _ => exact moves_ifFalse call _
    | goto _ => exact moves_goto call _
    | lookupSwitch _ _ _ => exact moves_lookupSwitch call _ _ _
    | tableSwitch _ _ _ => exact moves_tableSwitch call _ _ _
    | makeCollection _ _ => exact moves_makeCollection call _ _
    | buildSpliced _ _ => exact moves_buildSpliced call _ _
    | switchSpace _ => exact moves_switchSpace call _
    | importClass _ => exact moves_importClass call _
    | pop => exact moves_pop call
    | pop2 => exact moves_pop2 call
    | dup => exact moves_dup call
    | throwTop => exact moves_throwTop call
    | ret _ => exact moves_ret call _
  exact hmoves body s effect heffect hneeds hsites

end LispMachine.Machine
