import LispMachine.Proofs.Machine.Effects
import LispMachine.Proofs.Machine.Travel

/-! # Stretches of code

An instruction moves neither the position nor the locals of its method, the slot of a `store` apart, and
control goes on where the instruction says (`step_ok`, `step_error`).  So code whose branches and handlers
lead back into it confines its runs: a `Stretch` is left at its end only, or by an error that none of its own
handlers takes (`Stretch.run`).  Slots that no instruction of it writes are as they were. -/

namespace LispMachine.Machine

/-! ### What a step leaves alone -/

/-- Position and locals are as they were. -/
def Pinned (s t : Running) : Prop := t.frame.pc = s.frame.pc ∧ t.frame.locals = s.frame.locals

theorem Pinned.trans {s t u : Running} (h : Pinned s t) (h' : Pinned t u) : Pinned s u :=
  ⟨h'.1.trans h.1, h'.2.trans h.2⟩

/-- However it ends, the action leaves position and locals alone; what it gives is as said. -/
def Pins {α : Type} (P : α → Prop) (m : Exec α) : Prop :=
  ∀ s, match m s with
    | .ok a t => P a ∧ Pinned s t
    | .error _ t => Pinned s t

/-- What may follow an instruction. -/
def Follows (i : Instruction) : Step → Prop
  | .next => i.endsBlock = false
  | .jump l => l ∈ i.targets
  | .done _ => ∃ ty, i = .ret ty

section Pins

variable {α β : Type} {P : α → Prop} {Q : β → Prop} {call : Caller}

/-- An action that leaves position and locals alone. -/
abbrev Still (m : Exec α) : Prop := Pins (fun _ => True) m

theorem pins_pure {a : α} (h : P a) : Pins P (pure a : Exec α) := fun _ => ⟨h, rfl, rfl⟩

theorem pins_fail (e : Error) : Pins P (Exec.fail e : Exec α) := fun _ => ⟨rfl, rfl⟩

theorem still_get : Still (get : Exec Running) := fun _ => ⟨trivial, rfl, rfl⟩

theorem Pins.bindWith {m : Exec α} {f : α → Exec β} (hm : Pins P m) (hf : ∀ a, P a → Pins Q (f a)) :
    Pins Q (m >>= f) := by
  intro s
  have hfirst := hm s
  rw [State.bind_eq]
  cases hresult : m s with
  | error e t =>
    rw [hresult] at hfirst
    exact hfirst
  | ok a t =>
    rw [hresult] at hfirst
    have hsecond := hf a hfirst.1 t
    dsimp only
    cases hrest : f a t with
    | ok b u =>
      rw [hrest] at hsecond
      exact ⟨hsecond.1, hfirst.2.trans hsecond.2⟩
    | error e u =>
      rw [hrest] at hsecond
      exact hfirst.2.trans hsecond

theorem Pins.bind {m : Exec α} {f : α → Exec β} (hm : Still m) (hf : ∀ a, Pins Q (f a)) : Pins Q (m >>= f) :=
  hm.bindWith fun a _ => hf a

theorem still_lift (a : Action α) : Still (Exec.lift a) := by
  intro s
  cases hresult : a s.world with
  | ok x w =>
    rw [Exec.lift_of_ok hresult]
    exact ⟨trivial, rfl, rfl⟩
  | error e w =>
    rw [Exec.lift_of_error hresult]
    exact ⟨rfl, rfl⟩

theorem still_pushSlot (v : Value) : Still (pushSlot v) := fun _ => ⟨trivial, rfl, rfl⟩

theorem still_push (v : Value) (ty : Ty) : Still (push v ty) := by
  intro s
  rw [push_eq]
  exact ⟨trivial, rfl, rfl⟩

theorem still_popSlot : Still popSlot := by
  refine still_get.bind fun s => ?_
  split
  · exact fun _ => ⟨trivial, rfl, rfl⟩
  · exact pins_fail _

theorem still_pop (ty : Ty) : Still (pop ty) := by
  unfold pop
  split
  · exact pins_pure trivial
  · exact still_popSlot
  · exact still_popSlot.bind fun _ => still_popSlot

theorem still_popAll (above : List Value) (types : List Ty) : Still (popAll above types) := by
  induction types generalizing above with
  | nil => exact pins_pure trivial
  | cons ty rest ih => exact (still_pop ty).bind fun v => ih (v :: above)

theorem still_popMany (types : List Ty) : Still (popMany types) := still_popAll _ _

theorem still_popSlots (n : Nat) : Still (popSlots n) := by
  refine still_get.bind fun s => ?_
  dsimp only
  split
  · exact pins_fail _
  · exact fun _ => ⟨trivial, rfl, rfl⟩

theorem still_failCast (v : Value) (expected : String) : Pins P (failCast call v expected : Exec α) :=
  (still_lift _).bind fun _ => pins_fail _

theorem still_unbox (v : Value) (p : Prim) : Still (unbox call v p) := by
  unfold unbox
  split
  all_goals first
    | exact pins_pure trivial
    | exact still_failCast _ _

theorem still_registry : Still Exec.registry := still_get.bind fun _ => pins_pure trivial

theorem still_checkClass (v : Value) (cls : String) : Still (checkClass call v cls) := by
  refine still_registry.bind fun r => ?_
  split
  · exact pins_pure trivial
  · exact still_failCast _ _

theorem still_conform (v : Value) (ty : Ty) : Still (conform call v ty) := by
  unfold conform
  split
  · exact still_unbox _ _
  · exact (still_checkClass _ _).bind fun _ => pins_pure trivial
  · exact pins_pure trivial

theorem still_findVar (space name : String) : Still (findVar space name) := by
  refine still_get.bind fun s => ?_
  split
  · exact pins_pure trivial
  · exact pins_fail _

theorem still_popKey : Still popKey := by
  refine (still_pop _).bind fun v => ?_
  split
  · exact pins_pure trivial
  · exact still_get.bind fun _ => pins_fail _

theorem still_popObject : Still (popObject call) := by
  refine still_popSlot.bind fun v => ?_
  split
  · exact pins_pure trivial
  · exact still_failCast _ _

/-- The last part of an instruction that goes on to the next one. -/
theorem Pins.next {i : Instruction} {m : Exec α} (hm : Still m) (hi : i.endsBlock = false) :
    Pins (Follows i) (do let _ ← m; return .next) :=
  hm.bind fun _ => pins_pure hi

/-- An instruction that writes no slot leaves position and locals alone. -/
theorem pins_step [Libraries] (body : Body) {i : Instruction} (hi : ∀ slot ty, i ≠ .store slot ty) :
    Pins (Follows i) (step call body i) := by
  cases i with
  | nop => exact pins_pure rfl
  | const c => exact (still_lift _).bind fun v => (still_push v _).next rfl
  | load slot ty => exact still_get.bind fun s => (still_push _ ty).next rfl
  | store slot ty => exact absurd rfl (hi slot ty)
  | getField owner name ty =>
    exact still_popObject.bind fun o => (still_lift _).bind fun v => (still_push v ty).next rfl
  | putField owner name ty =>
    exact (still_pop ty).bind fun v => still_popObject.bind fun o => (still_lift _).next rfl
  | getStatic owner name ty => exact (still_lift _).bind fun v => (still_push v ty).next rfl
  | varRef space name => exact (still_findVar space name).bind fun v => (still_pushSlot _).next rfl
  | defVar space name flags init =>
    have hrest (value : Option Value) : Pins (Follows (.defVar space name flags init)) (do
        let v ← Exec.lift (Action.change fun w => (w.ensureSpace space).intern space name)
        Exec.lift (modify fun w => w.define v value flags)
        pushSlot (.var v)
        return .next) :=
      (still_lift _).bind fun v => (still_lift _).bind fun _ => (still_pushSlot _).next rfl
    cases init with
    | true => exact Pins.bind (still_popSlot.bind fun v => pins_pure trivial) hrest
    | false => exact hrest none
  | setVar space name =>
    refine still_popSlot.bind fun value => (still_findVar space name).bind fun v => ?_
    exact (still_lift _).bind fun _ => (still_pushSlot value).next rfl
  | invokeDynamic index =>
    unfold step
    dsimp only
    split
    · exact pins_fail _
    · refine (still_popMany _).bind fun args => (still_lift _).bind fun result => ?_
      exact (still_conform _ _).bind fun v => (still_push v _).next rfl
  | invokeSuper owner params =>
    exact (still_popMany params).bind fun args => still_popSlot.bind fun receiver => (still_lift _).next rfl
  | newInstance cls params =>
    exact (still_popMany params).bind fun args => (still_lift _).bind fun v => (still_pushSlot v).next rfl
  | box p => exact (still_pop _).bind fun v => (still_pushSlot v).next rfl
  | unbox p => exact still_popSlot.bind fun v => (still_unbox v p).bind fun v' => (still_push v' _).next rfl
  | convert source target => exact (still_pop _).bind fun v => (still_push _ _).next rfl
  | checkCast cls =>
    exact still_popSlot.bind fun v => (still_checkClass v cls).bind fun _ => (still_pushSlot v).next rfl
  | truthy => exact still_popSlot.bind fun v => (still_pushSlot _).next rfl
  | hashCode => exact still_popSlot.bind fun v => (still_push _ _).next rfl
  | equiv => exact still_popSlot.bind fun b => still_popSlot.bind fun a => (still_pushSlot _).next rfl
  | instanceOf cls =>
    exact still_popSlot.bind fun v => still_registry.bind fun r => (still_pushSlot _).next rfl
  | ifFalse label =>
    refine still_popSlot.bind fun v => ?_
    split
    · exact pins_pure (List.mem_singleton_self label)
    · exact pins_pure rfl
    · exact still_get.bind fun _ => pins_fail _
  | goto label => exact pins_pure (List.mem_singleton_self label)
  | lookupSwitch keys targets default =>
    exact still_popKey.bind fun _ => pins_pure (switchTarget_mem targets default _)
  | tableSwitch low targets default =>
    exact still_popKey.bind fun _ => pins_pure (switchTarget_mem targets default _)
  | makeCollection kind count =>
    exact (still_popSlots _).bind fun items => (still_lift _).bind fun v => (still_pushSlot v).next rfl
  | buildSpliced kind splices =>
    refine (still_popSlots _).bind fun parts => (still_lift _).bind fun items => ?_
    exact (still_lift _).bind fun v => (still_pushSlot v).next rfl
  | switchSpace name => exact (still_lift _).bind fun _ => (still_pushSlot _).next rfl
  | importClass name =>
    refine (still_lift _).bind fun w => Pins.bind ?_ fun _ => (still_pushSlot _).next rfl
    exact fun _ => ⟨trivial, rfl, rfl⟩
  | pop => exact still_popSlot.next rfl
  | pop2 => exact (still_popSlots 2).next rfl
  | dup =>
    refine still_get.bind fun s => ?_
    split
    · exact (still_pushSlot _).next rfl
    · exact pins_fail _
  | throwTop =>
    refine still_popSlot.bind fun v => ?_
    split
    · exact pins_fail _
    · exact pins_fail _
  | ret ty => exact (still_pop ty).bind fun _ => pins_pure ⟨ty, rfl⟩

end Pins

section Steps

variable {call : Caller} {body : Body} {i : Instruction} {s t u : Running} {slot : Nat}

/-- A `store` that ends well has written its slot. -/
theorem store_ok [Libraries] {ty : Ty} {f : Step} (h : step call body (.store slot ty) s = .ok f t) :
    f = .next ∧ ∃ v u, pop ty s = .ok v u ∧ Pinned s u ∧
      t = { u with frame := { u.frame with locals := u.frame.locals.setIfInBounds slot v } } := by
  obtain ⟨v, u, hpop, h⟩ := State.ok_of_bind h
  have hpinned := still_pop ty s
  rw [hpop] at hpinned
  cases h
  exact ⟨rfl, v, u, hpop, hpinned.2, rfl⟩

/-- Where an instruction ends well, control goes on as it says, and only a `store` has written a slot. -/
theorem step_ok [Libraries] {f : Step} (h : step call body i s = .ok f t) :
    Follows i f ∧ t.frame.pc = s.frame.pc ∧ t.frame.locals.size = s.frame.locals.size ∧
      ∀ slot, (∀ ty, i ≠ .store slot ty) → t.frame.locals[slot]? = s.frame.locals[slot]? := by
  by_cases hi : ∃ slot ty, i = .store slot ty
  · obtain ⟨slot, ty, rfl⟩ := hi
    obtain ⟨rfl, v, u, -, ⟨hpc, hlocals⟩, rfl⟩ := store_ok h
    refine ⟨rfl, hpc, by simp [hlocals], fun slot' hslot' => ?_⟩
    have hne : slot ≠ slot' := fun heq => hslot' ty (heq ▸ rfl)
    rw [Array.getElem?_setIfInBounds_ne hne, hlocals]
  · have hpins : Pins (Follows i) (step call body i) := pins_step body fun slot ty heq => hi ⟨slot, ty, heq⟩
    specialize hpins s
    rw [h] at hpins
    obtain ⟨hfollows, hpc, hlocals⟩ := hpins
    exact ⟨hfollows, hpc, by rw [hlocals], fun slot _ => by rw [hlocals]⟩

/-- An instruction that fails has moved nothing but operands. -/
theorem step_error [Libraries] {fault : Fault} (h : step call body i s = .error fault t) : Pinned s t := by
  by_cases hi : ∃ slot ty, i = .store slot ty
  · obtain ⟨slot, ty, rfl⟩ := hi
    rcases State.error_of_bind h with hpop | ⟨v, u, -, h⟩
    · have hpinned := still_pop ty s
      rwa [hpop] at hpinned
    · cases h
  · have hpins : Pins (Follows i) (step call body i) := pins_step body fun slot ty heq => hi ⟨slot, ty, heq⟩
    specialize hpins s
    rwa [h] at hpins

/-- Where control goes on, and what it leaves alone. -/
theorem GoesOn.follows [Libraries] (h : GoesOn call body s t) (hi : body.code.instructions[s.frame.pc]? = some i) :
    (t.frame.pc = s.frame.pc + 1 ∧ i.endsBlock = false ∨
      ∃ l ∈ i.targets, jumpTarget body.code l = .ok t.frame.pc) ∧
    t.frame.locals.size = s.frame.locals.size ∧
      ∀ slot, (∀ ty, i ≠ .store slot ty) → t.frame.locals[slot]? = s.frame.locals[slot]? := by
  cases h with
  | next hi' hs =>
    obtain rfl := Option.some.inj (hi.symm.trans hi')
    obtain ⟨hends, hpc, hsize, hlocals⟩ := step_ok hs
    exact ⟨.inl ⟨congrArg (· + 1) hpc, hends⟩, hsize, hlocals⟩
  | jump hi' hs hpc =>
    obtain rfl := Option.some.inj (hi.symm.trans hi')
    obtain ⟨htarget, -, hsize, hlocals⟩ := step_ok hs
    exact ⟨.inr ⟨_, htarget, hpc⟩, hsize, hlocals⟩

end Steps

/-! ### Errors -/

/-- The instruction fails with an error that can be caught, and the exception of the error has been made. -/
structure Raises [Libraries] (call : Caller) (body : Body) (s : Running) (e : Error) (exception : Value) (t : Running) :
    Prop where
  catchable : e.isCatchable = true
  fails : ∃ i u, body.code.instructions[s.frame.pc]? = some i ∧ step call body i s = .error (.error e) u ∧
    exceptionOf call e u.world = .ok exception t.world ∧ t.frame = u.frame

/-- The running method that a handler goes on with. -/
def Running.handled (s : Running) (h : Handler) (exception : Value) : Running :=
  { s with frame := s.frame.handling h exception }

/-- The handler of a running method for an exception. -/
def Running.handler? (s : Running) (code : Code) (exception : Value) : Option Handler :=
  handlerFor s.world.registry code s.frame.pc exception

section Raises

variable {call : Caller} {body : Body} {s t : Running} {e : Error} {exception : Value}

theorem Raises.pinned [Libraries] (h : Raises call body s e exception t) : Pinned s t := by
  obtain ⟨i, u, -, hs, -, hframe⟩ := h.fails
  have hpinned := step_error hs
  exact ⟨hframe ▸ hpinned.1, hframe ▸ hpinned.2⟩

/-- A method moves on by itself, or by a handler for what an instruction raised. -/
theorem Move.cases [Libraries] (h : Move call body s t) :
    GoesOn call body s t ∨ ∃ e exception u handler, Raises call body s e exception u ∧
      u.handler? body.code exception = some handler ∧ t = u.handled handler exception := by
  cases h with
  | goes h => exact .inl h
  | handled hi hs hunwind =>
    rename_i s' i e f w
    unfold unwind at hunwind
    split at hunwind
    · cases hunwind
    · rename_i hcatchable
      obtain ⟨exception, w₁, hmade, hunwind⟩ := State.ok_of_bind hunwind
      rw [State.bind_of_ok (State.get_eq w₁)] at hunwind
      cases hfind : handlerFor w₁.registry body.code s'.frame.pc exception with
      | none =>
        simp only [hfind] at hunwind
        cases hunwind
      | some handler =>
        simp only [hfind] at hunwind
        cases hunwind
        refine .inr ⟨e, exception, ⟨s'.frame, w⟩, handler, ⟨by simpa using hcatchable, ?_⟩, hfind, rfl⟩
        exact ⟨i, s', hi, hs, hmade, rfl⟩

/-- What a handler takes over moves on. -/
theorem Raises.move [Libraries] {handler : Handler} (h : Raises call body s e exception t)
    (hfound : t.handler? body.code exception = some handler) : Move call body s (t.handled handler exception) := by
  obtain ⟨i, u, hi, hs, hmade, hframe⟩ := h.fails
  refine .handled hi hs ?_
  rw [Running.handler?, hframe] at hfound
  rw [unwind, h.catchable, Bool.not_true, if_neg Bool.false_ne_true, State.bind_of_ok hmade,
    State.bind_of_ok (State.get_eq _)]
  simp only [hfound, hframe]
  rfl

end Raises

/-- A run inside a range of code, by the code itself and by some handlers. -/
inductive Inside [Libraries] (call : Caller) (body : Body) (own : List Handler) (first last : Nat) :
    Running → List Nat → Running → Prop where
  | refl (s : Running) : Inside call body own first last s [] s
  | goes {s t u : Running} {path : List Nat} (hs : first ≤ s.frame.pc ∧ s.frame.pc < last)
      (h : GoesOn call body s t) (hrest : Inside call body own first last t path u) :
      Inside call body own first last s (s.frame.pc :: path) u
  | handled {s t u : Running} {path : List Nat} {e : Error} {exception : Value} {handler : Handler}
      (hs : first ≤ s.frame.pc ∧ s.frame.pc < last) (h : Raises call body s e exception t)
      (hfound : t.handler? body.code exception = some handler) (hown : handler ∈ own)
      (hrest : Inside call body own first last (t.handled handler exception) path u) :
      Inside call body own first last s (s.frame.pc :: path) u

/-! ### Stretches -/

/-- A position in a range, or at the end of it if control gets there. -/
def Reaches (first last : Nat) (ends : Bool) (pc : Nat) : Prop :=
  first ≤ pc ∧ (pc < last ∨ pc = last ∧ ends = true)

/-- Code between two positions that control leaves at its end only, if it gets there, or by an error that none
of its own handlers takes; some slots are not written. -/
structure Stretch (code : Code) (kept : List Nat) (own : List Handler) (first last : Nat) (ends : Bool) :
    Prop where
  enters : Reaches first last ends first
  within : ∀ pc, first ≤ pc → pc < last → ∃ i, code.instructions[pc]? = some i ∧ (∀ ty, i ≠ .ret ty) ∧
    (∀ slot ∈ kept, ∀ ty, i ≠ .store slot ty) ∧ (pc + 1 = last → i.endsBlock = false → ends = true) ∧
    ∀ l ∈ i.targets, ∃ q, jumpTarget code l = .ok q ∧ Reaches first last ends q
  handlers : ∀ h ∈ own, first ≤ h.first ∧ h.last ≤ last ∧ Reaches first last ends h.target

theorem Stretch.mono {code : Code} {kept kept' : List Nat} {own : List Handler} {first last : Nat} {ends : Bool}
    (h : Stretch code kept own first last ends) (hsub : ∀ slot ∈ kept', slot ∈ kept) :
    Stretch code kept' own first last ends where
  enters := h.enters
  within := fun pc hfirst hlast => by
    obtain ⟨i, hi, hret, hstore, hrest⟩ := h.within pc hfirst hlast
    exact ⟨i, hi, hret, fun slot hslot => hstore slot (hsub slot hslot), hrest⟩
  handlers := h.handlers

/-- A run that moves at positions of a range only, and writes none of some slots. -/
structure Stays [Libraries] (call : Caller) (body : Body) (kept : List Nat) (first last : Nat) (s : Running)
    (path : List Nat) (t : Running) : Prop where
  travels : Travels call body s path t
  within : ∀ pc ∈ path, first ≤ pc ∧ pc < last
  size : t.frame.locals.size = s.frame.locals.size
  kept : ∀ slot ∈ kept, t.frame.locals[slot]? = s.frame.locals[slot]?

/-- What becomes of a run that starts in a stretch. -/
inductive Confined [Libraries] (call : Caller) (body : Body) (own : List Handler) (first last : Nat) (ends : Bool)
    (s : Running) : List Nat → Running → Prop where
  | inside {path : List Nat} {t : Running} (h : Inside call body own first last s path t)
      (ht : first ≤ t.frame.pc ∧ t.frame.pc < last) : Confined call body own first last ends s path t
  | arrives {front back : List Nat} {u t : Running} (h : Inside call body own first last s front u)
      (hu : u.frame.pc = last) (hends : ends = true) (hrest : Travels call body u back t) :
      Confined call body own first last ends s (front ++ back) t
  | escapes {front back : List Nat} {u u' t : Running} {e : Error} {exception : Value} {handler : Handler}
      (h : Inside call body own first last s front u) (hu : first ≤ u.frame.pc ∧ u.frame.pc < last)
      (hraises : Raises call body u e exception u') (hfound : u'.handler? body.code exception = some handler)
      (hown : handler ∉ own) (hrest : Travels call body (u'.handled handler exception) back t) :
      Confined call body own first last ends s (front ++ u.frame.pc :: back) t

section Stretches

variable {call : Caller} {body : Body} {kept : List Nat} {own : List Handler} {first last : Nat} {ends : Bool}
  {s t u : Running} {path : List Nat}

theorem Stays.refl [Libraries] (s : Running) : Stays call body kept first last s [] s :=
  ⟨.refl s, by simp, rfl, fun _ _ => rfl⟩

theorem Stays.move [Libraries] (hmove : Move call body s u) (hs : first ≤ s.frame.pc ∧ s.frame.pc < last)
    (hsize : u.frame.locals.size = s.frame.locals.size)
    (hkept : ∀ slot ∈ kept, u.frame.locals[slot]? = s.frame.locals[slot]?)
    (h : Stays call body kept first last u path t) : Stays call body kept first last s (s.frame.pc :: path) t where
  travels := .move hmove h.travels
  within := List.forall_mem_cons.mpr ⟨hs, h.within⟩
  size := h.size.trans hsize
  kept := fun slot hslot => (h.kept slot hslot).trans (hkept slot hslot)

theorem Confined.goes [Libraries] (hgoes : GoesOn call body s u) (hs : first ≤ s.frame.pc ∧ s.frame.pc < last)
    (h : Confined call body own first last ends u path t) :
    Confined call body own first last ends s (s.frame.pc :: path) t := by
  cases h with
  | inside h ht => exact .inside (.goes hs hgoes h) ht
  | arrives h hu hends hrest => exact .arrives (.goes hs hgoes h) hu hends hrest
  | escapes h hu hraises hfound hown hrest => exact .escapes (.goes hs hgoes h) hu hraises hfound hown hrest

theorem Confined.handled [Libraries] {e : Error} {exception : Value} {handler : Handler}
    (hraises : Raises call body s e exception u)
    (hfound : u.handler? body.code exception = some handler) (hown : handler ∈ own)
    (hs : first ≤ s.frame.pc ∧ s.frame.pc < last)
    (h : Confined call body own first last ends (u.handled handler exception) path t) :
    Confined call body own first last ends s (s.frame.pc :: path) t := by
  cases h with
  | inside h ht => exact .inside (.handled hs hraises hfound hown h) ht
  | arrives h hu hends hrest => exact .arrives (.handled hs hraises hfound hown h) hu hends hrest
  | escapes h hu hraises' hfound' hown' hrest =>
    exact .escapes (.handled hs hraises hfound hown h) hu hraises' hfound' hown' hrest

/-- An instruction of a stretch goes on inside it, or to its end. -/
theorem Stretch.goesOn [Libraries] (h : Stretch body.code kept own first last ends)
    (hs : first ≤ s.frame.pc ∧ s.frame.pc < last) (hgoes : GoesOn call body s t) :
    Reaches first last ends t.frame.pc ∧ t.frame.locals.size = s.frame.locals.size ∧
      ∀ slot ∈ kept, t.frame.locals[slot]? = s.frame.locals[slot]? := by
  obtain ⟨i, hi, -, hkept, hnext, htargets⟩ := h.within _ hs.1 hs.2
  obtain ⟨hgoes, hsize, hlocals⟩ := hgoes.follows hi
  refine ⟨?_, hsize, fun slot hslot => hlocals slot (hkept slot hslot)⟩
  rcases hgoes with ⟨hpc, hends⟩ | ⟨l, hl, hpc⟩
  · by_cases hlast : s.frame.pc + 1 = last
    · exact ⟨by omega, .inr ⟨hpc.trans hlast, hnext hlast hends⟩⟩
    · exact ⟨by omega, .inl (by omega)⟩
  · obtain ⟨q, hq, hreaches⟩ := htargets l hl
    rwa [Except.ok.inj (hq.symm.trans hpc)] at hreaches

/-- What a run inside a stretch leaves alone. -/
theorem Stretch.stays [Libraries] (h : Stretch body.code kept own first last ends)
    (hi : Inside call body own first last s path t) :
    Stays call body kept first last s path t := by
  induction hi with
  | refl s => exact .refl s
  | goes hs hgoes _ ih =>
    obtain ⟨-, hsize, hkept⟩ := h.goesOn hs hgoes
    exact .move (.goes hgoes) hs hsize hkept ih
  | handled hs hraises hfound _ _ ih =>
    have hlocals := hraises.pinned.2
    exact .move (hraises.move hfound) hs (congrArg Array.size hlocals)
      (fun slot _ => congrArg (fun locals : Array Value => locals[slot]?) hlocals) ih

/-- A run that starts in a stretch stays there, arrives at its end, or escapes by an error. -/
theorem Stretch.run [Libraries] (h : Stretch body.code kept own first last ends) (ht : Travels call body s path t)
    (hs : Reaches first last ends s.frame.pc) : Confined call body own first last ends s path t := by
  induction ht with
  | refl s =>
    rcases hs with ⟨hfirst, hlast | ⟨hlast, hends⟩⟩
    · exact .inside (.refl s) ⟨hfirst, hlast⟩
    · exact .arrives (.refl s) hlast hends (.refl s)
  | @move s u t path hmove hrest ih =>
    rcases hs with ⟨hfirst, hlast | ⟨hlast, hends⟩⟩
    · rcases hmove.cases with hgoes | ⟨e, exception, u', handler, hraises, hfound, rfl⟩
      · exact .goes hgoes ⟨hfirst, hlast⟩ (ih (h.goesOn ⟨hfirst, hlast⟩ hgoes).1)
      · by_cases hown : handler ∈ own
        · exact .handled hraises hfound hown ⟨hfirst, hlast⟩ (ih (h.handlers handler hown).2.2)
        · have hescapes : Confined call body own first last ends s ([] ++ s.frame.pc :: path) t :=
            .escapes (.refl s) ⟨hfirst, hlast⟩ hraises hfound hown hrest
          exact hescapes
    · have harrives : Confined call body own first last ends s ([] ++ s.frame.pc :: path) t :=
        .arrives (.refl s) hlast hends (.move hmove hrest)
      exact harrives

end Stretches

/-! ### Leaving -/

/-- How control leaves some code: to a position outside, by an error with its exception, or for good. -/
inductive Departure where
  | goes (t : Running)
  | raises (e : Error) (exception : Value)
  | returns (v : Value)

/-- The next instruction leaves a range of code. -/
inductive Departs [Libraries] (call : Caller) (body : Body) (first last : Nat) (s : Running) : Departure → Prop where
  | goes {t : Running} (h : GoesOn call body s t) (hout : ¬(first ≤ t.frame.pc ∧ t.frame.pc < last)) :
      Departs call body first last s (.goes t)
  | raises {e : Error} {exception : Value} {t : Running} (h : Raises call body s e exception t)
      (hout : ∀ handler, t.handler? body.code exception = some handler →
        ¬(first ≤ handler.target ∧ handler.target < last)) :
      Departs call body first last s (.raises e exception)
  | returns {i : Instruction} {v : Value} {t : Running} (hi : body.code.instructions[s.frame.pc]? = some i)
      (hs : step call body i s = .ok (.done v) t) : Departs call body first last s (.returns v)

section Leaving

variable {call : Caller} {body : Body} {kept : List Nat} {own : List Handler} {first last outer outer' : Nat}
  {ends : Bool} {s : Running} {way : Departure}

/-- From inside a stretch control leaves the code around it by an error only. -/
theorem Stretch.departs [Libraries] (h : Stretch body.code kept own first last ends)
    (hs : first ≤ s.frame.pc ∧ s.frame.pc < last) (hfirst : outer ≤ first)
    (hlast : last < outer' ∨ last = outer' ∧ ends = false) (hway : Departs call body outer outer' s way) :
    ∃ e exception t, way = .raises e exception ∧ Raises call body s e exception t ∧
      ∀ handler, t.handler? body.code exception = some handler →
        ¬(outer ≤ handler.target ∧ handler.target < outer') := by
  cases hway with
  | goes hgoes hout =>
    obtain ⟨⟨hpc, hpc'⟩, -⟩ := h.goesOn hs hgoes
    rcases hlast with hlast | ⟨hlast, hends⟩
    · omega
    · rw [hends] at hpc'
      rcases hpc' with hpc' | ⟨-, hends'⟩
      · omega
      · cases hends'
  | raises hraises hout => exact ⟨_, _, _, rfl, hraises, hout⟩
  | returns hi hstep =>
    obtain ⟨i, hi', hret, -⟩ := h.within _ hs.1 hs.2
    obtain rfl := Option.some.inj (hi.symm.trans hi')
    obtain ⟨ty, hty⟩ := (step_ok hstep).1
    exact absurd hty (hret ty)

end Leaving

/-! ### Runs that leave -/

/-- The rest of a run inside a range, and how it leaves the range. -/
structure Passes [Libraries] (call : Caller) (body : Body) (first last : Nat) (s : Running) (path : List Nat)
    (t : Running)
    (way : Departure) : Prop where
  travels : Travels call body s path t
  within : ∀ pc ∈ path, first ≤ pc ∧ pc < last
  stops : first ≤ t.frame.pc ∧ t.frame.pc < last
  departs : Departs call body first last t way

section Passes

variable {call : Caller} {body : Body} {kept : List Nat} {own : List Handler} {first last outer outer' : Nat}
  {ends : Bool} {s t u : Running} {way : Departure} {path front back : List Nat} {i : Instruction} {e : Error}
  {exception : Value}

theorem Passes.inside [Libraries] (h : Passes call body first last s path t way) :
    first ≤ s.frame.pc ∧ s.frame.pc < last := by
  obtain ⟨htravels, hwithin, hstops, -⟩ := h
  cases htravels with
  | refl => exact hstops
  | move hmove hrest => exact hwithin _ (List.mem_cons_self ..)

theorem Passes.rest [Libraries] (h : Passes call body first last s (front ++ back) t way)
    (hrest : Travels call body u back t) : Passes call body first last u back t way :=
  ⟨hrest, fun pc hpc => h.within pc (List.mem_append_right _ hpc), h.stops, h.departs⟩

theorem Move.of_next [Libraries] (hi : body.code.instructions[s.frame.pc]? = some i)
    (hs : step call body i s = .ok .next u) (h : Move call body s t) : t = u.next :=
  h.unique (.goes (.next hi hs))

theorem Move.of_jump [Libraries] {l : Label} {pc : Nat} (hi : body.code.instructions[s.frame.pc]? = some i)
    (hs : step call body i s = .ok (.jump l) u) (hl : jumpTarget body.code l = .ok pc)
    (h : Move call body s t) : t = u.at pc u.frame.stack :=
  h.unique (.goes (.jump hi hs hl))

/-- From an instruction that ends well, a run goes on with what follows it, or leaves the range there. -/
theorem Passes.follow [Libraries] (h : Passes call body first last s path t way) (hmove : Move call body s u)
    (hgoes : ∀ t, Move call body s t → t = u) (hi : body.code.instructions[s.frame.pc]? = some i)
    (hok : ∃ f t, step call body i s = .ok f t ∧ ∀ v, f ≠ .done v) :
    (path = [] ∧ t = s ∧ way = .goes u ∧ ¬(first ≤ u.frame.pc ∧ u.frame.pc < last)) ∨
      ∃ back, path = s.frame.pc :: back ∧ Passes call body first last u back t way := by
  obtain ⟨htravels, hwithin, hstops, hdeparts⟩ := h
  cases htravels with
  | refl =>
    refine .inl ⟨rfl, rfl, ?_⟩
    obtain ⟨f, t, hs, hf⟩ := hok
    cases hdeparts with
    | goes hgo hout =>
      obtain rfl := hgoes _ (.goes hgo)
      exact ⟨rfl, hout⟩
    | raises hraises hout =>
      obtain ⟨i', u', hi', hs', -⟩ := hraises.fails
      obtain rfl := Option.some.inj (hi.symm.trans hi')
      cases hs.symm.trans hs'
    | returns hi' hs' =>
      obtain rfl := Option.some.inj (hi.symm.trans hi')
      obtain ⟨rfl, -⟩ := EStateM.Result.ok.inj (hs.symm.trans hs')
      exact absurd rfl (hf _)
  | move hmove' hrest =>
    obtain rfl := hgoes _ hmove'
    exact .inr ⟨_, rfl, hrest, fun pc hpc => hwithin pc (List.mem_cons_of_mem _ hpc), hstops, hdeparts⟩

theorem Passes.next [Libraries] (h : Passes call body first last s path t way)
    (hi : body.code.instructions[s.frame.pc]? = some i) (hs : step call body i s = .ok .next u) :
    (path = [] ∧ t = s ∧ way = .goes u.next ∧ ¬(first ≤ u.next.frame.pc ∧ u.next.frame.pc < last)) ∨
      ∃ back, path = s.frame.pc :: back ∧ Passes call body first last u.next back t way :=
  h.follow (.goes (.next hi hs)) (fun _ => Move.of_next hi hs) hi ⟨_, _, hs, nofun⟩

theorem Passes.jump [Libraries] {l : Label} {pc : Nat} (h : Passes call body first last s path t way)
    (hi : body.code.instructions[s.frame.pc]? = some i) (hs : step call body i s = .ok (.jump l) u)
    (hl : jumpTarget body.code l = .ok pc) (hpc : first ≤ pc ∧ pc < last) :
    ∃ back, path = s.frame.pc :: back ∧ Passes call body first last (u.at pc u.frame.stack) back t way := by
  rcases h.follow (.goes (.jump hi hs hl)) (fun _ => Move.of_jump hi hs hl) hi ⟨_, _, hs, nofun⟩ with
    ⟨-, -, -, hout⟩ | hrest
  · exact absurd hpc hout
  · exact hrest

/-- An error gets out of a stretch: none of its own handlers takes it. -/
structure Escapes [Libraries] (call : Caller) (body : Body) (kept : List Nat) (own : List Handler) (first last : Nat)
    (s : Running) (path : List Nat) (u : Running) (e : Error) (exception : Value) (t : Running) : Prop where
  stays : Stays call body kept first last s path u
  inside : first ≤ u.frame.pc ∧ u.frame.pc < last
  raises : Raises call body u e exception t
  escapes : ∀ handler, t.handler? body.code exception = some handler → handler ∉ own

/-- A run that starts in a stretch and leaves the code around it arrives at the end of the stretch, or gets out
of it by an error. -/
theorem Stretch.passes [Libraries] (h : Stretch body.code kept own first last ends)
    (hs : Reaches first last ends s.frame.pc)
    (hfirst : outer ≤ first) (hlast : last < outer' ∨ last = outer' ∧ ends = false)
    (hp : Passes call body outer outer' s path t way) :
    (∃ front back u, path = front ++ back ∧ Stays call body kept first last s front u ∧ u.frame.pc = last ∧
      ends = true ∧ Passes call body outer outer' u back t way) ∨
    ∃ front u e exception u', Escapes call body kept own first last s front u e exception u' ∧
      ((path = front ∧ t = u ∧ way = .raises e exception ∧
        ∀ handler, u'.handler? body.code exception = some handler →
          ¬(outer ≤ handler.target ∧ handler.target < outer')) ∨
       ∃ handler back, path = front ++ u.frame.pc :: back ∧ u'.handler? body.code exception = some handler ∧
        Passes call body outer outer' (u'.handled handler exception) back t way) := by
  cases h.run hp.travels hs with
  | inside hin hinside =>
    obtain ⟨e, exception, u', rfl, hraises, hout⟩ := h.departs hinside hfirst hlast hp.departs
    refine .inr ⟨path, t, e, exception, u', ⟨h.stays hin, hinside, hraises, ?_⟩, .inl ⟨rfl, rfl, rfl, hout⟩⟩
    intro handler hfound hown
    obtain ⟨-, -, htarget, htarget'⟩ := h.handlers handler hown
    have hnot := hout handler hfound
    rcases hlast with hlast | ⟨rfl, hends⟩
    · omega
    · rw [hends] at htarget'
      simp only [Bool.false_eq_true, and_false, or_false] at htarget'
      omega
  | @arrives front back u _ hin hu hends hrest =>
    exact .inl ⟨front, back, u, rfl, h.stays hin, hu, hends, hp.rest hrest⟩
  | @escapes front back u u' _ e exception handler hin hu hraises hfound hown hrest =>
    refine .inr ⟨front, u, e, exception, u', ⟨h.stays hin, hu, hraises, ?_⟩, .inr ⟨handler, back, rfl, hfound, ?_⟩⟩
    · intro handler' hfound'
      rwa [Option.some.inj (hfound'.symm.trans hfound)]
    · have hp' : Passes call body outer outer' s ((front ++ [u.frame.pc]) ++ back) t way := by simpa using hp
      exact hp'.rest hrest

end Passes

/-! ### Single instructions -/

/-- The error of throwing an exception once more. -/
def rethrown (exception : Value) : Error :=
  if exception.isNil then Error.runtime "Cannot throw nil" else Error.thrown exception

/-- The method behind a `store` of the top slot. -/
def Running.stored (s : Running) (slot : Nat) (v : Value) (rest : List Value) : Running :=
  { s with frame := ⟨s.frame.pc + 1, rest, s.frame.locals.setIfInBounds slot v⟩ }

section Instructions

variable {call : Caller} {body : Body} {s t : Running} {slot first last : Nat} {e : Error} {exception : Value}
  {path : List Nat} {way : Departure}

theorem popSlot_nil (h : s.frame.stack = []) : popSlot s = .error (.error underflow) s := by
  simp only [popSlot, State.bind_eq, State.get_eq, h]
  rfl

theorem not_goesOn_of_error [Libraries] {i : Instruction} {fault : Fault} {u : Running}
    (hi : body.code.instructions[s.frame.pc]? = some i) (hs : step call body i s = .error fault u) :
    ¬GoesOn call body s t := by
  intro hgoes
  cases hgoes with
  | next hi' hs' =>
    obtain rfl := Option.some.inj (hi.symm.trans hi')
    cases hs.symm.trans hs'
  | jump hi' hs' hpc =>
    obtain rfl := Option.some.inj (hi.symm.trans hi')
    cases hs.symm.trans hs'

/-- Where nothing can be caught, nothing moves. -/
theorem Passes.catchable [Libraries] {i : Instruction} {u : Running} (h : Passes call body first last s path t way)
    (hi : body.code.instructions[s.frame.pc]? = some i) (hs : step call body i s = .error (.error e) u) :
    e.isCatchable = true := by
  have hraised : ∀ e' exception t, Raises call body s e' exception t → e.isCatchable = true := by
    intro e' exception t hraises
    obtain ⟨i', u', hi', hs', -⟩ := hraises.fails
    obtain rfl := Option.some.inj (hi.symm.trans hi')
    obtain ⟨heq, -⟩ := EStateM.Result.error.inj (hs.symm.trans hs')
    cases heq
    exact hraises.catchable
  have hgoes : ∀ t, ¬GoesOn call body s t := fun t => not_goesOn_of_error hi hs
  obtain ⟨htravels, -, -, hdeparts⟩ := h
  cases htravels with
  | refl =>
    cases hdeparts with
    | goes hgo hout => exact absurd hgo (hgoes _)
    | raises hraises hout => exact hraised _ _ _ hraises
    | returns hi' hs' =>
      obtain rfl := Option.some.inj (hi.symm.trans hi')
      cases hs.symm.trans hs'
  | move hmove hrest =>
    rcases hmove.cases with hgo | ⟨e', exception, u', handler, hraises, -, -⟩
    · exact absurd hgo (hgoes _)
    · exact hraised _ _ _ hraises

/-- A `store` takes the top slot; an empty stack is not an error that can be caught. -/
theorem Passes.store [Libraries] (h : Passes call body first last s path t way)
    (hi : body.code.instructions[s.frame.pc]? = some (.store slot .any))
    (hnext : s.frame.pc + 1 < last) :
    ∃ v rest back, s.frame.stack = v :: rest ∧ path = s.frame.pc :: back ∧
      Passes call body first last (s.stored slot v rest) back t way := by
  cases hstack : s.frame.stack with
  | nil =>
    have hfail : step call body (.store slot .any) s = .error (.error underflow) s :=
      State.bind_of_error (popSlot_nil hstack)
    exact absurd (h.catchable hi hfail) (by decide)
  | cons v rest =>
    have hpop : pop .any s = .ok v (s.withStack rest) := popSlot_cons s hstack
    have hs := State.bind_of_ok (f := fun v => do
      Exec.modifyFrame fun f => { f with locals := f.locals.setIfInBounds slot v }
      return Step.next) hpop
    rcases h.next hi hs with ⟨-, -, -, hout⟩ | ⟨back, hpath, hrest⟩
    · exact absurd ⟨Nat.le_succ_of_le h.inside.1, hnext⟩ hout
    · exact ⟨v, rest, back, rfl, hpath, hrest⟩

theorem step_throwTop [Libraries] {v : Value} {rest : List Value} (hstack : s.frame.stack = v :: rest) :
    step call body .throwTop s = .error (.error (rethrown v)) (s.withStack rest) := by
  rw [step, State.bind_of_ok (popSlot_cons s hstack), rethrown]
  cases v.isNil <;> rfl

theorem Raises.handler_covers [Libraries] (h : Raises call body s e exception t) {handler : Handler}
    (hfound : t.handler? body.code exception = some handler) :
    handler ∈ body.code.handlers ∧ handler.covers s.frame.pc = true := by
  have hcovers := List.find?_some hfound
  rw [h.pinned.1, Bool.and_eq_true] at hcovers
  exact ⟨List.mem_of_find?_eq_some hfound, hcovers.1⟩

/-- Throwing the top slot leaves the code, if all handlers in force are outside. -/
theorem Passes.throw [Libraries] {v : Value} {rest : List Value} (h : Passes call body first last s path t way)
    (hi : body.code.instructions[s.frame.pc]? = some .throwTop) (hstack : s.frame.stack = v :: rest)
    (hout : ∀ handler ∈ body.code.handlers, handler.covers s.frame.pc = true →
      ¬(first ≤ handler.target ∧ handler.target < last)) :
    path = [] ∧ t = s ∧ ∃ raised, way = .raises (rethrown v) raised := by
  have hs : step call body .throwTop s = _ := step_throwTop hstack
  have hgoes : ∀ t, ¬GoesOn call body s t := fun t => not_goesOn_of_error hi hs
  obtain ⟨htravels, hwithin, hstops, hdeparts⟩ := h
  cases htravels with
  | refl =>
    refine ⟨rfl, rfl, ?_⟩
    cases hdeparts with
    | goes hgo _ => exact absurd hgo (hgoes _)
    | raises hraises _ =>
      obtain ⟨i', u', hi', hs', -⟩ := hraises.fails
      obtain rfl := Option.some.inj (hi.symm.trans hi')
      obtain ⟨heq, -⟩ := EStateM.Result.error.inj (hs.symm.trans hs')
      cases heq
      exact ⟨_, rfl⟩
    | returns hi' hs' =>
      obtain rfl := Option.some.inj (hi.symm.trans hi')
      cases hs.symm.trans hs'
  | move hmove hrest =>
    rcases hmove.cases with hgo | ⟨e', exception, u', handler, hraises, hfound, rfl⟩
    · exact absurd hgo (hgoes _)
    · obtain ⟨hmem, hcovers⟩ := hraises.handler_covers hfound
      have hrest' : Passes call body first last (u'.handled handler exception) _ t way :=
        ⟨hrest, fun pc hpc => hwithin pc (List.mem_cons_of_mem _ hpc), hstops, hdeparts⟩
      exact absurd hrest'.inside (hout handler hmem hcovers)

end Instructions

end LispMachine.Machine
