import Mathlib.Data.List.Forall2
import LispMachine.Proofs.Emission.Frame
import LispMachine.Proofs.Machine.StraightLine

/-! # What emitted code computes

Emission and execution, joined for code without branches.  `Pushes` says of a stretch of emission that it
appends code which, run by the machine, puts a certain value on the stack, and that the compiler knows the
type of what is on top; `PushesEach` says so of several values in a row.  Boxing what was pushed and imposing
a type on it keep the value or widen it (`Pushes.boxTop`, `Pushes.coerceTop`), and an instruction that takes
all the values of a row puts one in their place (`PushesEach.collect`). -/

namespace LispMachine.Emission

open Form Machine

/-! ### The world -/

/-- The world is as it was, but for remarks on the program. -/
def Remarked (w w' : World) : Prop := w' = { w with warnings := w'.warnings }

theorem Remarked.refl (w : World) : Remarked w w := rfl

theorem Remarked.trans {w₁ w₂ w₃ : World} (h : Remarked w₁ w₂) (h' : Remarked w₂ w₃) : Remarked w₁ w₃ := by
  unfold Remarked at h h' ⊢
  rw [h', h]

/-- An action that, if it ends well, has left the world alone, but for remarks. -/
def Worldly {α : Type} (x : FormM α) : Prop := ∀ ⦃s a t⦄, x s = .ok a t → Remarked s.world t.world

section Worldly

variable {α β : Type}

theorem Worldly.bind {x : FormM α} {f : α → FormM β} (hx : Worldly x) (hf : ∀ a, Worldly (f a)) :
    Worldly (x >>= f) := by
  intro s b t h
  obtain ⟨a, u, hu, h⟩ := State.ok_of_bind h
  exact (hx hu).trans (hf a h)

theorem worldly_pure (a : α) : Worldly (pure a : FormM α) := by
  intro s b t h
  cases h
  rfl

theorem worldly_get : Worldly (get : FormM FormState) := by
  intro s a t h
  cases h
  rfl

theorem worldly_fail (e : Error) : Worldly (FormM.fail e : FormM α) := by
  intro s a t h
  cases h

theorem worldly_ofExcept (x : Except Error α) : Worldly (FormM.ofExcept x) := by
  intro s a t h
  rw [(ofExcept_ok h).2]
  exact .refl _

theorem worldly_modify {f : FormState → FormState} (hf : ∀ s, Remarked s.world (f s).world) :
    Worldly (modify f : FormM Unit) := by
  intro s a t h
  cases h
  exact hf s

theorem worldly_modifyMethod (f : MethodContext → MethodContext) : Worldly (FormM.modifyMethod f) := by
  refine .bind worldly_get fun s => ?_
  split
  · exact worldly_modify fun _ => rfl
  · exact worldly_fail _

theorem worldly_method : Worldly FormM.method := by
  refine .bind worldly_get fun s => ?_
  split
  · exact worldly_pure _
  · exact worldly_fail _

theorem worldly_onCode (f : CodeBuffer → α × CodeBuffer) : Worldly (FormM.onCode f) :=
  .bind worldly_method fun _ => .bind (worldly_modifyMethod _) fun _ => worldly_pure _

theorem worldly_emit (i : Instruction) : Worldly (FormM.emit i) := by
  refine .bind worldly_get fun s => ?_
  split
  · exact worldly_fail _
  · split
    · exact worldly_pure _
    · refine .bind (worldly_ofExcept _) fun e => .bind (worldly_modifyMethod _) fun _ =>
        .bind (worldly_ofExcept _) fun _ => .bind (worldly_modifyMethod _) fun _ => ?_
      split
      · exact worldly_modifyMethod _
      · exact worldly_pure _

theorem worldly_bindName (b : Binding) : Worldly (FormM.bindName b) :=
  .bind worldly_get fun _ => .bind (worldly_ofExcept _) fun _ => worldly_modify fun _ => .refl _

theorem worldly_emitAll (code : List Instruction) : Worldly (FormM.emitAll code) := by
  induction code with
  | nil => exact worldly_pure ()
  | cons i code ih => exact .bind (worldly_emit i) fun _ => ih

end Worldly

/-! ### Code that is appended -/

/-- The method at work has grown by some code, and by labels, and otherwise only the locals it describes have
changed. -/
structure Adds (v v' : View) (code : List Instruction) : Prop where
  methods_ne : v'.methods ≠ []
  outer : v'.methods.tail = v.methods.tail
  items : ∃ items, v'.code.items.toList = v.code.items.toList ++ items ∧ instructionsOf items = code ∧
    holesOf items = []
  handlers : v'.code.handlers = v.code.handlers
  holes : v'.code.holes = v.code.holes

/-- Names and slots are as they were. -/
structure Unmoved (v v' : View) : Prop where
  scopes : v'.scopes = v.scopes
  nextSlot : v'.code.nextSlot = v.code.nextSlot
  freeSlots : v'.code.freeSlots = v.code.freeSlots

section Adds

variable {u v w : View} {xs ys : List Instruction}

theorem Adds.refl (h : v.methods ≠ []) : Adds v v [] := ⟨h, rfl, ⟨[], by simp⟩, rfl, rfl⟩

theorem Adds.trans (h : Adds u v xs) (h' : Adds v w ys) : Adds u w (xs ++ ys) := by
  obtain ⟨items, hitems, hcode, hholes⟩ := h.items
  obtain ⟨items', hitems', hcode', hholes'⟩ := h'.items
  refine ⟨h'.methods_ne, h'.outer.trans h.outer, ⟨items ++ items', ?_, ?_, ?_⟩, h'.handlers.trans h.handlers,
    h'.holes.trans h.holes⟩
  · rw [hitems', hitems, List.append_assoc]
  · rw [instructionsOf_append, hcode, hcode']
  · rw [holesOf_append, hholes, hholes']
    rfl

theorem Adds.length_eq (h : Adds u v xs) (hu : u.methods ≠ []) : v.methods.length = u.methods.length := by
  rw [View.methods_eq h.methods_ne, View.methods_eq hu, h.outer]
  rfl

theorem Unmoved.refl (v : View) : Unmoved v v := ⟨rfl, rfl, rfl⟩

theorem Unmoved.trans (h : Unmoved u v) (h' : Unmoved v w) : Unmoved u w :=
  ⟨h'.scopes.trans h.scopes, h'.nextSlot.trans h.nextSlot, h'.freeSlots.trans h.freeSlots⟩

end Adds

/-- Names appended to the scopes append nothing to the code. -/
theorem adds_scopes {v : View} (hne : v.methods ≠ []) (scopes : Scopes) : Adds v { v with scopes } [] :=
  ⟨hne, rfl, ⟨[], (List.append_nil _).symm, rfl, rfl⟩, rfl, rfl⟩

section Emit

variable {s t : FormState} {u : Unit} {i : Instruction}

/-- An instruction that control gets to and goes on from is appended. -/
theorem adds_emit (hlive : (view s).stack.isUnreachable = false) (hrun : FormM.emit i s = .ok u t) :
    Adds (view s) (view t) [i] ∧ Unmoved (view s) (view t) := by
  rcases emit_run hrun with ⟨hdead, -⟩ | ⟨-, e, stack, -, -, hview⟩
  · rw [hlive] at hdead
    cases hdead
  · rw [hview]
    refine ⟨⟨by simp [View.emitted], by simp [View.emitted], ⟨[.instruction i], ?_, rfl, rfl⟩, rfl, rfl⟩,
      rfl, rfl, rfl⟩
    simp [View.emitted, CodeBuffer.push]

/-- Changing anything else of the code appends nothing. -/
theorem adds_code {v : View} {code : CodeBuffer} {items : List CodeBuffer.Item}
    (hitems : code.items.toList = v.code.items.toList ++ items) (hcode : instructionsOf items = [])
    (hnone : holesOf items = []) (hhandlers : code.handlers = v.code.handlers)
    (hholes : code.holes = v.code.holes) : Adds v (v.update { v.work with code }) [] :=
  ⟨by simp, rfl, ⟨items, hitems, hcode, hnone⟩, hhandlers, hholes⟩

/-- What an instruction with so many operands makes of the records. -/
theorem records_emit {pops : List Ty} {push : Option Ty} {popped base : List StackRecord}
    (hlive : (view s).stack.isUnreachable = false) (hends : i.endsBlock = false)
    (he : i.effect (view s).sites = .ok (.ops pops push)) (hrecords : (view s).stack.records = popped ++ base)
    (hlength : popped.length = pops.length) (hrun : FormM.emit i s = .ok u t) :
    (view t).stack.records = (push.map (StackRecord.typed · false)).toList ++ base := by
  rcases emit_run hrun with ⟨hdead, -⟩ | ⟨-, e, stack, he', happly, hview⟩
  · rw [hlive] at hdead
    cases hdead
  · rw [he] at he'
    cases he'
    obtain ⟨popped', rest, hlength', hrecords', hresult⟩ := records_apply hlive happly
    rw [hrecords] at hrecords'
    have hrest : rest = base := (List.append_inj_right hrecords' (hlength.trans hlength'.symm)).symm
    rw [hrest] at hresult
    rw [hview, View.emitted, View.stack_update, hends]
    exact hresult

theorem records_emit_one {a : Ty} {push : Option Ty} {record : StackRecord} {base : List StackRecord}
    (hlive : (view s).stack.isUnreachable = false) (hends : i.endsBlock = false)
    (he : i.effect (view s).sites = .ok (.ops [a] push)) (hrecords : (view s).stack.records = record :: base)
    (hrun : FormM.emit i s = .ok u t) :
    (view t).stack.records = (push.map (StackRecord.typed · false)).toList ++ base :=
  have hrecords' : (view s).stack.records = [record] ++ base := hrecords
  records_emit hlive hends he hrecords' rfl hrun

theorem live_of_records {records : List StackRecord} (h : (view s).stack.records = records)
    (hlive : StackRecord.unreachable ∉ records) : (view s).stack.isUnreachable = false := by
  simpa [TypeStack.isUnreachable, h] using hlive

theorem unreachable_not_mem (hlive : (view s).stack.isUnreachable = false) :
    StackRecord.unreachable ∉ (view s).stack.records := by
  simpa [TypeStack.isUnreachable] using hlive

end Emit

/-! ### Conversions -/

/-- Instructions that put one value in place of another. -/
def IsConversion : Instruction → Prop
  | .box _ | .unbox _ | .convert .. | .checkCast _ => True
  | _ => False

theorem IsConversion.straight {i : Instruction} (h : IsConversion i) : Straight i := by
  cases i <;> trivial

theorem IsConversion.effect {i : Instruction} (h : IsConversion i) :
    i.endsBlock = false ∧ ∃ a b, ∀ sites, i.effect sites = .ok (.ops [a] (some b)) := by
  cases i <;> first | exact h.elim | exact ⟨rfl, _, _, fun _ => rfl⟩

theorem isConversion_toBoxed {ty : Ty} (hty : ty ≠ .void) : ∀ i ∈ Coercion.toBoxed ty, IsConversion i := by
  cases ty with
  | void => exact absurd rfl hty
  | prim p => exact List.forall_mem_singleton.mpr trivial
  | any => exact List.forall_mem_nil _
  | cls name => exact List.forall_mem_nil _

theorem isConversion_coerce {r : Registry} {source target : Ty} {code : List Instruction}
    (hcode : Coercion.coerce r source target = .ok code) (hsource : source ≠ .void) (htarget : target ≠ .void) :
    ∀ i ∈ code, IsConversion i := by
  unfold Coercion.coerce at hcode
  split at hcode
  · cases hcode
    exact List.forall_mem_nil _
  split at hcode
  · exact absurd rfl htarget
  · exact absurd rfl hsource
  · exact absurd rfl hsource
  · unfold Coercion.betweenPrims at hcode
    split at hcode <;> cases hcode <;> exact List.forall_mem_singleton.mpr trivial
  · cases hcode
    exact List.forall_mem_singleton.mpr trivial
  · unfold Coercion.boxAs at hcode
    split at hcode
    · cases hcode
      exact List.forall_mem_singleton.mpr trivial
    split at hcode
    · cases hcode
      exact List.forall_mem_cons.mpr ⟨trivial, List.forall_mem_singleton.mpr trivial⟩
    · cases hcode
  · split at hcode
    · cases hcode
      exact List.forall_mem_singleton.mpr trivial
    · cases hcode
  · cases hcode
    exact List.forall_mem_nil _
  · unfold Coercion.castTo at hcode
    split at hcode
    · cases hcode
      exact List.forall_mem_nil _
    split at hcode
    · cases hcode
      exact List.forall_mem_singleton.mpr trivial
    · cases hcode

/-- Conversions leave one value in place of another, as wide as the conversion says. -/
theorem emitAll_conversion {s t : FormState} {u : Unit} {code : List Instruction} {a b : Nat}
    (hconversion : Conversion a code b) (hcode : ∀ i ∈ code, IsConversion i) {ty : Ty} {constant : Bool}
    {base : List StackRecord} (hlive : (view s).stack.isUnreachable = false)
    (hne : (view s).methods ≠ [])
    (hrecords : (view s).stack.records = .typed ty constant :: base) (hty : ty.width = a)
    (hrun : FormM.emitAll code s = .ok u t) :
    Adds (view s) (view t) code ∧ Unmoved (view s) (view t) ∧
      ∃ ty' constant', (view t).stack.records = .typed ty' constant' :: base ∧ ty'.width = b := by
  induction hconversion generalizing s ty constant with
  | nil a =>
    cases hrun
    exact ⟨.refl hne, .refl _, ty, constant, hrecords, hty⟩
  | @cons a b c i rest hturns _ hrest ih =>
    obtain ⟨⟨⟩, s₁, h₁, hrun⟩ := State.ok_of_bind hrun
    obtain ⟨hends, x, y, heffect⟩ := (hcode i List.mem_cons_self).effect
    obtain ⟨⟨e, he, -, -, hpushed⟩, -⟩ := hturns
    obtain ⟨hadds, hunmoved⟩ := adds_emit hlive h₁
    have hone := records_emit_one hlive hends (heffect _) hrecords h₁
    have hwidth : y.width = b := by
      have heq := (he []).symm.trans (heffect [])
      cases heq
      simpa [Effect.pushed] using hpushed
    have hlive₁ : (view s₁).stack.isUnreachable = false := by
      refine live_of_records hone ?_
      have hmem := unreachable_not_mem hlive
      rw [hrecords] at hmem
      simpa using hmem
    obtain ⟨hadds', hunmoved', hresult⟩ := ih (fun i hi => hcode i (List.mem_cons_of_mem _ hi)) hlive₁
      hadds.methods_ne hone hwidth hrun
    exact ⟨hadds.trans hadds', hunmoved.trans hunmoved', hresult⟩

/-! ### Code that pushes a value -/

/-- From one state to the other, code was appended that, if it gets to its end, has put a value with a certain
property on the stack, given what is in the slots of locals; the compiler knows the type it is kept as. -/
structure Pushes [Libraries] (locals : Array Value) (s t : FormState) (code : List Instruction) (ty : Ty)
    (P : Value → Prop) : Prop where
  adds : Adds (view s) (view t) code
  unmoved : Unmoved (view s) (view t)
  world : Remarked s.world t.world
  known : ∃ constant, (view t).stack.records = .typed ty constant :: (view s).stack.records
  ne_void : ty ≠ .void
  straight : ∀ i ∈ code, Straight i
  runs : ∀ call body r r', r.frame.locals = locals → Performs call body code r r' →
    ∃ v, P v ∧ r' = r.after code.length (slotsOf v ty ++ r.frame.stack)

section Pushes

variable {locals : Array Value} {s t : FormState} {u : Unit} {code : List Instruction} {ty : Ty}
  {P Q : Value → Prop}

theorem Pushes.live [Libraries] (h : Pushes locals s t code ty P) (hlive : (view s).stack.isUnreachable = false) :
    (view t).stack.isUnreachable = false := by
  obtain ⟨constant, hrecords⟩ := h.known
  exact live_of_records hrecords (by simpa using unreachable_not_mem hlive)

theorem Pushes.topType [Libraries] (h : Pushes locals s t code ty P) : (view t).stack.topType? = some ty := by
  obtain ⟨constant, hrecords⟩ := h.known
  simp [TypeStack.topType?, hrecords]

/-- An instruction that has no operands and whose step is known pushes a value. -/
theorem pushes_emit [Libraries] {i : Instruction} (hlive : (view s).stack.isUnreachable = false)
    (he : ∀ sites, i.effect sites = .ok (.ops [] (some ty))) (hends : i.endsBlock = false) (hty : ty ≠ .void)
    (hstraight : Straight i)
    (hstep : ∀ call body r r', r.frame.locals = locals → Performs call body [i] r r' →
      ∃ v, P v ∧ r' = r.after 1 (slotsOf v ty ++ r.frame.stack))
    (hrun : FormM.emit i s = .ok u t) : Pushes locals s t [i] ty P := by
  obtain ⟨hadds, hunmoved⟩ := adds_emit hlive hrun
  have hrecords := records_emit hlive hends (he _) (List.nil_append _).symm rfl hrun
  exact ⟨hadds, hunmoved, worldly_emit i hrun, ⟨false, hrecords⟩, hty, by simpa using hstraight, hstep⟩

theorem constant_ty_ne_void (c : Constant) : c.ty ≠ .void := by
  cases c with
  | quoted d => cases d <;> nofun
  | _ => nofun

/-- A constant pushes its value, if it has one. -/
theorem pushes_constant [Libraries] {c : Constant} (hlive : (view s).stack.isUnreachable = false)
    (hv : ∀ w v, constantValue w c = .ok v → P v) (hrun : FormM.emitConstant c s = .ok u t) :
    Pushes locals s t [.const c] c.ty P := by
  obtain ⟨⟨⟩, s₁, h₁, hrun⟩ := State.ok_of_bind hrun
  have hpushes : Pushes locals s s₁ [.const c] c.ty P := by
    refine pushes_emit hlive (fun _ => rfl) rfl (constant_ty_ne_void c) (by trivial) ?_ h₁
    intro call body r r' _ hperforms
    obtain ⟨v, hvalue, rfl⟩ := performs_const hperforms
    exact ⟨v, hv _ _ hvalue, rfl⟩
  have hmark := modifyStack_ok hrun
  obtain ⟨constant, hrecords⟩ := hpushes.known
  refine ⟨?_, ?_, ?_, ⟨true, ?_⟩, hpushes.ne_void, hpushes.straight, hpushes.runs⟩
  · rw [hmark]
    exact ⟨by simp, hpushes.adds.outer, hpushes.adds.items, hpushes.adds.handlers, hpushes.adds.holes⟩
  · rw [hmark]
    exact ⟨hpushes.unmoved.scopes, hpushes.unmoved.nextSlot, hpushes.unmoved.freeSlots⟩
  · exact hpushes.world.trans (worldly_modifyMethod _ hrun)
  · rw [hmark, View.stack_update, TypeStack.markConstant, hrecords]

/-- What comes behind a pushed value and puts another in its place. -/
theorem Pushes.turn [Libraries] {s₁ : FormState} {conversion : List Instruction} {ty' : Ty}
    (h : Pushes locals s s₁ code ty P) (hadds : Adds (view s₁) (view t) conversion)
    (hunmoved : Unmoved (view s₁) (view t)) (hworld : Remarked s₁.world t.world)
    (hknown : ∃ constant, (view t).stack.records = .typed ty' constant :: (view s).stack.records)
    (hty : ty' ≠ .void) (hconversion : ∀ i ∈ conversion, IsConversion i)
    (hruns : ∀ call body r r' v rest, P v → r.frame.stack = slotsOf v ty ++ rest →
      Performs call body conversion r r' →
      ∃ v', Q v' ∧ r' = r.after conversion.length (slotsOf v' ty' ++ rest)) :
    Pushes locals s t (code ++ conversion) ty' Q := by
  refine ⟨h.adds.trans hadds, h.unmoved.trans hunmoved, h.world.trans hworld, hknown, hty, ?_, ?_⟩
  · exact List.forall_mem_append.mpr ⟨h.straight, fun i hi => (hconversion i hi).straight⟩
  · intro call body r r' hlocals hperforms
    obtain ⟨r₁, h₁, h₂⟩ := performs_append.mp hperforms
    obtain ⟨v, hv, rfl⟩ := h.runs call body r r₁ hlocals h₁
    obtain ⟨v', hv', rfl⟩ := hruns call body _ r' v _ hv rfl h₂
    exact ⟨v', hv', by rw [Running.after_after, List.length_append]⟩

theorem boxed_width {ty : Ty} (hty : ty ≠ .void) : ty.boxed.width = 1 := by
  cases ty with
  | void => exact absurd rfl hty
  | _ => rfl

/-- Boxing the value on top leaves its boxed type on top. -/
theorem records_toBoxed {constant : Bool} {base : List StackRecord} (hty : ty ≠ .void)
    (hlive : (view s).stack.isUnreachable = false)
    (hrecords : (view s).stack.records = .typed ty constant :: base)
    (hrun : FormM.emitAll (Coercion.toBoxed ty) s = .ok u t) :
    ∃ constant', (view t).stack.records = .typed ty.boxed constant' :: base := by
  cases ty with
  | void => exact absurd rfl hty
  | prim p =>
    obtain ⟨⟨⟩, s₁, h₁, hrun⟩ := State.ok_of_bind hrun
    cases hrun
    have heffect : (Instruction.box p).effect (view s).sites = .ok (.ops [.prim p] (some (.cls p.wrapper))) := rfl
    exact ⟨false, records_emit_one hlive rfl heffect hrecords h₁⟩
  | _ =>
    cases hrun
    exact ⟨constant, hrecords⟩

/-- Boxing what was pushed. -/
theorem Pushes.boxTop [Libraries] {s₁ : FormState} (h : Pushes locals s s₁ code ty P)
    (hlive : (view s).stack.isUnreachable = false) (hrun : FormM.boxTop s₁ = .ok u t) :
    Pushes locals s t (code ++ Coercion.toBoxed ty) ty.boxed P := by
  obtain ⟨top, s₂, h₂, hrun⟩ := State.ok_of_bind hrun
  obtain ⟨rfl, rfl⟩ := topType_ok h₂
  rw [h.topType] at hrun
  obtain ⟨constant, hrecords⟩ := h.known
  have hwidth := boxed_width h.ne_void
  have hconversion := isConversion_toBoxed h.ne_void
  obtain ⟨hadds, hunmoved, -⟩ := emitAll_conversion (toBoxed_conversion ty) hconversion (h.live hlive)
    h.adds.methods_ne hrecords rfl hrun
  have hboxed := records_toBoxed h.ne_void (h.live hlive) hrecords hrun
  refine h.turn hadds hunmoved (worldly_emitAll _ hrun) hboxed ?_ hconversion ?_
  · intro hvoid
    rw [hvoid] at hwidth
    cases hwidth
  · intro call body r r' v rest hv hstack hperforms
    rw [performs_toBoxed h.ne_void hstack hperforms]
    exact ⟨v, hv, by rw [slotsOf_of_width hwidth, List.singleton_append]⟩

/-- Imposing a type on what was pushed widens it, where that makes no number of another kind of it. -/
theorem Pushes.coerceTop [Libraries] {s₁ : FormState} {target : Ty} (h : Pushes locals s s₁ code ty P)
    (hlive : (view s).stack.isUnreachable = false) (htarget : target ≠ .void)
    (hv : ∀ v, P v → Suits target v) (hsame : ∀ v, P v → ty = target → Overload.widen target v = v)
    (hrun : FormM.coerceTop target s₁ = .ok u t) :
    ∃ conversion ty', ty'.width = target.width ∧
      Pushes locals s t (code ++ conversion) ty' fun v => ∃ a, P a ∧ v = Overload.widen target a := by
  obtain ⟨top, s₂, h₂, hrun⟩ := State.ok_of_bind hrun
  obtain ⟨rfl, rfl⟩ := topType_ok h₂
  rw [h.topType] at hrun
  obtain ⟨r, s₂, h₂, hrun⟩ := State.ok_of_bind hrun
  cases h₂
  obtain ⟨conversion, s₂, h₂, hrun⟩ := State.ok_of_bind hrun
  obtain ⟨hcode, rfl⟩ := ofExcept_ok h₂
  obtain ⟨constant, hrecords⟩ := h.known
  have hconversion := isConversion_coerce hcode h.ne_void htarget
  obtain ⟨hadds, hunmoved, ty', constant', hrecords', hwidth⟩ := emitAll_conversion (coerce_conversion hcode)
    hconversion (h.live hlive) h.adds.methods_ne hrecords rfl hrun
  refine ⟨conversion, ty', hwidth,
    h.turn hadds hunmoved (worldly_emitAll _ hrun) ⟨constant', hrecords'⟩ ?_ hconversion ?_⟩
  · rintro rfl
    cases target with
    | void => exact htarget rfl
    | prim p => cases p <;> cases hwidth
    | any => cases hwidth
    | cls name => cases hwidth
  · intro call body r r' v rest hP hstack hperforms
    have hslots : slotsOf (Overload.widen target v) ty' = slotsOf (Overload.widen target v) target := by
      simp only [slotsOf, hwidth]
    refine ⟨_, ⟨v, hP, rfl⟩, ?_⟩
    rw [hslots]
    exact performs_coerce hcode h.ne_void htarget (hv v hP) (hsame v hP) hstack hperforms

theorem Pushes.imp [Libraries] (h : Pushes locals s t code ty P) (hPQ : ∀ v, P v → Q v) :
    Pushes locals s t code ty Q := by
  refine { h with runs := ?_ }
  intro call body r r' hlocals hperforms
  obtain ⟨v, hv, hr'⟩ := h.runs call body r r' hlocals hperforms
  exact ⟨v, hPQ v hv, hr'⟩

/-- Remarks change nothing of what has been pushed. -/
theorem Pushes.remark [Libraries] {s₁ : FormState} (h : Pushes locals s s₁ code ty P) (hview : view t = view s₁)
    (hworld : Remarked s₁.world t.world) : Pushes locals s t code ty P :=
  ⟨hview ▸ h.adds, hview ▸ h.unmoved, h.world.trans hworld, hview ▸ h.known, h.ne_void, h.straight, h.runs⟩

end Pushes

/-! ### Code that pushes several values -/

/-- The slots that values of certain types take, which were pushed one after the other. -/
def slotsOfEach : List Value → List Ty → List Value
  | v :: vs, ty :: tys => slotsOfEach vs tys ++ slotsOf v ty
  | _, _ => []

theorem slotsOfEach_append {vs ws : List Value} {tys tys' : List Ty} (hlength : vs.length = tys.length) :
    slotsOfEach (vs ++ ws) (tys ++ tys') = slotsOfEach ws tys' ++ slotsOfEach vs tys := by
  induction vs generalizing tys with
  | nil =>
    cases List.length_eq_zero_iff.mp hlength.symm
    simp [slotsOfEach]
  | cons v vs ih =>
    cases tys with
    | nil => cases hlength
    | cons ty tys =>
      simp only [List.cons_append, slotsOfEach]
      rw [ih (Nat.succ.inj hlength), List.append_assoc]

theorem slotsOfEach_reverse {vs : List Value} {tys : List Ty} (hlength : vs.length = tys.length)
    (hwidth : ∀ ty ∈ tys, ty.width = 1) : slotsOfEach vs tys = vs.reverse := by
  induction vs generalizing tys with
  | nil => rfl
  | cons v vs ih =>
    cases tys with
    | nil => cases hlength
    | cons ty tys =>
      rw [slotsOfEach, ih (Nat.succ.inj hlength) fun ty hty => hwidth ty (List.mem_cons_of_mem _ hty),
        slotsOf_of_width (hwidth ty List.mem_cons_self), List.reverse_cons]

/-- The record of a value of a type. -/
def Records (ty : Ty) (record : StackRecord) : Prop := ∃ constant, record = .typed ty constant

theorem unreachable_not_recorded {tys : List Ty} {records : List StackRecord}
    (h : List.Forall₂ Records tys records) : StackRecord.unreachable ∉ records := by
  induction h with
  | nil => nofun
  | cons hrecord _ ih =>
    obtain ⟨constant, rfl⟩ := hrecord
    simpa using ih

theorem topTypes_recorded {stack : TypeStack} {tys : List Ty} {records base : List StackRecord}
    (htys : List.Forall₂ Records tys records) (hrecords : stack.records = records.reverse ++ base) :
    stack.topTypes tys.length = .ok tys := by
  have hmap : records.mapM TypeStack.recordType = .ok tys := by
    clear hrecords
    induction htys with
    | nil => rfl
    | cons hrecord _ ih =>
      obtain ⟨constant, rfl⟩ := hrecord
      rw [List.mapM_cons, ih]
      rfl
  have hlength : tys.length = records.reverse.length := by rw [List.length_reverse, htys.length_eq]
  have henough : ¬stack.records.length < tys.length := by
    rw [hrecords, List.length_append]
    omega
  rw [TypeStack.topTypes, if_neg henough, hrecords, hlength, List.take_left, List.reverse_reverse, hmap]

/-- From one state to the other, code was appended that, if it gets to its end, has put values on the stack one
after the other; the compiler knows the types they are kept as. -/
structure PushesEach [Libraries] (locals : Array Value) (s t : FormState) (code : List Instruction) (tys : List Ty)
    (P : List Value → Prop) : Prop where
  adds : Adds (view s) (view t) code
  unmoved : Unmoved (view s) (view t)
  world : Remarked s.world t.world
  known : ∃ records, List.Forall₂ Records tys records ∧
    (view t).stack.records = records.reverse ++ (view s).stack.records
  straight : ∀ i ∈ code, Straight i
  runs : ∀ call body r r', r.frame.locals = locals → Performs call body code r r' →
    ∃ vs, P vs ∧ vs.length = tys.length ∧ r' = r.after code.length (slotsOfEach vs tys ++ r.frame.stack)

section PushesEach

variable {locals : Array Value} {s s₁ t : FormState} {u : Unit} {code code' : List Instruction} {ty : Ty}
  {tys tys' : List Ty} {P Q : List Value → Prop}

theorem PushesEach.none [Libraries] (hne : (view s).methods ≠ []) : PushesEach locals s s [] [] (· = []) := by
  refine ⟨.refl hne, .refl _, rfl, ⟨[], .nil, rfl⟩, List.forall_mem_nil _, ?_⟩
  rintro call body r r' - rfl
  exact ⟨[], rfl, rfl, rfl⟩

theorem Pushes.each [Libraries] {R : Value → Prop} (h : Pushes locals s t code ty R) :
    PushesEach locals s t code [ty] fun vs => ∃ v, R v ∧ vs = [v] := by
  refine ⟨h.adds, h.unmoved, h.world, ?_, h.straight, ?_⟩
  · obtain ⟨constant, hrecords⟩ := h.known
    exact ⟨[.typed ty constant], .cons ⟨constant, rfl⟩ .nil, hrecords⟩
  · intro call body r r' hlocals hperforms
    obtain ⟨v, hv, hr'⟩ := h.runs call body r r' hlocals hperforms
    exact ⟨[v], ⟨v, hv, rfl⟩, rfl, hr'⟩

theorem PushesEach.append [Libraries] (h : PushesEach locals s s₁ code tys P)
    (h' : PushesEach locals s₁ t code' tys' Q) :
    PushesEach locals s t (code ++ code') (tys ++ tys') fun vs => ∃ a b, vs = a ++ b ∧ P a ∧ Q b := by
  refine ⟨h.adds.trans h'.adds, h.unmoved.trans h'.unmoved, h.world.trans h'.world, ?_,
    List.forall_mem_append.mpr ⟨h.straight, h'.straight⟩, ?_⟩
  · obtain ⟨records, htys, hrecords⟩ := h.known
    obtain ⟨records', htys', hrecords'⟩ := h'.known
    refine ⟨records ++ records', List.rel_append htys htys', ?_⟩
    rw [hrecords', hrecords, List.reverse_append, List.append_assoc]
  · intro call body r r' hlocals hperforms
    obtain ⟨r₁, h₁, h₂⟩ := performs_append.mp hperforms
    obtain ⟨a, ha, hlength, rfl⟩ := h.runs call body r r₁ hlocals h₁
    obtain ⟨b, hb, hlength', rfl⟩ := h'.runs call body (r.after _ _) r' hlocals h₂
    refine ⟨a ++ b, ⟨a, b, rfl, ha, hb⟩, by rw [List.length_append, hlength, hlength', List.length_append], ?_⟩
    rw [Running.after_after, List.length_append, Running.after_stack, slotsOfEach_append hlength,
      List.append_assoc]

theorem PushesEach.imp [Libraries] (h : PushesEach locals s t code tys P) (hPQ : ∀ vs, P vs → Q vs) :
    PushesEach locals s t code tys Q := by
  refine { h with runs := ?_ }
  intro call body r r' hlocals hperforms
  obtain ⟨vs, hvs, hr'⟩ := h.runs call body r r' hlocals hperforms
  exact ⟨vs, hPQ vs hvs, hr'⟩

theorem PushesEach.live [Libraries] (h : PushesEach locals s t code tys P)
    (hlive : (view s).stack.isUnreachable = false) :
    (view t).stack.isUnreachable = false := by
  obtain ⟨records, htys, hrecords⟩ := h.known
  refine live_of_records hrecords ?_
  simp only [List.mem_append, List.mem_reverse, not_or]
  exact ⟨unreachable_not_recorded htys, unreachable_not_mem hlive⟩

/-- A row of one value is a value. -/
theorem PushesEach.single [Libraries] (h : PushesEach locals s t code [ty] P) (hty : ty ≠ .void) :
    Pushes locals s t code ty fun v => P [v] := by
  refine ⟨h.adds, h.unmoved, h.world, ?_, hty, h.straight, ?_⟩
  · obtain ⟨records, htys, hrecords⟩ := h.known
    obtain ⟨record, rest, ⟨constant, rfl⟩, hrest, rfl⟩ := List.forall₂_cons_left_iff.mp htys
    cases hrest
    exact ⟨constant, hrecords⟩
  · intro call body r r' hlocals hperforms
    obtain ⟨vs, hvs, hlength, rfl⟩ := h.runs call body r r' hlocals hperforms
    obtain ⟨v, rfl⟩ := List.length_eq_one_iff.mp hlength
    exact ⟨v, hvs, rfl⟩

/-- An instruction that takes all the values puts one in their place. -/
theorem PushesEach.collect [Libraries] {i : Instruction} {pops : List Ty} {R : Value → Prop}
    (h : PushesEach locals s s₁ code tys P) (hlive : (view s).stack.isUnreachable = false)
    (he : ∀ sites, i.effect sites = .ok (.ops pops (some ty))) (hpops : pops.length = tys.length)
    (hends : i.endsBlock = false) (hty : ty ≠ .void) (hstraight : Straight i)
    (hstep : ∀ call body r r' vs rest, P vs → vs.length = tys.length →
      r.frame.stack = slotsOfEach vs tys ++ rest → Performs call body [i] r r' →
      ∃ v, R v ∧ r' = r.after 1 (slotsOf v ty ++ rest))
    (hrun : FormM.emit i s₁ = .ok u t) : Pushes locals s t (code ++ [i]) ty R := by
  obtain ⟨records, htys, hrecords⟩ := h.known
  obtain ⟨hadds, hunmoved⟩ := adds_emit (h.live hlive) hrun
  have hone := records_emit (h.live hlive) hends (he _) hrecords
    (by rw [List.length_reverse, ← htys.length_eq, hpops]) hrun
  refine ⟨h.adds.trans hadds, h.unmoved.trans hunmoved, h.world.trans (worldly_emit i hrun), ⟨false, hone⟩, hty,
    List.forall_mem_append.mpr ⟨h.straight, by simpa using hstraight⟩, ?_⟩
  intro call body r r' hlocals hperforms
  obtain ⟨r₁, h₁, h₂⟩ := performs_append.mp hperforms
  obtain ⟨vs, hvs, hlength, rfl⟩ := h.runs call body r r₁ hlocals h₁
  obtain ⟨v, hv, rfl⟩ := hstep call body _ r' vs _ hvs hlength rfl h₂
  exact ⟨v, hv, by rw [Running.after_after, List.length_append]; rfl⟩

end PushesEach

/-! ### Code that stores values -/

/-- From one state to the other, code was appended that, if it gets to its end, has left the operands as they
were and put other values into the slots of locals. -/
structure Stores [Libraries] (locals locals' : Array Value) (s t : FormState) (code : List Instruction) : Prop where
  adds : Adds (view s) (view t) code
  world : Remarked s.world t.world
  records : (view t).stack.records = (view s).stack.records
  straight : ∀ i ∈ code, Straight i
  runs : ∀ call body r r', r.frame.locals = locals → Performs call body code r r' →
    r' = r.storing code.length locals'

section Stores

variable {locals locals' locals'' : Array Value} {s s₁ t : FormState} {u : Unit} {code code' : List Instruction}
  {ty : Ty} {P : Value → Prop}

theorem Stores.refl [Libraries] (hne : (view s).methods ≠ []) (locals : Array Value) : Stores locals locals s s [] := by
  refine ⟨.refl hne, .refl _, rfl, List.forall_mem_nil _, ?_⟩
  rintro call body r r' rfl rfl
  rfl

theorem Stores.trans [Libraries] (h : Stores locals locals' s s₁ code) (h' : Stores locals' locals'' s₁ t code') :
    Stores locals locals'' s t (code ++ code') := by
  refine ⟨h.adds.trans h'.adds, h.world.trans h'.world, h'.records.trans h.records,
    List.forall_mem_append.mpr ⟨h.straight, h'.straight⟩, ?_⟩
  intro call body r r' hlocals hperforms
  obtain ⟨r₁, h₁, h₂⟩ := performs_append.mp hperforms
  obtain rfl := h.runs call body r r₁ hlocals h₁
  rw [h'.runs call body _ r' rfl h₂, Running.storing_storing, List.length_append]

/-- What appends no instruction and leaves the operands alone changes nothing of what code does. -/
theorem Stores.still [Libraries] (h : Stores locals locals' s s₁ code) (hadds : Adds (view s₁) (view t) [])
    (hstack : (view t).stack = (view s₁).stack) (hworld : Remarked s₁.world t.world) :
    Stores locals locals' s t code :=
  ⟨by simpa using h.adds.trans hadds, h.world.trans hworld, by rw [hstack, h.records], h.straight, h.runs⟩

theorem Stores.live [Libraries] (h : Stores locals locals' s t code) (hlive : (view s).stack.isUnreachable = false) :
    (view t).stack.isUnreachable = false :=
  live_of_records h.records (unreachable_not_mem hlive)

theorem allocSlot_same (b : CodeBuffer) : b.allocSlot.2.items = b.items ∧ b.allocSlot.2.handlers = b.handlers ∧
    b.allocSlot.2.holes = b.holes := by
  unfold CodeBuffer.allocSlot
  split <;> exact ⟨rfl, rfl, rfl⟩

/-- A value that was pushed is put into a slot. -/
theorem Pushes.store [Libraries] {a : Value} {slot : Nat} {ty' : Ty} (h : Pushes locals s s₁ code ty' (· = a))
    (hlive : (view s).stack.isUnreachable = false) (hty : ty ≠ .void) (hwidth : ty'.width = ty.width)
    (hrun : storeLocal ty s₁ = .ok slot t) :
    Stores locals (locals.setIfInBounds slot a) s t (code ++ [Instruction.store slot ty]) ∧
      (view t).scopes = (view s).scopes ∧ slot = (view s₁).code.allocSlot.1 ∧
      (view t).code.nextSlot = (view s₁).code.allocSlot.2.nextSlot ∧
      (view t).code.freeSlots = (view s₁).code.allocSlot.2.freeSlots := by
  obtain ⟨n, s₂, h₂, hrun⟩ := State.ok_of_bind hrun
  obtain ⟨⟨⟩, s₃, h₃, hrun⟩ := State.ok_of_bind hrun
  cases hrun
  obtain ⟨rfl, hview⟩ := onCode_ok h₂
  obtain ⟨constant, hrecords⟩ := h.known
  have halloc : Adds (view s₁) (view s₂) [] := by
    rw [hview]
    obtain ⟨hitems, hhandlers, hholes⟩ := allocSlot_same (view s₁).code
    exact adds_code (by rw [hitems, List.append_nil]) rfl rfl hhandlers hholes
  have hlive₂ : (view s₂).stack.isUnreachable = false := by
    rw [hview]
    exact h.live hlive
  have hrecords₂ : (view s₂).stack.records = .typed ty' constant :: (view s).stack.records := by
    rw [hview]
    exact hrecords
  obtain ⟨hadds, hunmoved⟩ := adds_emit hlive₂ h₃
  have hback := records_emit_one hlive₂ rfl (a := ty) rfl hrecords₂ h₃
  refine ⟨⟨?_, h.world.trans ((worldly_onCode _ h₂).trans (worldly_emit _ h₃)), hback,
    List.forall_mem_append.mpr ⟨h.straight, by simp [Straight]⟩, ?_⟩, ?_, rfl, ?_, ?_⟩
  · simpa using (h.adds.trans halloc).trans hadds
  · rintro call body r r' rfl hperforms
    obtain ⟨r₁, h₁, h₂⟩ := performs_append.mp hperforms
    obtain ⟨v, rfl, rfl⟩ := h.runs call body r r₁ rfl h₁
    have hslots : (r.after code.length (slotsOf v ty' ++ r.frame.stack)).frame.stack
        = slotsOf v ty ++ r.frame.stack := by
      simp only [Running.after_stack, slotsOf, hwidth]
    rw [performs_store (width_ne_zero hty) hslots h₂, List.length_append]
    rfl
  · rw [hunmoved.scopes, hview]
    exact h.unmoved.scopes
  · rw [hunmoved.nextSlot, hview]
    rfl
  · rw [hunmoved.freeSlots, hview]
    rfl

/-- An instruction that takes a value off the stack. -/
theorem Pushes.dropBy [Libraries] {i : Instruction} {popped : Ty} (h : Pushes locals s s₁ code ty P)
    (hlive : (view s).stack.isUnreachable = false) (hi : Coercion.discard ty = [i])
    (he : ∀ sites, i.effect sites = .ok (.ops [popped] none)) (hends : i.endsBlock = false)
    (hstraight : Straight i) (hrun : FormM.emit i s₁ = .ok u t) :
    Stores locals locals s t (code ++ [i]) ∧ Unmoved (view s) (view t) := by
  obtain ⟨constant, hrecords⟩ := h.known
  obtain ⟨hadds, hunmoved⟩ := adds_emit (h.live hlive) hrun
  have hback := records_emit_one (h.live hlive) hends (he _) hrecords hrun
  refine ⟨⟨h.adds.trans hadds, h.world.trans (worldly_emit _ hrun), hback,
    List.forall_mem_append.mpr ⟨h.straight, by simpa using hstraight⟩, ?_⟩, h.unmoved.trans hunmoved⟩
  rintro call body r r' rfl hperforms
  obtain ⟨r₁, h₁, h₂⟩ := performs_append.mp hperforms
  obtain ⟨v, -, rfl⟩ := h.runs call body r r₁ rfl h₁
  rw [← hi] at h₂ ⊢
  rw [performs_discard (length_slotsOf _ _) (Running.after_stack ..) h₂, Running.after_after, List.length_append]
  rfl

/-- A value that was pushed is dropped. -/
theorem Pushes.drop [Libraries] (h : Pushes locals s s₁ code ty P) (hlive : (view s).stack.isUnreachable = false)
    (hrun : FormM.popValue s₁ = .ok u t) :
    ∃ code', Stores locals locals s t code' ∧ Unmoved (view s) (view t) := by
  obtain ⟨top, s₂, h₂, hrun⟩ := State.ok_of_bind hrun
  obtain ⟨rfl, rfl⟩ := topType_ok h₂
  rw [h.topType, Option.map_some] at hrun
  rcases width_cases ty with hwidth | hwidth | hwidth <;> rw [hwidth] at hrun
  · exact absurd hwidth (width_ne_zero h.ne_void)
  · exact ⟨_, h.dropBy hlive (by simp [Coercion.discard, hwidth]) (fun _ => rfl) rfl (by trivial) hrun⟩
  · exact ⟨_, h.dropBy hlive (by simp [Coercion.discard, hwidth]) (fun _ => rfl) rfl (by trivial) hrun⟩

/-- Code that stores, and then code that pushes a value. -/
theorem Stores.pushes [Libraries] (h : Stores locals locals s s₁ code) (hunmoved : Unmoved (view s) (view s₁))
    (h' : Pushes locals s₁ t code' ty P) : Pushes locals s t (code ++ code') ty P := by
  refine ⟨h.adds.trans h'.adds, hunmoved.trans h'.unmoved, h.world.trans h'.world, ?_, h'.ne_void,
    List.forall_mem_append.mpr ⟨h.straight, h'.straight⟩, ?_⟩
  · rw [← h.records]
    exact h'.known
  · rintro call body r r' hlocals hperforms
    obtain ⟨r₁, h₁, h₂⟩ := performs_append.mp hperforms
    obtain rfl := h.runs call body r r₁ hlocals h₁
    obtain ⟨v, hv, rfl⟩ := h'.runs call body _ r' rfl h₂
    refine ⟨v, hv, ?_⟩
    subst hlocals
    rw [List.length_append, Running.after_storing]
    rfl

end Stores

/-! ### Around forms -/

section Around

variable {s t : FormState} {tail : Bool}

/-- The code of a form is emitted, where there is a method to emit it to. -/
theorem emitForm_ok {d : Datum} {code : FormM Unit} {u : Unit} (hrun : emitForm d code s = .ok u t) :
    (view s).methods ≠ [] ∧ code s = .ok () t := by
  obtain ⟨before, s₁, h₁, hrun⟩ := State.ok_of_bind hrun
  obtain ⟨rfl, -, hne⟩ := stack_ok h₁
  obtain ⟨⟨⟩, s₃, h₃, hrun⟩ := State.ok_of_bind hrun
  obtain ⟨stack', s₄, h₄, hrun⟩ := State.ok_of_bind hrun
  obtain ⟨rfl, -⟩ := stack_ok h₄
  split at hrun
  · cases hrun
    exact ⟨hne, atSpan_ok h₃⟩
  · cases hrun

/-- Work in or out of tail position changes what it changes, and nothing more. -/
theorem withTail_run {α : Type} {m : FormM α} {a : α} (hrun : FormM.withTail tail m s = .ok a t) :
    ∃ t₁, m { s with tail } = .ok a t₁ ∧ t = { t₁ with tail := s.tail } := by
  obtain ⟨s', s₁, h₁, hrun⟩ := State.ok_of_bind hrun
  cases h₁
  obtain ⟨⟨⟩, s₁, h₁, hrun⟩ := State.ok_of_bind hrun
  cases h₁
  exact andFinally_ok hrun

/-- Tail position is nothing that a pushed value depends on. -/
theorem Pushes.outOfTail [Libraries] {t₁ : FormState} {locals : Array Value} {code : List Instruction} {ty : Ty}
    {P : Value → Prop} (h : Pushes locals { s with tail } t₁ code ty P) :
    Pushes locals s { t₁ with tail := s.tail } code ty P :=
  ⟨⟨h.adds.methods_ne, h.adds.outer, h.adds.items, h.adds.handlers, h.adds.holes⟩,
    ⟨h.unmoved.scopes, h.unmoved.nextSlot, h.unmoved.freeSlots⟩, h.world, h.known, h.ne_void, h.straight, h.runs⟩

theorem PushesEach.outOfTail [Libraries] {t₁ : FormState} {locals : Array Value} {code : List Instruction}
    {tys : List Ty}
    {P : List Value → Prop} (h : PushesEach locals { s with tail } t₁ code tys P) :
    PushesEach locals s { t₁ with tail := s.tail } code tys P :=
  ⟨⟨h.adds.methods_ne, h.adds.outer, h.adds.items, h.adds.handlers, h.adds.holes⟩,
    ⟨h.unmoved.scopes, h.unmoved.nextSlot, h.unmoved.freeSlots⟩, h.world, h.known, h.straight, h.runs⟩

end Around

end LispMachine.Emission
