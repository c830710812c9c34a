import LispMachine.Proofs.Emission.Balance
import LispMachine.Proofs.Emission.Verified
import LispMachine.Proofs.Slots.Forms

/-! # The slots of a method

A method starts with the slots of its receiver and its parameters in use and no others.  Its fields and its receiver are
bound to none of them, its parameters take theirs over, and its body puts the slots back as every form does. -/

namespace LispMachine.Slots

open Form Emission
open CodeBuffer (Transfer)

/-! ### The start of a method -/

section Start

variable {v : View} {p : MethodPlan}

/-- The slots of the receiver and the parameters. -/
def reservedSlots (p : MethodPlan) : Nat := p.params.length + p.firstSlot

/-- The slots of the parameters come behind that of the receiver. -/
def heldAtStart (p : MethodPlan) : Holding := ⟨[], List.range' p.firstSlot p.params.length⟩

theorem live_heldAtStart (p : MethodPlan) : (heldAtStart p).live p.firstSlot = List.range (reservedSlots p) := by
  rw [reservedSlots, Nat.add_comm, List.range_eq_range', ← List.range'_append_1, Nat.zero_add, ← List.range_eq_range']
  rfl

theorem account_start (reserved : Nat) : Account reserved (List.range reserved) (.withReserved reserved) where
  orderly := .start
  pool := ⟨rfl, rfl⟩
  users := .refl _
  placed := nofun
  named := fun j i n hj => by simp [CodeBuffer.withReserved] at hj
  within := ⟨nofun, nofun, nofun⟩

/-- Where a method is compiled that is started from a view. -/
def methodScene (p : MethodPlan) (hlevels : Levelled v) : Scene where
  level := v.methods.length + 1
  first := p.firstSlot
  reserved := reservedSlots p
  kept := List.range (reservedSlots p)
  outer := v.scopes.frames
  below := fun f hf => Nat.lt_succ_of_le (hlevels f hf)
  covered := fun _ hn => List.mem_range.2 hn

theorem at_entered (hlevels : Levelled v) (hself : SelfContained v p) (owner : Nat) :
    At (methodScene p hlevels) (heldAtStart p) (v.entered (freshContext owner p)) where
  working := List.cons_ne_nil _ _
  level := rfl
  scopes := rfl
  own := nofun
  reached := hself.imp firstSlot_pos fun ⟨hframes, _⟩ => ⟨hframes, nofun⟩
  loops := nofun
  covers := fun n hn => (live_heldAtStart p).symm ▸ (hn : n ∈ List.range (reservedSlots p))
  account := (live_heldAtStart p).symm ▸ account_start (reservedSlots p)

end Start

/-! ### The body of a method -/

section Body

variable {S : Scene} {C : Holding} {f : ScopeFrame} {frames : List ScopeFrame} {held : List Nat} {h : Handlers}
  {p : MethodPlan} {cls : String}

def fieldBinding (f : FieldBinding) : Binding := ⟨f.name, f.ty, .field f.name, none, f.isMutable⟩

def receiverBinding (cls name : String) : Binding := ⟨name, .cls cls, .this, none, false⟩

/-- What is reached through the receiver, and the receiver. -/
def receiverBindings (cls : String) (p : MethodPlan) : List Binding :=
  p.fields.map fieldBinding ++ p.receiver.toList.map (receiverBinding cls)

def paramBinding (q : String × Nat × Ty) : Binding := .inSlot q.1 q.2.2 q.2.1

theorem boundAll_append (bs bs' : List Binding) (f : ScopeFrame) :
    boundAll (bs ++ bs') f = boundAll bs' (boundAll bs f) := by
  simp [boundAll]

theorem localSlots_fields (fields : List FieldBinding) : localSlots (fields.map fieldBinding) = [] := by
  simp [localSlots, fieldBinding]

/-- Neither the fields nor the receiver are in slots of their own. -/
theorem tracks_bindReceiver (hreached : 0 < S.first ∨ p.fields = [] ∧ p.receiver = none) :
    Tracks S ⟨f :: frames, held⟩ (fun _ => ⟨boundAll (receiverBindings cls p) f :: frames, held⟩) (fun _ => True)
      (bindReceiver cls p) := by
  have hslots : ∀ x ∈ p.fields, 0 < S.first ∨ ∃ n, (fieldBinding x).slot = .local n :=
    fun x hx => hreached.imp_right fun ⟨hnone, _⟩ => by simp [hnone] at hx
  have hfields : Tracks S ⟨f :: frames, localSlots (p.fields.map fieldBinding) ++ held⟩
      (fun _ => ⟨boundAll (p.fields.map fieldBinding) f :: frames, held⟩) (fun _ => True)
      (p.fields.forM fun f => FormM.bindName (fieldBinding f)) := tracks_bindAll hslots
  rw [localSlots_fields, List.nil_append] at hfields
  rw [receiverBindings, boundAll_append]
  refine hfields.bind fun _ _ => ?_
  cases hreceiver : p.receiver with
  | none => exact tracks_pure trivial rfl
  | some name =>
    have hslot : 0 < S.first ∨ ∃ n, (receiverBinding cls name).slot = .local n :=
      hreached.imp_right fun ⟨_, hnone⟩ => by cases hnone.symm.trans hreceiver
    exact tracks_bindName hslot

theorem slots_params (p : MethodPlan) :
    localSlots (p.slots.map paramBinding) = List.range' p.firstSlot (p.paramNames.zip p.params).length := by
  have hslots : localSlots (p.slots.map paramBinding) = p.slots.map fun q => q.2.1 := by
    simp [localSlots, paramBinding, Binding.inSlot, List.filterMap_map, Function.comp_def]
  have hzip : p.slots.map (fun q => q.2.1) = (p.paramNames.zip p.params).zipIdx.map fun q => p.firstSlot + q.2 := by
    rw [MethodPlan.slots, List.map_map]
    rfl
  have hpositions : (p.paramNames.zip p.params).zipIdx.map (fun q => p.firstSlot + q.2)
      = ((p.paramNames.zip p.params).zipIdx.map Prod.snd).map (p.firstSlot + ·) := by
    rw [List.map_map]
    rfl
  rw [hslots, hzip, hpositions, List.zipIdx_map_snd, List.map_add_range']
  rfl

/-- Parameters without a name are held all along. -/
theorem held_params (p : MethodPlan) :
    ∃ unnamed, List.range' p.firstSlot p.params.length = localSlots (p.slots.map paramBinding) ++ unnamed := by
  have hle : (p.paramNames.zip p.params).length ≤ p.params.length := by
    rw [List.length_zip]
    exact Nat.min_le_right _ _
  refine ⟨List.range' (p.firstSlot + (p.paramNames.zip p.params).length)
    (p.params.length - (p.paramNames.zip p.params).length), ?_⟩
  rw [slots_params, List.range'_append_1, Nat.add_sub_cancel' hle]

/-- A `recur` to the start of a method overwrites its parameters. -/
theorem keeps_withMethodLoop {first : Label} {x : FormM Unit} (hx : Keeps S C x)
    (hslots : ∀ q ∈ p.slots, ∃ f ∈ C.frames, q.2.1 ∈ localSlots f.bindings) : Keeps S C (withMethodLoop p first x) := by
  unfold withMethodLoop
  refine .ite (hx.withLoop fun q hq => ?_) hx
  obtain ⟨q', hq', rfl⟩ := List.mem_map.1 hq
  exact hslots q' hq'

theorem keeps_emitReturn : Keeps S C (emitReturn cls p) := by
  refine keeps_topType.bind fun ty => ?_
  cases ty with
  | none => exact keeps_pure ()
  | some ty =>
    refine (keeps_aside aside_registry).bind fun r => ?_
    split
    · rename_i code hcode
      exact (keeps_emitAll (slotless_of_conversion (coerce_conversion hcode))).bind fun _ => keeps_slotless rfl
    · exact (keeps_aside aside_world).bind fun w => tracks_fail _

/-- Behind the body the scopes of the method are left, and what its parameters were bound to is held again. -/
theorem tracks_compileMethodBody (hc : Restores S h) (hreached : 0 < S.first ∨ p.fields = [] ∧ p.receiver = none)
    (cls : String) :
    ∃ held, Tracks S (heldAtStart p) (fun _ => ⟨[], held⟩) (fun _ => True) (compileMethodBody h cls p) := by
  obtain ⟨unnamed, hheld⟩ := held_params p
  let own := boundAll (receiverBindings cls p) ⟨.field, S.level, []⟩
  let params := boundAll (p.slots.map paramBinding) ⟨.methodParam, S.level, []⟩
  have hslots {q : String × Nat × Ty} (hq : q ∈ p.slots) : ∃ g ∈ [params, own], q.2.1 ∈ localSlots g.bindings :=
    mem_boundAll paramBinding ⟨.methodParam, S.level, []⟩ hq rfl
  refine ⟨localSlots own.bindings ++ (localSlots params.bindings ++ unnamed),
    Tracks.withScope (C := (heldAtStart p)) (by decide) (by decide) ?_⟩
  refine (tracks_bindReceiver hreached).bind fun _ _ => ?_
  refine Tracks.withScope (C := ⟨[own], (heldAtStart p).held⟩) (by decide) (by decide) (keeps_here.bind fun first => ?_)
  rw [heldAtStart, hheld]
  refine (tracks_bindAll (b := paramBinding) fun q _ => .inr ⟨q.2.1, rfl⟩).bind fun _ _ => ?_
  refine (keeps_withMethodLoop ((keeps_compileBody hc p.body).outOfTail) fun q hq => hslots hq).bind fun _ => ?_
  refine keeps_emitReturn.bind fun _ => keeps_here.bind fun last => Keeps.forM fun q hq => ?_
  obtain ⟨g, hg, hslot⟩ := hslots hq
  exact keeps_describe (mem_frames hg hslot) last

end Body

/-! ### Every point of the log -/

section Points

variable {reserved : Nat} {live : List Nat} {log past : List Transfer} {b : CodeBuffer}

/-- At a point of the log every slot that there is has one user or is free: so no two users share a slot, and what is
given out next is no slot in use.  The reserved slots are in use, and all slots in use are among the first `locals`
ones. -/
structure Separate (reserved locals : Nat) (past : List Transfer) : Prop where
  all : (users reserved past ++ (replay reserved past).freeSlots).Perm (List.range (replay reserved past).nextSlot)
  nodup : (users reserved past).Nodup
  taken : ∀ n ∈ users reserved past, n ∉ (replay reserved past).freeSlots
  fresh : (replay reserved past).allocSlot.1 ∉ users reserved past
  covers : ∀ n < reserved, n ∈ users reserved past
  within : ∀ n ∈ users reserved past, n < locals

theorem nextSlot_freeSlot (b : CodeBuffer) (n : Nat) : (b.freeSlot n).nextSlot = b.nextSlot := by
  unfold CodeBuffer.freeSlot
  split <;> rfl

/-- There are never fewer slots than before. -/
theorem nextSlot_replay_le (hpast : past <:+ log) :
    (replay reserved past).nextSlot ≤ (replay reserved log).nextSlot := by
  induction log with
  | nil => exact List.suffix_nil.1 hpast ▸ Nat.le_refl _
  | cons x log ih =>
    rcases List.suffix_cons_iff.1 hpast with rfl | hpast
    · exact Nat.le_refl _
    · refine Nat.le_trans (ih hpast) ?_
      cases x with
      | taken n position => exact nextSlot_le_allocSlot _
      | given n position => exact Nat.le_of_eq (nextSlot_freeSlot _ n).symm

theorem Account.separate (h : Account reserved live b) (hpast : past <:+ b.transfers) :
    Separate reserved b.nextSlot past := by
  have horderly := h.orderly.suffix hpast
  have hapart := horderly.apart
  have hslots : (replay reserved past).nextSlot ≤ b.nextSlot := h.pool.next ▸ nextSlot_replay_le hpast
  exact ⟨hapart, (List.nodup_append.1 hapart.nodup).1, fun _ => hapart.taken, hapart.fresh, fun _ => horderly.stays,
    fun _ hn => Nat.lt_of_lt_of_le (hapart.lt hn) hslots⟩

end Points

/-! ### Methods of classes -/

section Classes

variable {s t : FormState} {h : Handlers} {p : MethodPlan} {owner : Nat} {cls : String} {context : MethodContext}

/-- The log of a buffer accounts for the slots of the code it is finished to: it is orderly and says which slots are
free, slots are apart at every point of it, and each instruction names a slot that was in use when it was emitted.  The
code has room for all slots that were used. -/
structure Settled (reserved : Nat) (b : CodeBuffer) (code : Code) : Prop where
  orderly : Orderly reserved b.transfers
  pool : SamePool (replay reserved b.transfers) b
  separate : ∀ past, past <:+ b.transfers → Separate reserved code.maxLocals past
  named : Named reserved b
  instructions : ∀ i ∈ code.instructions.toList, ∀ n, i.slot? = some n → n < code.maxLocals
  described : ∀ v ∈ code.localVars, v.slot < code.maxLocals

theorem Account.settled {reserved room : Nat} {live : List Nat} {b : CodeBuffer} {code : Code}
    (h : Account reserved live b) (hfinish : b.finish room = .ok code) : Settled reserved b code := by
  obtain ⟨-, -, -, hmax, -, -⟩ := finish_ok hfinish
  obtain ⟨hinstructions, hdescribed⟩ := h.within.finished hfinish
  exact ⟨h.orderly, h.pool, fun past hpast => hmax ▸ h.separate hpast, h.named, hinstructions, hdescribed⟩

/-- The handlers compile the method from some state into a buffer that is finished to the code, and the log of the
buffer accounts for its slots. -/
def Accounted (h : Handlers) (p : MethodPlan) (code : Code) : Prop :=
  ∃ owner cls s context t,
    FormM.withMethod (freshContext owner p) (compileMethodBody h cls p) s = .ok ((), context) t ∧
      context.code.finish context.stack.max = .ok code ∧ Settled (reservedSlots p) context.code code

theorem account_of_withMethod (hc : ∀ S, Restores S h) (hlevels : Levelled (view s)) (hself : SelfContained (view s) p)
    (hrun : FormM.withMethod (freshContext owner p) (compileMethodBody h cls p) s = .ok ((), context) t) :
    ∃ live, Account (reservedSlots p) live context.code := by
  obtain ⟨s₁, t₁, hs₁, hbody, hcontext, -⟩ := withMethod_ok hrun
  obtain ⟨held, hbodied⟩ :=
    tracks_compileMethodBody (hc (methodScene p hlevels)) (hself.imp firstSlot_pos And.right) cls
  obtain ⟨-, -, hends, -⟩ := hbodied (hs₁ ▸ at_entered hlevels hself owner) hbody
  have hlevel : (view t₁).methods.length = (view s).methods.length + 1 := hends.level
  have hlength : (view t₁).methods.length - (view s).methods.length - 1 = 0 := by omega
  rw [hlength, View.methods_eq hends.working] at hcontext
  obtain rfl : (view t₁).work = context := Option.some.inj hcontext
  exact ⟨_, hends.account⟩

/-- A method is added with the code that it is compiled into, the slots of which are accounted for. -/
theorem accounted_of_buildMethod (hb : Compiles h) (hc : ∀ S, Restores S h) (hlevels : Levelled (view s))
    (hself : SelfContained (view s) p) (hrun : buildMethod h owner p s = .ok () t) :
    ∃ c c' context s₁ code, s.classes[owner]? = some c ∧
      FormM.withMethod (freshContext owner p) (compileMethodBody h c.file.name p) s = .ok ((), context) s₁ ∧
      context.code.finish context.stack.max = .ok code ∧ t.classes[owner]? = some c' ∧
      c'.file.methods = c.file.methods ++ [p.definition code] ∧ Settled (reservedSlots p) context.code code := by
  obtain ⟨s', s₁, h₁, hrun⟩ := State.ok_of_bind hrun
  cases h₁
  cases hclass : s.classes[owner]? with
  | none =>
    rw [hclass] at hrun
    cases hrun
  | some c =>
    rw [hclass] at hrun
    obtain ⟨⟨⟨⟩, context⟩, s₁, h₁, hrun⟩ := State.ok_of_bind hrun
    obtain ⟨code, s₂, h₂, hrun⟩ := State.ok_of_bind hrun
    obtain ⟨hfinish, rfl⟩ := ofExcept_ok h₂
    cases hrun
    obtain ⟨live, haccount⟩ := account_of_withMethod hc hlevels hself h₁
    obtain ⟨-, c', hc', hwidened, -⟩ := withMethod_body hb hlevels hself hclass h₁
    have hadded : (s₁.classes.modify owner fun c => c.addMethod (p.definition code))[owner]?
        = some (c'.addMethod (p.definition code)) := by
      rw [Array.getElem?_modify, if_pos rfl]
      exact congrArg (Option.map _) hc'
    refine ⟨c, _, context, s₁, code, rfl, h₁, hfinish, hadded, ?_, haccount.settled hfinish⟩
    rw [ClassContext.addMethod, hwidened.file]

/-- The methods that are built for a class are accounted for; its constructor is written down without any. -/
def ClassAccounted (h : Handlers) (file : ClassFile) : Prop :=
  ∃ (built : List MethodDef) (init : Option MethodDef), file.methods = built ++ init.toList ∧
    (∀ m ∈ built, ∃ p code, m = p.definition code ∧ Accounted h p code) ∧
    ∀ m ∈ init, m.name = Names.constructor

theorem accounted_of_buildMethods (hb : Compiles h) (hc : ∀ S, Restores S h) {methods : List (Registry → MethodPlan)}
    {c : ClassContext} (hlevels : Levelled (view s)) (hself : ∀ m ∈ methods, ∀ r, SelfContained (view s) (m r))
    (hclass : s.classes[owner]? = some c)
    (hrun : (methods.forM fun m => do buildMethod h owner (m (← FormM.registry))) s = .ok () t) :
    ∃ (c' : ClassContext) (built : List MethodDef), t.classes[owner]? = some c' ∧
      c'.file.methods = c.file.methods ++ built ∧
      ∀ m ∈ built, ∃ p code, m = p.definition code ∧ Accounted h p code := by
  induction methods generalizing s c with
  | nil =>
    cases hrun
    exact ⟨c, [], hclass, (List.append_nil _).symm, nofun⟩
  | cons m rest ih =>
    obtain ⟨⟨⟩, s₁, h₁, hrun⟩ := State.ok_of_bind hrun
    obtain ⟨r, s₂, h₂, h₁⟩ := State.ok_of_bind h₁
    cases h₂
    have hfits := hself m List.mem_cons_self s.world.registry
    obtain ⟨hbeside, -⟩ := buildMethod_adds hb hlevels hfits hclass h₁
    obtain ⟨c₀, c₁, context, s₂, code, hc₀, hcompiled, hfinish, hclass₁, hadded, hsettled⟩ :=
      accounted_of_buildMethod hb hc hlevels hfits h₁
    obtain rfl := Option.some.inj (hclass.symm.trans hc₀)
    obtain ⟨c', built, hclass', hmethods, hall⟩ := ih (hbeside.levelled hlevels)
      (fun m' hm' r => hbeside.selfContained (hself m' (List.mem_cons_of_mem _ hm') r)) hclass₁ hrun
    have haccounted : Accounted h (m s.world.registry) code := ⟨owner, _, _, context, s₂, hcompiled, hfinish, hsettled⟩
    refine ⟨c', _ :: built, hclass', ?_, List.forall_mem_cons.2 ⟨⟨_, code, rfl, haccounted⟩, hall⟩⟩
    rw [hmethods, hadded, List.append_assoc]
    rfl

/-- So are all methods that any form is compiled into. -/
theorem accounted_of_builds (hb : Compiles h) (hc : ∀ S, Restores S h) {v : View} {file : ClassFile}
    (hlevels : Levelled v) (hbuilds : Builds h v file t) : ClassAccounted h file := by
  obtain ⟨start, mode, methods, plan, captures, s, rfl, hempty, hself, hrun⟩ := hbuilds
  obtain ⟨⟨⟨⟩, c⟩, s₁, h₁, hrun⟩ := State.ok_of_bind hrun
  obtain ⟨finished, s₂, h₂, hrun⟩ := State.ok_of_bind hrun
  obtain ⟨hfinished, rfl⟩ := ofExcept_ok h₂
  cases hrun
  obtain ⟨s₂, t₂, hs₂, hbuilt, hclass, -⟩ := withClass_ok h₁
  have hstart : (view s₂).classes[(view s).classes.size]? = some { file := start, mode } := by simp [hs₂]
  obtain ⟨c', built, hc', hmethods, hall⟩ :=
    accounted_of_buildMethods hb hc (hs₂ ▸ hlevels) (hs₂ ▸ hself) hstart hbuilt
  obtain rfl := Option.some.inj (hclass.symm.trans hc')
  obtain ⟨init, hinit, hfinished⟩ := bind_ok hfinished
  cases hfinished
  refine ⟨built, init, ?_, hall, name_of_constructorOf hinit⟩
  rw [hmethods, hempty, List.nil_append]

/-- Where a form is compiled no two users share a slot, and a slot is free just if it has none; behind the form the
slots are used as in front of it, and none of those in use has changed hands in between.  This holds of forms of every
depth, and of a form made of any others of which it holds.  A method that is made of such forms is compiled into a
buffer the log of which accounts for every slot from the start of the method on: at every point of it slots are apart,
and every instruction names a slot in use.  The scopes around a method belong to methods that are open, and a static
method has none around it, no fields and no receiver; every class is built of such methods. -/
theorem slots_apart [Libraries] :
    (∀ S C v, At S C v → (C.live S.first).Nodup ∧ (∀ n ∈ C.live S.first, n ∉ v.code.freeSlots) ∧
      v.code.allocSlot.1 ∉ C.live S.first ∧ (∀ n < S.reserved, n ∈ C.live S.first) ∧
      (users S.reserved v.code.transfers).Perm (C.live S.first)) ∧
    (∀ fuel, Compiles (handlers fuel) ∧ ∀ S, Restores S (handlers fuel)) ∧
    ∀ h, Compiles h → (∀ S, Restores S h) →
      (∀ S C d s t, At S C (view s) → compileForm h d s = .ok () t →
        At S C (view t) ∧ Extends (C.live S.first) (view s).code (view t).code) ∧
      ∀ s : FormState, (∀ f ∈ s.scopes.frames, f.level ≤ s.methods.length) →
        (∀ owner p t, (p.isStatic = false ∨ s.scopes.frames = [] ∧ p.fields = [] ∧ p.receiver = none) →
          buildMethod h owner p s = .ok () t →
          ∃ c c' context s₁ code, s.classes[owner]? = some c ∧
            FormM.withMethod (freshContext owner p) (compileMethodBody h c.file.name p) s = .ok ((), context) s₁ ∧
            context.code.finish context.stack.max = .ok code ∧ t.classes[owner]? = some c' ∧
            c'.file.methods = c.file.methods ++ [p.definition code] ∧
            Settled (reservedSlots p) context.code code) ∧
        (∀ d file t, s.scopes.frames = [] → Session.buildTop h d s = .ok file t → ClassAccounted h file) ∧
        (∀ d file captures t, buildFn h d s = .ok (file, captures) t → ClassAccounted h file) ∧
        (∀ full interfaces fields methods file t, buildType h full interfaces fields methods s = .ok file t →
          ClassAccounted h file) ∧
        ∀ d file m captures t, buildProxy h d s = .ok (file, m, captures) t → ClassAccounted h file := by
  refine ⟨fun S C v hv => ?_, fun fuel => ⟨compiles_handlers fuel, fun S => keeps_handlers S fuel⟩,
    fun h hb hc => ⟨?_, ?_⟩⟩
  · have hapart := hv.account.apart
    exact ⟨hv.account.nodup, fun _ => hapart.taken, hapart.fresh, fun n hn => hv.covers n (S.covered n hn),
      hv.account.users⟩
  · intro S C d s t hs hrun
    have hkept : At (S.keeping hs) C (view s) := { hs with covers := fun _ hn => hn }
    have hform : Keeps (S.keeping hs) C (compileForm h d) :=
      (keeps_aside (aside_analyse _ d)).bind fun a => keeps_emitAnalysed hb (hc _) d a
    obtain ⟨-, hsince, hends, -⟩ := hform hkept hrun
    exact ⟨{ hends with covers := hs.covers }, hsince⟩
  intro s hlevels
  have hlevels : Levelled (view s) := hlevels
  refine ⟨?_, ?_, ?_, ?_, ?_⟩
  · intro owner p t hself hrun
    exact accounted_of_buildMethod hb hc hlevels hself hrun
  · intro d file t hframes hrun
    exact accounted_of_builds hb hc hlevels (buildTop_builds hframes hrun)
  · intro d file captures t hrun
    exact accounted_of_builds hb hc hlevels (buildFn_builds hrun)
  · intro full interfaces fields methods file t hrun
    exact accounted_of_builds hb hc hlevels (buildType_builds hrun)
  · intro d file m captures t hrun
    exact accounted_of_builds hb hc hlevels (buildProxy_builds hrun).1

/-- The form `(try (set! f (case x :a x x)) (finally x))`. -/
def nestedBody : Datum :=
  let x : Datum := .symbol "x" default
  let chosen := .ofList [.symbol "case" default, x, .ofAtom (.keyword "a") default, x, x] default
  let set := .ofList [.symbol "set!" default, .symbol "f" default, chosen] default
  .ofList [.symbol "try" default, set, .ofList [.symbol "finally" default, x] default] default

/-- A method that sets a field of its receiver. -/
def nestedPlan : MethodPlan where
  name := "m"
  params := [.any]
  paramNames := ["x"]
  receiver := some "this"
  fields := [⟨"f", .any, true⟩]
  body := [nestedBody]

/-- A class without methods. -/
def bareClass : FormState where
  world := formsAlone [.tryForm, .setForm, .caseForm]
  classes := #[{ file := { name := "T", superclass := Names.object }, mode := .type }]

/-- Beside the result of the `try`, which is in slot 2, slot 3 serves the subject of the `case`, the new value of the
field and the pending exception in turn. -/
theorem nested_slots_apart :
    ∃ t c context s₁ code, buildMethod (handlers 6) 0 nestedPlan bareClass = .ok () t ∧
      FormM.withMethod (freshContext 0 nestedPlan) (compileMethodBody (handlers 6) "T" nestedPlan) bareClass
        = .ok ((), context) s₁ ∧
      context.code.finish context.stack.max = .ok code ∧ t.classes[0]? = some c ∧
      c.file.methods = [nestedPlan.definition code] ∧
      context.code.transfers.map Transfer.slot = [2, 3, 3, 3, 3, 3, 3, 2] ∧ Settled 2 context.code code := by
  obtain ⟨⟨⟩, t, hrun, -⟩ := State.exists_answer (r := buildMethod (handlers 6) 0 nestedPlan bareClass)
    (p := fun _ => true) (by decide +kernel)
  obtain ⟨⟨⟨⟩, context⟩, s₁, hcompiled, hslots⟩ := State.exists_answer
    (r := FormM.withMethod (freshContext 0 nestedPlan) (compileMethodBody (handlers 6) "T" nestedPlan) bareClass)
    (p := fun q => q.1.2.code.transfers.map Transfer.slot == [2, 3, 3, 3, 3, 3, 3, 2]) (by decide +kernel)
  obtain ⟨-, hforms, hall⟩ := slots_apart
  obtain ⟨hb, hc⟩ := hforms 6
  obtain ⟨c, c', context', s₁', code, hclass, hcompiled', hfinish, hclass', hmethods, hsettled⟩ :=
    ((hall (handlers 6) hb hc).2 bareClass (by simp [bareClass])).1 0 nestedPlan t (.inl rfl) hrun
  obtain rfl : c = { file := { name := "T", superclass := Names.object }, mode := .type } := by
    cases hclass
    rfl
  cases hcompiled.symm.trans hcompiled'
  exact ⟨t, c', context, s₁, code, hrun, hcompiled, hfinish, hclass', hmethods, by simpa using hslots, hsettled⟩

end Classes

end LispMachine.Slots
