import LispMachine.Proofs.Emission.Protected
import LispMachine.Proofs.Emission.Methods

/-! # Where loops are entered

A `recur` writes the slots of the locals of its loop, so its code is right only if no two locals share a slot, and no
slot has been given back.  Both hold where the body of a loop is compiled (`compileLoop_entered`) and where that of a
method is (`compileMethodBody_entered`): a slot that is given out is not in use before, and nothing between gives it
back. -/

namespace LispMachine.Emission

open Form

/-! ### Slots that are kept -/

/-- The same slots are in use, and the same loops and `try` forms are around. -/
structure SlotsKept (v w : View) : Prop where
  loops : w.loops = v.loops
  tryDepth : w.work.tryDepth = v.work.tryDepth
  labels : v.code.labels ≤ w.code.labels
  free : w.code.freeSlots = v.code.freeSlots
  slots : w.code.nextSlot = v.code.nextSlot

theorem SlotsKept.refl (v : View) : SlotsKept v v := ⟨rfl, rfl, Nat.le_refl _, rfl, rfl⟩

theorem SlotsKept.trans {u v w : View} (h : SlotsKept u v) (h' : SlotsKept v w) : SlotsKept u w :=
  ⟨h'.loops.trans h.loops, h'.tryDepth.trans h.tryDepth, Nat.le_trans h.labels h'.labels, h'.free.trans h.free,
    h'.slots.trans h.slots⟩

theorem Midway.slotsKept {kept : List Nat} {v w : View} (h : Midway kept v) (hs : SlotsKept v w) (hw : Valid w) :
    Midway kept w where
  valid := hw
  made := h.made.mono hs.loops hs.labels
  loops := fun head slots d rest hloops => by
    rw [hs.tryDepth]
    exact h.loops head slots d rest (hs.loops ▸ hloops)
  free := hs.free ▸ h.free
  used := by
    rw [hs.free, hs.slots]
    exact h.used

/-- An action that gives out no slots and gives none back. -/
def KeepsSlots {α : Type} (x : FormM α) : Prop := ∀ ⦃s a t⦄, x s = .ok a t → SlotsKept (view s) (view t)

section Actions

variable {α β : Type}

theorem KeepsSlots.pure (a : α) : KeepsSlots (Pure.pure a : FormM α) := by
  intro s b t hrun
  cases hrun
  exact .refl _

theorem KeepsSlots.bind {x : FormM α} {f : α → FormM β} (hx : KeepsSlots x) (hf : ∀ a, KeepsSlots (f a)) :
    KeepsSlots (x >>= f) := by
  intro s b t hrun
  obtain ⟨a, s₁, h₁, hrun⟩ := State.ok_of_bind hrun
  exact (hx h₁).trans (hf a hrun)

theorem KeepsSlots.forM {xs : List α} {f : α → FormM PUnit} (hf : ∀ a, KeepsSlots (f a)) : KeepsSlots (xs.forM f) := by
  induction xs with
  | nil => exact .pure _
  | cons x xs ih => exact (hf x).bind fun _ => ih

theorem keepsSlots_emit (i : Instruction) : KeepsSlots (FormM.emit i) := by
  intro s u t hrun
  rcases emit_run hrun with ⟨-, hview⟩ | ⟨-, e, stack, -, -, hview⟩ <;> rw [hview]
  · exact .refl _
  · exact ⟨rfl, rfl, Nat.le_refl _, rfl, rfl⟩

theorem keepsSlots_boxTop : KeepsSlots FormM.boxTop := by
  refine KeepsSlots.bind (fun s top t hrun => (topType_ok hrun).1 ▸ .refl _) fun top => ?_
  cases top with
  | none => exact .pure _
  | some ty => exact .forM keepsSlots_emit

theorem keepsSlots_bindName (b : Binding) : KeepsSlots (FormM.bindName b) := by
  intro s u t hrun
  obtain ⟨scopes, -, hview⟩ := bindName_ok hrun
  rw [hview]
  exact ⟨rfl, rfl, Nat.le_refl _, rfl, rfl⟩

theorem keepsSlots_bindReceiver (cls : String) (p : MethodPlan) : KeepsSlots (bindReceiver cls p) := by
  refine (KeepsSlots.forM fun _ => keepsSlots_bindName _).bind fun _ => ?_
  cases p.receiver with
  | none => exact .pure _
  | some name => exact keepsSlots_bindName _

theorem keepsSlots_here : KeepsSlots FormM.here := by
  intro s l t hrun
  rw [(onCode_ok hrun).2]
  exact ⟨rfl, rfl, Nat.le_succ _, rfl, rfl⟩

end Actions

/-! ### The locals of a loop -/

/-- The slots of the locals of the innermost loop. -/
def loopSlots (v : View) : List Nat :=
  match v.loops with
  | .compiled _ slots _ :: _ => slots.map Prod.fst
  | _ => []

theorem loopSlots_of_loops {v : View} {head : Label} {slots : List (Nat × Ty)} {depth : Nat} {rest : List LoopTarget}
    (hloops : v.loops = .compiled head slots depth :: rest) : loopSlots v = slots.map Prod.fst := by
  rw [loopSlots, hloops]

theorem Midway.inTail {kept : List Nat} {v : View} (h : Midway kept v) (tail : Bool) : Midway kept { v with tail } :=
  ⟨⟨h.valid.working, h.valid.steady, h.valid.orderly, h.valid.free, h.valid.stored, h.valid.levels, h.valid.loops⟩,
    h.made, h.loops, h.free, h.used⟩

theorem sealed_of_tail {v : View} (htail : v.tail = false) : Sealed v := fun _ _ _ _ _ h => by
  rw [htail] at h
  cases h

/-- Inside a loop: its locals are in use, in slots of their own. -/
structure Entered (v : View) : Prop where
  midway : Midway (loopSlots v) v
  distinct : (loopSlots v).Nodup

theorem Midway.entered {v : View} {head : Label} {slots : List (Nat × Ty)} {d : Nat}
    (h : Midway (slots.map Prod.fst) v) (hhead : head < v.code.labels) (hd : d ≤ v.work.tryDepth)
    (hdistinct : (slots.map Prod.fst).Nodup) :
    Entered { v with loops := .compiled head slots d :: v.loops, tail := true } where
  midway :=
    { valid :=
        { h.valid with
          loops := fun head' slots' d' hmem q hq => by
            rcases List.mem_cons.1 hmem with heq | hmem
            · cases heq
              exact (h.used q.1 (List.mem_map_of_mem hq)).1
            · exact h.valid.loops head' slots' d' hmem q hq }
      made := fun head' slots' d' hmem => by
        rcases List.mem_cons.1 hmem with heq | hmem
        · cases heq
          exact hhead
        · exact h.made head' slots' d' hmem
      loops := fun head' slots' d' rest hloops => by
        cases hloops
        exact hd
      free := h.free
      used := h.used }
  distinct := hdistinct

section Loops

variable {h : Handlers} {kept : List Nat} {s t : FormState} {u : Unit}

/-- A form that is not in tail position goes back to no loop, so it leaves all slots in use. -/
theorem Midway.compilePart (hc : Compiles h) (hf : ∀ F, Confines F h) {d : Datum} (hmid : Midway kept (view s))
    (hrun : FormM.withTail false (h.compile d) s = .ok u t) : Midway kept (view t) := by
  obtain ⟨s₁, t₁, hs₁, hcompile, ht⟩ := withTail_ok hrun
  have hmid₁ : Midway kept (view s₁) := hs₁ ▸ hmid.inTail false
  obtain ⟨w, g, -⟩ := hc hmid₁.valid hcompile
  obtain ⟨-, hheeds⟩ := hf _ d (hmid₁.fenced (sealed_of_tail (by rw [hs₁]))) hcompile
  rw [ht]
  exact (hmid₁.next hheeds g.valid).inTail _

theorem Midway.loopLocal {T : Terms} {v₀ : View} {k : Nat} {f : ScopeFrame} (hc : Compiles h) (hf : ∀ F, Confines F h)
    {l : LocalInit} {placed : String × Nat} (hmid : Midway kept (view s)) (g : Grown (T.inside f) v₀ k (view s))
    (hrun : compileLoopLocal h l s = .ok placed t) : placed.2 ∉ kept ∧ Midway (placed.2 :: kept) (view t) := by
  obtain ⟨⟨_, g₄⟩, -⟩ := g.compileLoopLocal hc hrun
  obtain ⟨⟨⟩, s₁, h₁, hrun⟩ := State.ok_of_bind hrun
  obtain ⟨slot, s₃, h₃, hrun⟩ := State.ok_of_bind hrun
  obtain ⟨⟨⟩, s₄, h₄, hrun⟩ := State.ok_of_bind hrun
  cases hrun
  obtain ⟨g₁, -⟩ := g.compileBoxed hc h₁
  obtain ⟨slot, s₂, h₂, h₃⟩ := State.ok_of_bind h₃
  obtain ⟨⟨⟩, s₃, h₃, hstore⟩ := State.ok_of_bind h₃
  cases hstore
  obtain ⟨g₂, -⟩ := g₁.allocSlot h₂
  obtain ⟨⟨⟩, s₀, h₀, hbox⟩ := State.ok_of_bind h₁
  have hmid₁ := (hmid.compilePart hc hf h₀).slotsKept (keepsSlots_boxTop hbox) g₁.valid
  obtain ⟨hnew, hmid₂⟩ := hmid₁.allocSlot g₂.valid h₂
  exact ⟨hnew, hmid₂.slotsKept ((keepsSlots_emit _ h₃).trans (keepsSlots_bindName _ h₄)) g₄.valid⟩

/-- No two locals of a loop have the same slot. -/
theorem Midway.loopLocals {T : Terms} {v₀ : View} {k : Nat} {f : ScopeFrame} (hc : Compiles h)
    (hf : ∀ F, Confines F h) {locals : List LocalInit} {placed : List (String × Nat)} (hmid : Midway kept (view s))
    (hdistinct : kept.Nodup) (g : Grown (T.inside f) v₀ k (view s))
    (hrun : locals.mapM (compileLoopLocal h) s = .ok placed t) :
    ∃ slots, slots.Nodup ∧ Midway slots (view t) ∧ (placed.map Prod.snd).reverse ++ kept = slots ∧
      placed.length = locals.length := by
  induction locals generalizing s f kept placed with
  | nil =>
    cases hrun
    exact ⟨kept, hdistinct, hmid, rfl, rfl⟩
  | cons l rest ih =>
    rw [List.mapM_cons] at hrun
    obtain ⟨p, s₁, h₁, hrun⟩ := State.ok_of_bind hrun
    obtain ⟨ps, s₂, h₂, hrun⟩ := State.ok_of_bind hrun
    cases hrun
    obtain ⟨⟨_, g₁⟩, -⟩ := g.compileLoopLocal hc h₁
    obtain ⟨hnew, hmid₁⟩ := hmid.loopLocal hc hf g h₁
    obtain ⟨slots, hslots, hmid₂, heq, hlength⟩ := ih hmid₁ (List.nodup_cons.2 ⟨hnew, hdistinct⟩) g₁ h₂
    exact ⟨slots, hslots, hmid₂, by simpa using heq, congrArg Nat.succ hlength⟩

/-- Where the body of a loop is compiled, its locals are in use, in slots of their own. -/
theorem compileLoop_entered (hc : Compiles h) (hf : ∀ F, Confines F h) {d : Datum} (hmid : Midway kept (view s))
    (hrun : compileLoop h d s = .ok u t) :
    ∃ locals body s' t', bindingParts "loop" d = .ok (locals, body) ∧ compileBody h body s' = .ok () t' ∧
      Entered (view s') ∧ (view s').tail = true ∧ (loopSlots (view s')).length = locals.length := by
  obtain ⟨⟨locals, body⟩, s₁, h₁, hrun⟩ := State.ok_of_bind hrun
  obtain ⟨hparts, rfl⟩ := ofExcept_ok h₁
  obtain ⟨s₁, t₁, hrun, g₁, hs₁, -⟩ := (Grown.ofValid hmid.valid).withScope hrun
  have hmid₁ : Midway [] (view s₁) := by
    refine (hmid.mono (List.forall_mem_nil _)).slotsKept ?_ g₁.valid
    rw [hs₁]
    exact ⟨rfl, rfl, Nat.le_refl _, rfl, rfl⟩
  obtain ⟨placed, s₂, h₂, hrun⟩ := State.ok_of_bind hrun
  obtain ⟨⟨_, g₂⟩, -⟩ := g₁.compileLoopLocals hc h₂
  obtain ⟨slots, hdistinct, hmid₂, hslots, hlength⟩ := hmid₁.loopLocals hc hf List.nodup_nil g₁ h₂
  obtain ⟨head, s₃, h₃, hrun⟩ := State.ok_of_bind hrun
  obtain ⟨hhead, g₃⟩ := g₂.here h₃
  have hlabels : head < (view s₃).code.labels := by
    rw [hhead, (onCode_ok h₃).2]
    exact Nat.lt_succ_self _
  obtain ⟨depth, s₄, h₄, hrun⟩ := State.ok_of_bind hrun
  obtain ⟨rfl, rfl⟩ := tryDepth_ok g₃.valid.working h₄
  obtain ⟨⟨⟩, s₅, h₅, -⟩ := State.ok_of_bind hrun
  obtain ⟨s₆, t₆, hs₆, h₆, -⟩ := withLoop_ok h₅
  obtain ⟨s₇, t₇, hs₇, h₇, -⟩ := withTail_ok h₆
  rw [List.append_nil] at hslots
  have hmap : (placed.map fun l => (l.2, Ty.any)).map Prod.fst = placed.map Prod.snd := by
    rw [List.map_map]
    rfl
  have hmid₃ := hmid₂.slotsKept (keepsSlots_here h₃) g₃.valid
  rw [hs₆] at hs₇
  refine ⟨locals, body, s₇, t₇, hparts, h₇, ?_, by rw [hs₇], ?_⟩
  · rw [hs₇]
    refine Midway.entered (hmid₃.mono fun slot hmem => ?_) hlabels (Nat.le_refl _) ?_
    · rw [hmap] at hmem
      exact hslots ▸ List.mem_reverse.2 hmem
    · rw [hmap, ← (List.reverse_perm _).nodup_iff, hslots]
      exact hdistinct
  · rw [hs₇]
    simpa [loopSlots] using hlength

end Loops

/-! ### The parameters of a method -/

section Methods

variable {h : Handlers} {p : MethodPlan} {s t : FormState} {u : Unit}

/-- The parameters have slots one after the other. -/
theorem parameterSlots_eq (p : MethodPlan) :
    (p.slots.map Prod.snd).map Prod.fst = List.range' p.firstSlot (p.paramNames.zip p.params).length := by
  have hmap : (p.slots.map Prod.snd).map Prod.fst
      = ((p.paramNames.zip p.params).zipIdx.map Prod.snd).map (p.firstSlot + ·) := by
    simp only [MethodPlan.slots, List.map_map]
    rfl
  rw [hmap, List.zipIdx_map_snd, List.map_add_range', Nat.add_zero]

/-- Where the body of a method is compiled, its parameters are in use, in slots of their own. -/
theorem compileMethodBody_entered {cls : String} (hv : Valid (view s)) (hloops : (view s).loops = [])
    (hfree : (view s).code.freeSlots = []) (hroom : p.params.length + p.firstSlot ≤ (view s).code.nextSlot)
    (hself : SelfContained (view s) p) (hrecurs : p.recurs = true) (hrun : compileMethodBody h cls p s = .ok u t) :
    ∃ s' t', compileBody h p.body s' = .ok () t' ∧ Entered (view s') ∧ (view s').tail = true ∧
      loopSlots (view s') = (p.slots.map Prod.snd).map Prod.fst := by
  obtain ⟨s₁, t₁, hrun, g₁, hs₁, -⟩ := (Grown.ofValid hv).withScope hrun
  have hkept₁ : SlotsKept (view s) (view s₁) := hs₁ ▸ ⟨rfl, rfl, Nat.le_refl _, rfl, rfl⟩
  obtain ⟨⟨⟩, s₂, h₂, hrun⟩ := State.ok_of_bind hrun
  have hpos : 0 < (view s₁).code.nextSlot ∨ p.fields = [] ∧ p.receiver = none := by
    refine hself.imp (fun hstatic => ?_) And.right
    have hfirst := firstSlot_pos hstatic
    rw [hkept₁.slots]
    omega
  obtain ⟨⟨f₂, g₂⟩, -⟩ := g₁.bindReceiver hpos h₂
  obtain ⟨s₃, t₃, hrun, g₃, hs₃, -⟩ := g₂.withScope hrun
  have hkept₃ : SlotsKept (view s₂) (view s₃) := hs₃ ▸ ⟨rfl, rfl, Nat.le_refl _, rfl, rfl⟩
  obtain ⟨first, s₄, h₄, hrun⟩ := State.ok_of_bind hrun
  obtain ⟨hfirst, g₄⟩ := g₃.here h₄
  obtain ⟨⟨⟩, s₅, h₅, hrun⟩ := State.ok_of_bind hrun
  have hkept₄ : SlotsKept (view s) (view s₄) :=
    hkept₁.trans ((keepsSlots_bindReceiver cls p h₂).trans (hkept₃.trans (keepsSlots_here h₄)))
  have hkept₅ : SlotsKept (view s₄) (view s₅) := KeepsSlots.forM (fun _ => keepsSlots_bindName _) h₅
  have hslots : ∀ q ∈ p.slots, q.2.1 < (view s).code.nextSlot := fun q hq => Nat.lt_of_lt_of_le (mem_slots hq) hroom
  obtain ⟨⟨f₅, g₅⟩, -⟩ := Grown.bindAll
    (T := (((terms (view s)).inside f₂).label first (view s₃).reach).await []) g₄
    (fun q hq _ f => stored_inSlot (hkept₄.slots ▸ hslots q hq) f _ _) h₅
  have hlabels : first < (view s₅).code.labels := by
    rw [hfirst]
    refine Nat.lt_of_lt_of_le ?_ hkept₅.labels
    rw [(onCode_ok h₄).2]
    exact Nat.lt_succ_self _
  have hmid : Midway ((p.slots.map Prod.snd).map Prod.fst) (view s) := by
    refine ⟨hv, by simp [LoopsMade, hloops], by simp [hloops], hfree ▸ List.nodup_nil, fun slot hslot => ?_⟩
    obtain ⟨q', hq', rfl⟩ := List.mem_map.1 hslot
    obtain ⟨q, hq, rfl⟩ := List.mem_map.1 hq'
    exact ⟨hslots q hq, hfree ▸ List.not_mem_nil⟩
  have hmid₅ := hmid.slotsKept (hkept₄.trans hkept₅) g₅.valid
  obtain ⟨⟨⟩, s₆, h₆, -⟩ := State.ok_of_bind hrun
  rw [withMethodLoop, if_pos hrecurs] at h₆
  obtain ⟨s₇, t₇, hs₇, h₇, -⟩ := withLoop_ok h₆
  obtain ⟨s₈, t₈, hs₈, h₈, -⟩ := withTail_ok h₇
  rw [hs₇] at hs₈
  refine ⟨s₈, t₈, h₈, ?_, by rw [hs₈], ?_⟩
  · rw [hs₈]
    refine hmid₅.entered hlabels (Nat.zero_le _) ?_
    rw [parameterSlots_eq]
    exact List.nodup_range'
  · rw [hs₈]
    rfl

end Methods

end LispMachine.Emission
