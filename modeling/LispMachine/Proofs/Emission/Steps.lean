import LispMachine.Proofs.Emission.Growth

/-! # Steps of emission

What the steps that forms are compiled with do to growing code: slots, scopes and tail position, constants
and calls, and conversions of the top value. -/

namespace LispMachine.Emission

/-! ### Slots -/

section Slots

variable {T : Terms} {v₀ v : View} {k : Nat} {s t : FormState} {u : Unit}

/-- A change of the buffer that emits nothing. -/
theorem Grown.onCode (g : Grown T v₀ k v) {code : CodeBuffer} (hitems : code.items = v.code.items)
    (hlabels : code.labels = v.code.labels) (hholes : code.holes = v.code.holes)
    (hhandlers : code.handlers = v.code.handlers) (hslots : v.code.nextSlot ≤ code.nextSlot)
    (hfree : ∀ n ∈ code.freeSlots, n < code.nextSlot) :
    Grown T v₀ k (v.update { v.work with code }) := by
  have horderly : Orderly code := by
    obtain ⟨hnodup, hlt, hrange⟩ := g.valid.orderly
    exact ⟨hitems ▸ hnodup, hitems ▸ hlabels ▸ hlt, hitems ▸ hholes ▸ hrange⟩
  refine g.unchanged (g.valid.update g.valid.steady horderly hfree hslots) ?_ rfl rfl rfl rfl rfl hlabels
    hitems hhandlers
  exact
    { Since.refl v with
      slots_le := hslots
      labels_le := Nat.le_of_eq hlabels.symm
      items := hitems ▸ List.prefix_refl _
      placed := fun l _ hl => hitems ▸ hl
      holes_le := Nat.le_of_eq (congrArg Array.size hholes.symm)
      holes := fun h _ => congrArg (·[h]?) hholes }

theorem Grown.allocSlot {n : Nat} (g : Grown T v₀ k (view s)) (h : FormM.allocSlot s = .ok n t) :
    Grown T v₀ k (view t) ∧ n < (view t).code.nextSlot ∧ (view t).stack = (view s).stack := by
  obtain ⟨rfl, hview⟩ := onCode_ok h
  rw [hview]
  cases hfree : (view s).code.freeSlots with
  | nil =>
      simp only [CodeBuffer.allocSlot, hfree]
      refine ⟨g.onCode rfl rfl rfl rfl (Nat.le_succ _) ?_, Nat.lt_succ_self _, rfl⟩
      simp
  | cons n rest =>
      simp only [CodeBuffer.allocSlot, hfree]
      have hlt := g.valid.free
      rw [hfree] at hlt
      exact ⟨g.onCode rfl rfl rfl rfl (Nat.le_refl _) fun m hm => hlt m (List.mem_cons_of_mem _ hm),
        hlt n (List.mem_cons_self ..), rfl⟩

theorem freeSlot_eq (b : CodeBuffer) (n : Nat) :
    ∃ slots log, b.freeSlot n = { b with freeSlots := slots, transfers := log } ∧
      ∀ m ∈ slots, m ∈ b.freeSlots ∨ m = n := by
  unfold CodeBuffer.freeSlot
  split
  · exact ⟨b.freeSlots, _, rfl, fun m hm => .inl hm⟩
  · refine ⟨n :: b.freeSlots, _, rfl, ?_⟩
    intro m hm
    exact (List.mem_cons.1 hm).symm

/-- One slot more that may be free. -/
theorem Grown.freed {n : Nat} (g : Grown T v₀ k v) (hn : n < v.code.nextSlot) {slots : List Nat}
    (hslots : ∀ m ∈ slots, m ∈ v.code.freeSlots ∨ m = n) (log : List CodeBuffer.Transfer) :
    Grown T v₀ k (v.update { v.work with code := { v.code with freeSlots := slots, transfers := log } }) := by
  refine g.onCode rfl rfl rfl rfl (Nat.le_refl _) ?_
  intro m hm
  rcases hslots m hm with hm | rfl
  · exact g.valid.free m hm
  · exact hn

theorem Grown.freeSlot {n : Nat} (g : Grown T v₀ k v) (hn : n < v.code.nextSlot) :
    Grown T v₀ k (v.update { v.work with code := v.code.freeSlot n }) := by
  obtain ⟨slots, log, heq, hslots⟩ := freeSlot_eq v.code n
  rw [heq]
  exact g.freed hn hslots log

theorem freeAll_eq (bindings : List Binding) (b : CodeBuffer) :
    ∃ slots log, freeAll b bindings = { b with freeSlots := slots, transfers := log } ∧
      ∀ m ∈ slots, m ∈ b.freeSlots ∨ ∃ x ∈ bindings, x.slot = .local m := by
  induction bindings generalizing b with
  | nil => exact ⟨b.freeSlots, b.transfers, rfl, fun m hm => .inl hm⟩
  | cons x bindings ih =>
      simp only [freeAll, List.foldl_cons]
      cases hx : x.slot with
      | «local» n =>
          obtain ⟨slots₁, log₁, heq₁, h₁⟩ := freeSlot_eq b n
          obtain ⟨slots, log, heq, h⟩ := ih (b.freeSlot n)
          rw [freeAll] at heq
          refine ⟨slots, log, by rw [heq, heq₁], ?_⟩
          intro m hm
          rcases h m hm with hm | ⟨y, hy, hslot⟩
          · rw [heq₁] at hm
            rcases h₁ m hm with hm | rfl
            · exact .inl hm
            · exact .inr ⟨x, List.mem_cons_self .., hx⟩
          · exact .inr ⟨y, List.mem_cons_of_mem _ hy, hslot⟩
      | _ =>
          obtain ⟨slots, log, heq, h⟩ := ih b
          rw [freeAll] at heq
          refine ⟨slots, log, heq, ?_⟩
          intro m hm
          rcases h m hm with hm | ⟨y, hy, hslot⟩
          · exact .inl hm
          · exact .inr ⟨y, List.mem_cons_of_mem _ hy, hslot⟩

end Slots

/-! ### What surrounds a form -/

/-- The same terms in or out of tail position. -/
def Terms.tailed (T : Terms) (tail : Bool) : Terms := { T with tail }

/-- The same terms with other scopes around. -/
def Terms.scoped (T : Terms) (scopes : Scopes) : Terms := { T with scopes }

/-- The same terms inside other loops. -/
def Terms.looped (T : Terms) (loops : List LoopTarget) : Terms := { T with loops }

section Surroundings

variable {T : Terms} {v₀ v : View} {k : Nat} {s t : FormState} {α : Type} {a : α} {m : FormM α}

/-- Other surroundings, which the slots of the method suffice for. -/
theorem Grown.surround (g : Grown T v₀ k v) (scopes : Scopes) (loops : List LoopTarget) (tail : Bool)
    (hstored : ∀ f ∈ scopes.frames, ∀ b ∈ f.bindings, Stored v.code.nextSlot v.methods.length f b)
    (hlevels : ∀ f ∈ scopes.frames, f.level ≤ v.methods.length)
    (hslots : ∀ head slots d, .compiled head slots d ∈ loops → ∀ q ∈ slots, q.1 < v.code.nextSlot) :
    Grown { T with scopes, loops, tail } v₀ k { v with scopes, loops, tail } where
  valid := ⟨g.valid.working, g.valid.steady, g.valid.orderly, g.valid.free, hstored, hlevels, hslots⟩
  since := ⟨g.since.outer, g.since.owner, g.since.size, g.since.classes, g.since.max_le, g.since.slots_le,
    g.since.labels_le, g.since.items, g.since.placed, g.since.holes_le, g.since.holes, g.since.dead⟩
  based := g.based
  scopes := rfl
  loops := rfl
  tail := rfl
  labels_lt := g.labels_lt
  pending_lt := g.pending_lt
  unplaced := g.unplaced
  holes_lt := g.holes_lt
  plan := by
    obtain ⟨depths, hdepths⟩ := g.plan
    refine ⟨depths, ?_⟩
    intro p hp hcov hT
    exact hdepths p hp ⟨hcov.sites, hcov.room, hcov.locals, hcov.filling⟩ hT

theorem Grown.setTail (g : Grown T v₀ k v) (tail : Bool) :
    Grown (T.tailed tail) v₀ k { v with tail } := by
  rw [Terms.tailed, ← g.scopes, ← g.loops]
  exact g.surround v.scopes v.loops tail g.valid.stored g.valid.levels g.valid.loops

theorem Grown.setLoops (g : Grown T v₀ k v) (loops : List LoopTarget)
    (hslots : ∀ head slots d, .compiled head slots d ∈ loops → ∀ q ∈ slots, q.1 < v.code.nextSlot) :
    Grown (T.looped loops) v₀ k { v with loops } := by
  rw [Terms.looped, ← g.scopes, ← g.tail]
  exact g.surround v.scopes loops v.tail g.valid.stored g.valid.levels hslots

theorem Grown.setScopes (g : Grown T v₀ k v) {scopes : Scopes}
    (hstored : ∀ f ∈ scopes.frames, ∀ b ∈ f.bindings, Stored v.code.nextSlot v.methods.length f b)
    (hlevels : ∀ f ∈ scopes.frames, f.level ≤ v.methods.length) :
    Grown (T.scoped scopes) v₀ k { v with scopes } := by
  rw [Terms.scoped, ← g.loops, ← g.tail]
  exact g.surround scopes v.loops v.tail hstored hlevels g.valid.loops

/-- Steps in or out of tail position, seen from inside and from outside. -/
theorem Grown.withTail {tail : Bool} (g : Grown T v₀ k (view s))
    (h : FormM.withTail tail m s = .ok a t) :
    ∃ s₁ t₁, m s₁ = .ok a t₁ ∧ Grown (T.tailed tail) v₀ k (view s₁) ∧
      (view s₁).stack = (view s).stack ∧ (view t).stack = (view t₁).stack ∧
      ∀ j, Grown (T.tailed tail) v₀ j (view t₁) → Grown T v₀ j (view t) := by
  obtain ⟨s₁, t₁, hs₁, hm, ht⟩ := withTail_ok h
  refine ⟨s₁, t₁, hm, hs₁ ▸ g.setTail tail, by rw [hs₁]; rfl, by rw [ht]; rfl, ?_⟩
  intro j g₁
  have g₂ := g₁.setTail T.tail
  rw [ht, g.tail]
  exact g₂

/-- The scope at hand has no other scopes than those of the terms around it. -/
def Terms.inside (T : Terms) (f : ScopeFrame) : Terms := T.scoped ⟨f :: T.scopes.frames⟩

theorem Grown.bindName {f : ScopeFrame} {b : Binding} {u : Unit}
    (g : Grown (T.inside f) v₀ k (view s)) (h : FormM.bindName b s = .ok u t)
    (hb : Stored (view s).code.nextSlot (view s).methods.length f b) :
    Grown (T.inside { f with bindings := b :: f.bindings }) v₀ k (view t) ∧
      (view t).stack = (view s).stack ∧ (view t).code = (view s).code := by
  obtain ⟨scopes, hbind, hview⟩ := bindName_ok h
  rw [g.scopes] at hbind
  obtain rfl := Except.ok.inj hbind
  have hstored := g.valid.stored
  have hlevels := g.valid.levels
  rw [g.scopes] at hstored hlevels
  rw [hview]
  refine ⟨g.setScopes ?_ ?_, rfl, rfl⟩
  · intro f' hf' b' hb'
    rcases List.mem_cons.1 hf' with rfl | hf'
    · rcases List.mem_cons.1 hb' with rfl | hb'
      · exact hb
      · exact hstored f (List.mem_cons_self ..) b' hb'
    · exact hstored f' (List.mem_cons_of_mem _ hf') b' hb'
  · intro f' hf'
    rcases List.mem_cons.1 hf' with rfl | hf'
    · exact hlevels f (List.mem_cons_self ..)
    · exact hlevels f' (List.mem_cons_of_mem _ hf')

/-- Steps inside a new scope, seen from inside and from outside. -/
theorem Grown.withScope {kind : ScopeKind} (g : Grown T v₀ k (view s))
    (h : FormM.withScope kind m s = .ok a t) :
    ∃ s₁ t₁, m s₁ = .ok a t₁ ∧
      Grown (T.inside { kind, level := (view s).methods.length }) v₀ k (view s₁) ∧
      view s₁ = { view s with scopes := (view s).scopes.push kind (view s).methods.length } ∧
      (view t).stack = (view t₁).stack ∧
      (∃ slots log, (view t).code = { (view t₁).code with freeSlots := slots, transfers := log }) ∧
      ∀ (T' : Terms) v' f j, T'.scopes = T.scopes → Grown (T'.inside f) v' j (view t₁) →
        Grown T' v' j (view t) := by
  obtain ⟨s₁, t₁, hs₁, hm, ht⟩ := withScope_ok h
  refine ⟨s₁, t₁, hm, ?_, hs₁, ?_, ?_, ?_⟩
  · rw [hs₁, g.scopes]
    refine g.setScopes ?_ ?_
    · intro f hf b hb
      rcases List.mem_cons.1 hf with rfl | hf
      · cases hb
      · exact g.valid.stored f (g.scopes ▸ hf) b hb
    · intro f hf
      rcases List.mem_cons.1 hf with rfl | hf
      · exact Nat.le_refl _
      · exact g.valid.levels f (g.scopes ▸ hf)
  · rcases ht with ht | ⟨bindings, -, -, -, ht⟩ <;> rw [ht] <;> rfl
  · rcases ht with ht | ⟨bindings, -, -, -, ht⟩
    · rw [ht]
      exact ⟨_, _, rfl⟩
    · obtain ⟨slots, log, heq, -⟩ := freeAll_eq bindings (view t₁).code
      rw [ht]
      exact ⟨slots, log, heq⟩
  · intro T' v' f j hscopes g₁
    have hframes : ((view t₁).scopes.truncate (view s).scopes.depth).2 = T'.scopes := by
      rw [g₁.scopes, g.scopes, ← hscopes]
      simp [Terms.inside, Terms.scoped, Scopes.truncate, Scopes.depth]
    have g₂ : Grown T' v' j { view t₁ with scopes := T'.scopes } := by
      refine g₁.setScopes ?_ ?_
      · intro f' hf' b hb
        exact g₁.valid.stored f' (g₁.scopes ▸ List.mem_cons_of_mem _ hf') b hb
      · intro f' hf'
        exact g₁.valid.levels f' (g₁.scopes ▸ List.mem_cons_of_mem _ hf')
    rw [hframes] at ht
    rcases ht with ht | ⟨bindings, hbindings, hlength, -, ht⟩
    · rw [ht]
      exact g₂
    · obtain ⟨slots, log, heq, hslots⟩ := freeAll_eq bindings (view t₁).code
      have hcode : freeAll ({ view t₁ with scopes := T'.scopes } : View).code bindings
          = { (view t₁).code with freeSlots := slots, transfers := log } := heq
      rw [ht, hcode]
      refine g₂.onCode rfl rfl rfl rfl (Nat.le_refl _) ?_
      intro n hn
      rcases hslots n hn with hn | ⟨b, hb, hslot⟩
      · exact g₂.valid.free n hn
      · -- a slot that is given back was stored by a binding of the frame that is gone
        obtain ⟨f', hf', hbf, hlevel, hkind⟩ := hbindings b hb
        have hstored := g₁.valid.stored f' hf' b hbf
        have hown : ¬ (f'.level < (view t₁).methods.length ∨ f'.kind = .closure) := by
          rw [hlevel, hkind, hlength]
          simp
        rw [Stored, if_neg hown, hslot] at hstored
        exact hstored

end Surroundings

/-! ### Values -/

section Values

variable {T : Terms} {v₀ v : View} {k w : Nat} {s t : FormState} {u : Unit}

/-- An instruction that does nothing but take operands and leave a result. -/
theorem Grown.emitResult {i : Instruction} (g : Grown T v₀ k (view s)) (h : FormM.emit i s = .ok u t)
    {pops : List Ty} {ty : Ty} (he : i.effect (view s).sites = .ok (.ops pops (some ty)))
    (hpops : (pops.map Ty.width).sum ≤ k)
    (hslot : ∀ n, i.slot? = some n → n < (view s).code.nextSlot) (htargets : i.targets = []) :
    Grown T v₀ (k - (pops.map Ty.width).sum + ty.width) (view t) ∧ Top ty.width (view t) := by
  refine ⟨g.emit h he hpops hslot ?_, top_emit h he rfl⟩
  rw [htargets]
  intro p _ l hl
  cases hl

theorem Pushed.top {w : Nat} {v t : View} (h : Pushed w v t) : Top w t :=
  h.imp_right fun h => by rw [h, List.head?_cons]

/-- An instruction that leaves a result and takes nothing. -/
theorem Grown.emitValue {i : Instruction} (g : Grown T v₀ k (view s)) (h : FormM.emit i s = .ok u t)
    {ty : Ty} (he : i.effect (view s).sites = .ok (.ops [] (some ty)))
    (hslot : ∀ n, i.slot? = some n → n < (view s).code.nextSlot) (htargets : i.targets = []) :
    Grown T v₀ (k + ty.width) (view t) ∧ Pushed ty.width (view s) (view t) := by
  refine ⟨(g.emitResult h he (Nat.zero_le _) hslot htargets).1, ?_⟩
  refine (widths_emit h he).imp_right ?_
  rintro ⟨rest, hs, ht⟩
  rw [ht, hs]
  rfl

/-- An instruction that takes what is above the base, of which the widths on top are known by what was
pushed and the others by the types they were converted to. -/
theorem Grown.emitExact {i : Instruction} (g : Grown T v₀ k (view s)) (h : FormM.emit i s = .ok u t)
    {below exact : List Ty} {ty : Ty}
    (he : i.effect (view s).sites = .ok (.ops (below ++ exact) (some ty))) {ws rest : List Nat}
    (hws : (view s).reach = none ∨ (view s).widths = ws ++ rest) (hlength : ws.length = exact.length)
    (hsum : (below.map Ty.width).sum + ws.sum = k) (hslot : i.slot? = none) (htargets : i.targets = []) :
    Grown T v₀ ty.width (view t) ∧ Top ty.width (view t) := by
  have htop := top_emit h he rfl
  rcases emit_ok h with ⟨hdead, hview⟩ | ⟨hlive, -⟩
  · rw [hview] at htop ⊢
    exact ⟨g.of_dead (reach_of_dead hdead), htop⟩
  · have hlive' : (view s).reach ≠ none := by simp [View.reach_of_live hlive]
    have hoperands : operands (.ops (below ++ exact) (some ty))
        = (exact.map Ty.width).reverse ++ (below.map Ty.width).reverse := by
      simp [operands]
    have hexact : (exact.map Ty.width).reverse = ws :=
      (operands_eq h he hoperands (hws.resolve_left hlive') (by simpa using hlength)).resolve_left hlive'
    have hpops : ((below ++ exact).map Ty.width).sum = k := by
      rw [List.map_append, List.sum_append_nat, ← hsum, ← hexact, List.sum_reverse_nat]
    obtain ⟨g₁, -⟩ := g.emitResult h he (Nat.le_of_eq hpops) (by simp [hslot]) htargets
    rw [hpops, Nat.sub_self, Nat.zero_add] at g₁
    exact ⟨g₁, htop⟩

/-- An instruction that takes operands and leaves nothing. -/
theorem Grown.emitDrop {i : Instruction} (g : Grown T v₀ k (view s)) (h : FormM.emit i s = .ok u t)
    {pops : List Ty} (he : i.effect (view s).sites = .ok (.ops pops none))
    (hpops : (pops.map Ty.width).sum ≤ k)
    (hslot : ∀ n, i.slot? = some n → n < (view s).code.nextSlot) (htargets : i.targets = []) :
    Grown T v₀ (k - (pops.map Ty.width).sum) (view t) := by
  refine g.emit h he hpops hslot ?_
  rw [htargets]
  intro p _ l hl
  cases hl

theorem slots_emit {i : Instruction} (h : FormM.emit i s = .ok u t) :
    (view t).code.nextSlot = (view s).code.nextSlot := by
  rcases emit_ok h with ⟨-, hview⟩ | ⟨-, e, stack, -, -, hview⟩ <;> rw [hview]
  rfl

/-- Stores the top value in a slot. -/
theorem Grown.store {n : Nat} {ty : Ty} (g : Grown T v₀ (k + ty.width) (view s))
    (hn : n < (view s).code.nextSlot) (h : FormM.emit (.store n ty) s = .ok u t) :
    Grown T v₀ k (view t) ∧ n < (view t).code.nextSlot := by
  have g₁ := g.emitDrop h rfl (by simp) (by simpa [Instruction.slot?] using hn) rfl
  simp only [List.map_cons, List.map_nil, List.sum_singleton, Nat.add_sub_cancel] at g₁
  exact ⟨g₁, by rwa [slots_emit h]⟩

/-- Loads the value in a slot. -/
theorem Grown.load {n : Nat} {ty : Ty} (g : Grown T v₀ k (view s)) (hn : n < (view s).code.nextSlot)
    (h : FormM.emit (.load n ty) s = .ok u t) :
    Grown T v₀ (k + ty.width) (view t) ∧ Pushed ty.width (view s) (view t) ∧
      n < (view t).code.nextSlot := by
  obtain ⟨g₁, hp⟩ := g.emitValue h rfl (by simpa [Instruction.slot?] using hn) rfl
  exact ⟨g₁, hp, by rwa [slots_emit h]⟩

/-- A jump to a label of the depth that control comes with. -/
theorem Grown.goto {j : Nat} {l : Label} (g : Grown T v₀ k (view s))
    (h : FormM.emit (.goto l) s = .ok u t)
    (hl : (view s).stack.isUnreachable = false → ∀ p, T.holds p → p.depthOf l = some (T.base.sum + k)) :
    Grown T v₀ j (view t) := by
  have hdead := reach_emit_ends h rfl
  rcases emit_ok h with ⟨-, hview⟩ | ⟨hlive, e, stack, he, ha, hview⟩
  · rw [hview] at hdead ⊢
    exact g.of_dead hdead
  · refine (g.emit h rfl (Nat.zero_le _) (by simp [Instruction.slot?]) ?_).of_dead hdead
    intro p hp l' hl'
    obtain rfl := List.mem_singleton.1 hl'
    exact hl hlive p hp

theorem widths_markConstant (stack : TypeStack) : widths stack.markConstant = widths stack := by
  unfold TypeStack.markConstant
  split
  · rename_i hrecords
    simp [widths, hrecords, StackRecord.width]
  · rfl

theorem isUnreachable_markConstant (stack : TypeStack) :
    stack.markConstant.isUnreachable = stack.isUnreachable := by
  unfold TypeStack.markConstant
  split
  · rename_i hrecords
    simp [TypeStack.isUnreachable, hrecords]
  · rfl

theorem topType_markConstant (stack : TypeStack) : stack.markConstant.topType? = stack.topType? := by
  unfold TypeStack.markConstant
  split
  · rename_i hrecords
    simp [TypeStack.topType?, hrecords]
  · rfl

theorem max_markConstant (stack : TypeStack) : stack.markConstant.max = stack.max := by
  unfold TypeStack.markConstant
  split <;> rfl

theorem reach_markConstant (stack : TypeStack) : reach stack.markConstant = reach stack := by
  unfold reach
  rw [isUnreachable_markConstant, ← sum_widths, widths_markConstant, sum_widths]

theorem Grown.markConstant (g : Grown T v₀ k v) :
    Grown T v₀ k (v.update { v.work with stack := v.stack.markConstant }) := by
  have hsteady : Steady v.stack.markConstant := by
    refine ⟨?_, ?_⟩
    · rw [← sum_widths, widths_markConstant, max_markConstant]
      exact g.valid.steady.depth_le
    · rw [isUnreachable_markConstant, topType_markConstant]
      exact g.valid.steady.dead
  refine g.unchanged (g.valid.update hsteady g.valid.orderly g.valid.free (Nat.le_refl _)) ?_
    (widths_markConstant _) (reach_markConstant _) rfl rfl rfl rfl rfl rfl
  exact
    { Since.refl v with
      max_le := Nat.le_of_eq (max_markConstant _).symm
      dead := fun hdead => (reach_markConstant _).trans hdead }

/-- A constant on top. -/
theorem Grown.emitConstant {c : Constant} (g : Grown T v₀ k (view s))
    (h : FormM.emitConstant c s = .ok u t) :
    Grown T v₀ (k + c.ty.width) (view t) ∧ Pushed c.ty.width (view s) (view t) := by
  obtain ⟨⟨⟩, s₁, h₁, h⟩ := State.ok_of_bind h
  obtain ⟨g₁, hpushed⟩ := g.emitValue h₁ rfl (by simp [Instruction.slot?]) rfl
  rw [modifyStack_ok h]
  refine ⟨g₁.markConstant, ?_⟩
  unfold Pushed
  rw [View.reach_update, View.widths_update, reach_markConstant, widths_markConstant]
  exact hpushed

/-- A change of the class at work that its methods do not depend on. -/
theorem Grown.onClass (g : Grown T v₀ k v) {f : ClassContext → ClassContext}
    (hf : ∀ c, Widened c (f c)) : Grown T v₀ k (v.onClass f) := by
  refine g.unchanged ?_ ?_ rfl rfl rfl rfl rfl rfl rfl rfl
  · exact ⟨g.valid.working, g.valid.steady, g.valid.orderly, g.valid.free, g.valid.stored, g.valid.levels,
      g.valid.loops⟩
  · refine
      { Since.refl v with
        owner := rfl
        outer := rfl
        size := Array.size_modify ..
        classes := ?_ }
    intro i c hc
    by_cases hi : i = v.work.owner
    · subst hi
      exact ⟨f c, View.getElem?_onClass hc f, hf c, fun hne => absurd rfl hne⟩
    · refine ⟨c, ?_, .refl c, fun _ => rfl⟩
      simp only [View.onClass]
      rw [Array.getElem?_modify, if_neg (Ne.symm hi), hc]

/-- A call, with its arguments on top. -/
theorem Grown.emitCall {spec : SiteSpec} (g : Grown T v₀ k (view s))
    (h : FormM.emitCall spec s = .ok u t) (hargs : (spec.argTypes.map Ty.width).sum ≤ k) :
    Grown T v₀ (k - (spec.argTypes.map Ty.width).sum + spec.ret.width) (view t) ∧
      (spec.ret = .void ∨ Top spec.ret.width (view t)) := by
  obtain ⟨s₁, hview, hsites, h₁⟩ := emitCall_ok g.methods_ne h
  have g₁ : Grown T v₀ k (view s₁) := by
    rw [hview]
    exact g.onClass fun c => ⟨rfl, List.prefix_append _ _⟩
  have heffect : (Instruction.invokeDynamic (view s).sites.length).effect (view s₁).sites
      = .ok (.ops spec.argTypes (if spec.ret = .void then none else some spec.ret)) := by
    simp [Instruction.effect, hsites]
  by_cases hret : spec.ret = .void
  · rw [if_pos hret] at heffect
    rw [hret]
    exact ⟨g₁.emitDrop h₁ heffect hargs (by simp [Instruction.slot?]) rfl, .inl rfl⟩
  · rw [if_neg hret] at heffect
    obtain ⟨g₂, htop⟩ := g₁.emitResult h₁ heffect hargs (by simp [Instruction.slot?]) rfl
    exact ⟨g₂, .inr htop⟩

end Values

/-! ### Conversions of the top value -/

section Conversions

variable {T : Terms} {v₀ : View} {k a b : Nat} {s t : FormState} {u : Unit}

theorem results_of_pushed {e : Effect} (h : e.pushed ≠ 0) : results e = [e.pushed] := by
  cases e with
  | dupTop => rfl
  | ops pops push =>
      cases push with
      | none => exact absurd rfl h
      | some ty => rfl

theorem Grown.emitTurn {i : Instruction} (g : Grown T v₀ (k + a) (view s)) (hi : Turns a i b)
    (h : FormM.emit i s = .ok u t) :
    Grown T v₀ (k + b) (view t) ∧ (b ≠ 0 → Top b (view t)) := by
  obtain ⟨⟨e, he, -, hpopped, hpushed⟩, hends, hslot, htargets⟩ := hi
  have g₁ := g.emit h (he _) (by omega) (by simp [hslot]) (by simp [htargets])
  have hk : k + a - e.popped + e.pushed = k + b := by omega
  rw [hk] at g₁
  refine ⟨g₁, ?_⟩
  intro hb
  refine top_emit h (he _) ?_
  rw [results_of_pushed (hpushed ▸ hb), hpushed]

/-- Instructions that turn the top value into another. -/
theorem Grown.emitAll {code : List Instruction} (hcode : Conversion a code b)
    (g : Grown T v₀ (k + a) (view s)) (htop : a ≠ 0 → Top a (view s))
    (h : FormM.emitAll code s = .ok u t) :
    Grown T v₀ (k + b) (view t) ∧ (b ≠ 0 → Top b (view t)) := by
  induction hcode generalizing s with
  | nil a =>
      cases h
      exact ⟨g, htop⟩
  | cons hi _ hrest ih =>
      obtain ⟨⟨⟩, s₁, h₁, h⟩ := State.ok_of_bind h
      obtain ⟨g₁, htop₁⟩ := g.emitTurn hi h₁
      exact ih g₁ htop₁ h

/-- Where control gets, the value on top has a type of its width; elsewhere it has none. -/
theorem Grown.topType (g : Grown T v₀ k (view s)) (htop : Top a (view s)) :
    ((view s).stack.topType? = none ∧ (view s).reach = none) ∨
      ∃ ty, (view s).stack.topType? = some ty ∧ ty.width = a := by
  cases hlive : (view s).stack.isUnreachable with
  | true => exact .inl ⟨g.valid.steady.dead hlive, reach_of_dead hlive⟩
  | false =>
      rcases htop with hdead | hhead
      · rw [View.reach_of_live hlive] at hdead
        cases hdead
      · obtain ⟨rest, hrest⟩ := List.head?_eq_some_iff.1 hhead
        exact .inr (exists_topType hlive hrest)

theorem Grown.boxTop (g : Grown T v₀ (k + a) (view s)) (htop : Top a (view s))
    (h : FormM.boxTop s = .ok u t) : Grown T v₀ (k + 1) (view t) ∧ Top 1 (view t) := by
  obtain ⟨ty, s₁, h₁, h⟩ := State.ok_of_bind h
  obtain ⟨rfl, rfl⟩ := topType_ok h₁
  rcases g.topType htop with ⟨hnone, hdead⟩ | ⟨ty, hty, rfl⟩
  · rw [hnone] at h
    cases h
    exact ⟨g.of_dead hdead, .inl hdead⟩
  · rw [hty] at h
    obtain ⟨g₁, htop₁⟩ := g.emitAll (toBoxed_conversion ty) (fun _ => htop) h
    exact ⟨g₁, htop₁ Nat.one_ne_zero⟩

theorem Grown.coerceTop {target : Ty} (g : Grown T v₀ (k + a) (view s)) (htop : Top a (view s))
    (h : FormM.coerceTop target s = .ok u t) :
    Grown T v₀ (k + target.width) (view t) ∧ (target.width ≠ 0 → Top target.width (view t)) := by
  obtain ⟨ty, s₁, h₁, h⟩ := State.ok_of_bind h
  obtain ⟨rfl, rfl⟩ := topType_ok h₁
  rcases g.topType htop with ⟨hnone, hdead⟩ | ⟨ty, hty, rfl⟩
  · rw [hnone] at h
    cases h
    exact ⟨g.of_dead hdead, fun _ => .inl hdead⟩
  · rw [hty] at h
    obtain ⟨r, s₂, h₂, h⟩ := State.ok_of_bind h
    cases h₂
    obtain ⟨code, s₃, h₃, h⟩ := State.ok_of_bind h
    obtain ⟨hcode, rfl⟩ := ofExcept_ok h₃
    exact g.emitAll (coerce_conversion hcode) (fun _ => htop) h

theorem width_cases (ty : Ty) : ty.width = 0 ∨ ty.width = 1 ∨ ty.width = 2 := by
  rcases ty with _ | _ | (_ | _ | _ | _) | _ <;> simp [Ty.width]

/-- Dropping the top value leaves what stood below it. -/
theorem Grown.popValue (g : Grown T v₀ (k + a) (view s)) (htop : Top a (view s))
    (h : FormM.popValue s = .ok u t) : Grown T v₀ k (view t) := by
  obtain ⟨ty, s₁, h₁, h⟩ := State.ok_of_bind h
  obtain ⟨rfl, rfl⟩ := topType_ok h₁
  rcases g.topType htop with ⟨hnone, hdead⟩ | ⟨ty, hty, rfl⟩
  · rw [hnone] at h
    cases h
    exact g.of_dead hdead
  · rw [hty] at h
    rcases width_cases ty with hw | hw | hw
    · simp only [Option.map_some, hw] at h
      cases h
      rwa [hw] at g
    · simp only [Option.map_some, hw] at h
      rw [hw] at g
      exact (g.emitTurn turns_pop h).1
    · simp only [Option.map_some, hw] at h
      rw [hw] at g
      exact (g.emitTurn turns_pop2 h).1

/-- What takes only the value on top leaves what was there before it. -/
theorem Pushed.drop {i : Instruction} {v : View} {ty : Ty} (hp : Pushed a v (view s))
    (h : FormM.emit i s = .ok u t) (he : i.effect (view s).sites = .ok (.ops [ty] none)) :
    (view t).reach = none ∨ (view t).widths = v.widths := by
  rcases emit_ok h with ⟨hdead, hview⟩ | ⟨hlive, _⟩
  · rw [hview]
    exact .inl (reach_of_dead hdead)
  · have hwidths := hp.resolve_left (by rw [View.reach_of_live hlive]; simp)
    refine (widths_emit h he).imp_right ?_
    rintro ⟨rest, hs, ht⟩
    rw [hwidths] at hs
    rw [ht, (List.cons.inj hs).2]
    rfl

theorem Pushed.popValue {v : View} (hp : Pushed a v (view s)) (g : Grown T v₀ k (view s)) (ha : a ≠ 0)
    (h : FormM.popValue s = .ok u t) : (view t).reach = none ∨ (view t).widths = v.widths := by
  obtain ⟨ty, s₁, h₁, h⟩ := State.ok_of_bind h
  obtain ⟨rfl, rfl⟩ := topType_ok h₁
  rcases g.topType hp.top with ⟨hnone, hdead⟩ | ⟨ty, hty, rfl⟩
  · rw [hnone] at h
    cases h
    exact .inl hdead
  · rw [hty] at h
    rcases width_cases ty with hw | hw | hw
    · exact absurd hw ha
    · simp only [Option.map_some, hw] at h
      exact hp.drop h rfl
    · simp only [Option.map_some, hw] at h
      exact hp.drop h rfl

end Conversions

end LispMachine.Emission
