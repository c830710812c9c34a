import LispMachine.Proofs.Emission.Exceptions
import LispMachine.Proofs.Emission.Methods

/-! # Code that keeps to itself

Code that is emitted for a part of a form goes only to labels made meanwhile, returns from no method, and writes
no slot that was in use before it.  A `Fence` is put up where such code starts, with the slots it has to leave
alone, and `Respects F x` says that `x` emits nothing that gets over it.  What makes this go through is kept in
`Fenced`: slots behind the fence are not given out again, no binding made inside is one of them, and a loop that
was entered outside is not gone back to, because a `try` or a form that is not in tail position is in between. -/

namespace LispMachine.Emission

open Form

/-! ### What stays -/

/-- What a buffer has over an earlier one is in a later one as it was: no label and no hole made meanwhile has been
placed or filled since, and handlers put up since lead to labels made since. -/
structure Retains (earlier b later : CodeBuffer) : Prop where
  items : b.items.toList <+: later.items.toList
  labels_le : b.labels ≤ later.labels
  placed : ∀ l, earlier.labels ≤ l → l < b.labels → l ∈ labelsOf later.items.toList → l ∈ labelsOf b.items.toList
  holes_le : b.holes.size ≤ later.holes.size
  holes : ∀ h, earlier.holes.size ≤ h → h < b.holes.size → later.holes[h]? = b.holes[h]?
  handlers : ∃ hs, later.handlers.toList = b.handlers.toList ++ hs ∧ ∀ h ∈ hs, b.labels ≤ h.target
  slots_le : b.nextSlot ≤ later.nextSlot

namespace Retains

variable {a a' b c d : CodeBuffer}

theorem refl (a b : CodeBuffer) : Retains a b b where
  items := List.prefix_refl _
  labels_le := Nat.le_refl _
  placed := fun _ _ _ h => h
  holes_le := Nat.le_refl _
  holes := fun _ _ _ => rfl
  handlers := ⟨[], by simp⟩
  slots_le := Nat.le_refl _

theorem trans (h : Retains a b c) (h' : Retains a c d) : Retains a b d where
  items := h.items.trans h'.items
  labels_le := Nat.le_trans h.labels_le h'.labels_le
  placed := fun l hl hlt hmem => h.placed l hl hlt (h'.placed l hl (Nat.lt_of_lt_of_le hlt h.labels_le) hmem)
  holes_le := Nat.le_trans h.holes_le h'.holes_le
  holes := fun i hi hlt => (h'.holes i hi (Nat.lt_of_lt_of_le hlt h.holes_le)).trans (h.holes i hi hlt)
  handlers := by
    obtain ⟨hs, hsplit, htargets⟩ := h.handlers
    obtain ⟨hs', hsplit', htargets'⟩ := h'.handlers
    refine ⟨hs ++ hs', by rw [hsplit', hsplit, List.append_assoc], fun handler hmem => ?_⟩
    rcases List.mem_append.1 hmem with hmem | hmem
    · exact htargets handler hmem
    · exact Nat.le_trans h.labels_le (htargets' handler hmem)
  slots_le := Nat.le_trans h.slots_le h'.slots_le

/-- Of what was there at first less need be said. -/
theorem mono (h : Retains a b c) (hlabels : a.labels ≤ a'.labels) (hholes : a.holes.size ≤ a'.holes.size) :
    Retains a' b c :=
  { h with
    placed := fun l hl => h.placed l (Nat.le_trans hlabels hl)
    holes := fun i hi => h.holes i (Nat.le_trans hholes hi) }

/-- One item more; a label is none of those that were there. -/
theorem append (h : Retains a b c) (d : CodeBuffer) {item : CodeBuffer.Item} (hitems : d.items = c.items.push item)
    (hlabel : ∀ l, item = .label l → a.labels ≤ l → b.labels ≤ l) (hlabels : d.labels = c.labels)
    (hholes : ∀ n < b.holes.size, d.holes[n]? = c.holes[n]?) (hholes_le : c.holes.size ≤ d.holes.size)
    (hhandlers : d.handlers = c.handlers) (hslots : d.nextSlot = c.nextSlot) : Retains a b d where
  items := by
    rw [hitems, Array.toList_push]
    exact h.items.trans (List.prefix_append _ _)
  labels_le := hlabels ▸ h.labels_le
  placed := by
    intro l hl hlt hmem
    rw [hitems, Array.toList_push, labelsOf_append, List.mem_append] at hmem
    rcases hmem with hmem | hmem
    · exact h.placed l hl hlt hmem
    · cases item with
      | label l' =>
        obtain rfl : l = l' := by simpa using hmem
        exact absurd hlt (Nat.not_lt.2 (hlabel l rfl hl))
      | instruction i => cases hmem
      | hole n => cases hmem
  holes_le := Nat.le_trans h.holes_le hholes_le
  holes := fun n hn hlt => (hholes n hlt).trans (h.holes n hn hlt)
  handlers := hhandlers ▸ h.handlers
  slots_le := hslots ▸ h.slots_le

theorem push (h : Retains a b c) (i : Instruction) : Retains a b (c.push i) :=
  h.append (c.push i) rfl nofun rfl (fun _ _ => rfl) (Nat.le_refl _) rfl rfl

theorem newLabel (h : Retains a b c) : Retains a b c.newLabel.2 :=
  { h with labels_le := Nat.le_succ_of_le h.labels_le }

theorem place (h : Retains a b c) {l : Label} (hl : a.labels ≤ l → b.labels ≤ l) : Retains a b (c.place l) :=
  h.append (c.place l) rfl (fun _ heq => by cases heq; exact hl) rfl (fun _ _ => rfl) (Nat.le_refl _) rfl rfl

theorem here (h : Retains a b c) : Retains a b c.here.2 := h.newLabel.place fun _ => h.labels_le

theorem hole (h : Retains a b c) : Retains a b c.hole.2 := by
  refine h.append c.hole.2 rfl nofun rfl (fun n hn => ?_) ?_ rfl rfl
  · change (c.holes.push [])[n]? = c.holes[n]?
    rw [Array.getElem?_push, if_neg (Nat.ne_of_lt (Nat.lt_of_lt_of_le hn h.holes_le))]
  · change c.holes.size ≤ (c.holes.push []).size
    simp

theorem fill (h : Retains a b c) {n : Hole} (hn : b.holes.size ≤ n) (code : List Instruction) :
    Retains a b (c.fill n code) := by
  refine { h with holes_le := ?_, holes := fun n' hn' hlt => ?_ }
  · change _ ≤ (c.holes.setIfInBounds n code).size
    simpa using h.holes_le
  · change (c.holes.setIfInBounds n code)[n']? = _
    have hne : n ≠ n' := fun heq => Nat.lt_irrefl _ (Nat.lt_of_lt_of_le hlt (heq ▸ hn))
    rw [Array.getElem?_setIfInBounds_ne hne, h.holes n' hn' hlt]

theorem addHandler (h : Retains a b c) (first last : Label) {target : Label} (htarget : b.labels ≤ target)
    (catches : Option String) (depth : Nat) : Retains a b (c.addHandler first last target catches depth) := by
  obtain ⟨hs, hsplit, htargets⟩ := h.handlers
  refine { h with handlers := ⟨hs ++ [⟨first, last, target, catches, depth⟩], ?_, fun handler hhandler => ?_⟩ }
  · simp [CodeBuffer.addHandler, hsplit]
  · rcases List.mem_append.1 hhandler with hhandler | hhandler
    · exact htargets handler hhandler
    · rw [List.mem_singleton.1 hhandler]
      exact htarget

theorem describeLocal (h : Retains a b c) (name : String) (slot : Nat) (ty : Ty) (first last : Label) :
    Retains a b (c.describeLocal name slot ty first last) := { h with }

theorem allocSlot (h : Retains a b c) : Retains a b c.allocSlot.2 := by
  unfold CodeBuffer.allocSlot
  split
  · exact { h with }
  · exact { h with slots_le := Nat.le_succ_of_le h.slots_le }

theorem freeSlot (h : Retains a b c) (slot : Nat) : Retains a b (c.freeSlot slot) := by
  unfold CodeBuffer.freeSlot
  split
  · exact { h with }
  · exact { h with }

end Retains

/-! ### Fences -/

/-- The code that was there where some code starts, and the slots in use that the code has to leave alone. -/
structure Fence where
  code : CodeBuffer
  frames : Nat
  kept : List Nat
  /-- Slots in use that may be written nevertheless. -/
  written : List Nat
  /-- Labels in front of the fence that may be gone to. -/
  exits : List Label

/-- A fence at the end of the code emitted so far, with ways over it. -/
def View.gate (v : View) (kept written : List Nat) (exits : List Label) : Fence :=
  ⟨v.code, v.scopes.depth, kept, written, exits⟩

/-- The fence at the end of the code emitted so far. -/
def View.fence (v : View) (kept : List Nat) : Fence := v.gate kept [] []

namespace Fence

variable (F : Fence)

/-- Labels made behind the fence are not below this one. -/
def labels : Label := F.code.labels

/-- Holes made behind the fence are not below this one. -/
def holes : Hole := F.code.holes.size

/-- Code behind the fence may go to the label. -/
def Leads (l : Label) : Prop := F.labels ≤ l ∨ l ∈ F.exits

/-- Code behind the fence may not write the slot. -/
def Spares (slot : Nat) : Prop := slot ∈ F.kept ∧ slot ∉ F.written

/-- An instruction that does not get over a fence. -/
structure Permits (i : Instruction) : Prop where
  targets : ∀ l ∈ i.targets, F.Leads l
  spares : ∀ slot, F.Spares slot → ∀ ty, i ≠ .store slot ty
  stays : ∀ ty, i ≠ .ret ty

/-- The code in front of the fence is as it was, nothing behind gets over it, no slot is free twice, and what may not
be written is in use. -/
structure Admits (c : CodeBuffer) : Prop where
  front : Retains {} F.code c
  items : ∀ i, .instruction i ∈ c.items.toList.drop F.code.items.size → F.Permits i
  holes : ∀ h code, F.holes ≤ h → c.holes[h]? = some code → ∀ i ∈ code, F.Permits i
  free : c.freeSlots.Nodup
  used : ∀ slot ∈ F.kept, slot < c.nextSlot ∧ slot ∉ c.freeSlots

end Fence

/-- An instruction that goes on to the next one, or throws, and writes no slot. -/
structure Quiet (i : Instruction) : Prop where
  targets : i.targets = []
  store : ∀ slot ty, i ≠ .store slot ty
  ret : ∀ ty, i ≠ .ret ty

section Buffers

variable {F : Fence} {c : CodeBuffer} {i : Instruction}

theorem Quiet.permits (h : Quiet i) : F.Permits i :=
  ⟨by simp [h.targets], fun slot _ ty => h.store slot ty, h.ret⟩

theorem Fence.Permits.rewrite {slot : Nat} (h : ¬F.Spares slot) (ty : Ty) : F.Permits (.store slot ty) := by
  refine ⟨by simp [Instruction.targets], fun slot' hslot' ty' heq => ?_, nofun⟩
  cases heq
  exact h hslot'

theorem Fence.Permits.store {slot : Nat} (h : slot ∉ F.kept) (ty : Ty) : F.Permits (.store slot ty) :=
  .rewrite (fun hspares => h hspares.1) ty

theorem Fence.Permits.leave {l : Label} (h : F.Leads l) : F.Permits (.goto l) :=
  ⟨by simpa [Instruction.targets] using h, nofun, nofun⟩

theorem Fence.Permits.goto {l : Label} (h : F.labels ≤ l) : F.Permits (.goto l) := .leave (.inl h)

theorem Fence.Permits.ifFalse {l : Label} (h : F.labels ≤ l) : F.Permits (.ifFalse l) :=
  ⟨by simpa [Instruction.targets, Fence.Leads] using Or.inl h, nofun, nofun⟩

namespace Fence.Admits

theorem labels (h : F.Admits c) : F.labels ≤ c.labels := h.front.labels_le

/-- One item more; an instruction has to be permitted. -/
theorem append (h : F.Admits c) (c' : CodeBuffer) (hfront : Retains {} F.code c') {item : CodeBuffer.Item}
    (hitems : c'.items = c.items.push item) (hitem : ∀ i, item = .instruction i → F.Permits i)
    (hholes : ∀ h code, F.holes ≤ h → c'.holes[h]? = some code → ∀ i ∈ code, F.Permits i)
    (hslots : c'.nextSlot = c.nextSlot) (hfree : c'.freeSlots = c.freeSlots) : F.Admits c' := by
  refine ⟨hfront, fun i hi => ?_, hholes, hfree ▸ h.free, ?_⟩
  · rw [hitems, Array.toList_push, List.drop_append, List.mem_append] at hi
    rcases hi with hi | hi
    · exact h.items i hi
    · exact hitem i (List.mem_singleton.mp (List.mem_of_mem_drop hi)).symm
  · rw [hslots, hfree]
    exact h.used

theorem push (h : F.Admits c) (hi : F.Permits i) : F.Admits (c.push i) :=
  h.append (c.push i) (h.front.push i) rfl (fun _ heq => by cases heq; exact hi) h.holes rfl rfl

theorem newLabel (h : F.Admits c) : F.labels ≤ c.newLabel.1 ∧ F.Admits c.newLabel.2 :=
  ⟨h.labels, { h with front := h.front.newLabel }⟩

theorem place (h : F.Admits c) {l : Label} (hl : F.labels ≤ l) : F.Admits (c.place l) :=
  h.append (c.place l) (h.front.place fun _ => hl) rfl nofun h.holes rfl rfl

theorem here (h : F.Admits c) : F.labels ≤ c.here.1 ∧ F.Admits c.here.2 :=
  ⟨h.labels, h.newLabel.2.place h.labels⟩

theorem hole (h : F.Admits c) : F.holes ≤ c.hole.1 ∧ F.Admits c.hole.2 := by
  refine ⟨h.front.holes_le, h.append c.hole.2 h.front.hole rfl nofun (fun n code hn hcode => ?_) rfl rfl⟩
  change (c.holes.push [])[n]? = some code at hcode
  rw [Array.getElem?_push] at hcode
  split at hcode
  · cases hcode
    simp
  · exact h.holes n code hn hcode

theorem fill (h : F.Admits c) {n : Hole} (hn : F.holes ≤ n) {code : List Instruction}
    (hcode : ∀ i ∈ code, F.Permits i) : F.Admits (c.fill n code) := by
  refine { h with front := h.front.fill hn code, holes := fun n' code' hn' hcode' => ?_ }
  change (c.holes.setIfInBounds n code)[n']? = some code' at hcode'
  rw [Array.getElem?_setIfInBounds] at hcode'
  split at hcode'
  · split at hcode'
    · cases hcode'
      exact hcode
    · cases hcode'
  · exact h.holes n' code' hn' hcode'

theorem addHandler (h : F.Admits c) (first last : Label) {target : Label} (htarget : F.labels ≤ target)
    (catches : Option String) (depth : Nat) : F.Admits (c.addHandler first last target catches depth) :=
  { h with front := h.front.addHandler first last htarget catches depth }

theorem describeLocal (h : F.Admits c) (name : String) (slot : Nat) (ty : Ty) (first last : Label) :
    F.Admits (c.describeLocal name slot ty first last) :=
  { h with front := h.front.describeLocal name slot ty first last }

/-- What is given out is none of the slots in use. -/
theorem allocSlot (h : F.Admits c) : c.allocSlot.1 ∉ F.kept ∧ F.Admits c.allocSlot.2 := by
  have hfront := h.front.allocSlot
  unfold CodeBuffer.allocSlot at hfront ⊢
  cases hfree : c.freeSlots with
  | cons slot rest =>
    have hnodup := h.free
    simp only [hfree] at hfront ⊢
    rw [hfree, List.nodup_cons] at hnodup
    refine ⟨fun hkept => (h.used slot hkept).2 (hfree ▸ List.mem_cons_self ..),
      { h with front := hfront, free := hnodup.2, used := fun slot' hslot' => ?_ }⟩
    refine ⟨(h.used slot' hslot').1, fun hmem => (h.used slot' hslot').2 ?_⟩
    rw [hfree]
    exact List.mem_cons_of_mem _ hmem
  | nil =>
    simp only [hfree] at hfront ⊢
    refine ⟨fun hkept => Nat.lt_irrefl _ (h.used _ hkept).1,
      { h with front := hfront, free := List.nodup_nil, used := fun slot' hslot' => ?_ }⟩
    exact ⟨Nat.lt_succ_of_lt (h.used slot' hslot').1, List.not_mem_nil⟩

theorem freeSlot (h : F.Admits c) {slot : Nat} (hslot : slot ∉ F.kept) : F.Admits (c.freeSlot slot) := by
  have hfront := h.front.freeSlot slot
  unfold CodeBuffer.freeSlot at hfront ⊢
  split
  · rename_i hfree
    rw [if_pos hfree] at hfront
    exact { h with front := hfront }
  · rename_i hnew
    rw [if_neg hnew] at hfront
    refine { h with
      front := hfront
      free := List.nodup_cons.2 ⟨by simpa using hnew, h.free⟩
      used := fun slot' hslot' => ⟨(h.used slot' hslot').1, ?_⟩ }
    rw [List.mem_cons, not_or]
    exact ⟨fun heq => hslot (heq ▸ hslot'), (h.used slot' hslot').2⟩

/-- Bindings that are none of the slots in use give back others. -/
theorem freeAll {bindings : List Binding} (h : F.Admits c)
    (hbindings : ∀ b ∈ bindings, ∀ slot ∈ F.kept, b.slot ≠ .local slot) :
    F.Admits (Emission.freeAll c bindings) := by
  induction bindings generalizing c with
  | nil => exact h
  | cons b rest ih =>
    refine ih ?_ fun b' hb' => hbindings b' (List.mem_cons_of_mem _ hb')
    have hb := hbindings b (List.mem_cons_self ..)
    dsimp only
    split
    · rename_i slot hslot
      exact h.freeSlot fun hkept => hb slot hkept hslot
    · exact h

end Fence.Admits

end Buffers

/-! ### Views behind a fence -/

/-- What holds between any two steps behind a fence. -/
structure Fenced (F : Fence) (v : View) : Prop where
  working : v.methods ≠ []
  levels : Levelled v
  code : F.Admits v.code
  frames : F.frames ≤ v.scopes.depth
  bound : ∀ f ∈ v.scopes.frames.take (v.scopes.depth - F.frames), ∀ b ∈ f.bindings, ∀ slot ∈ F.kept,
    b.slot ≠ .local slot
  loop : ∀ head slots d rest, v.loops = .compiled head slots d :: rest → d ≤ v.work.tryDepth ∧
    (v.tail = true → d = v.work.tryDepth → F.Leads head ∧ ∀ q ∈ slots, q.1 ∉ F.kept)

/-- A step behind a fence, which puts back the loops and the `try` forms around it, and the position. -/
structure Heeds (F : Fence) (v w : View) : Prop where
  fenced : Fenced F w
  loops : w.loops = v.loops
  tail : w.tail = v.tail
  tryDepth : w.work.tryDepth = v.work.tryDepth

/-- Whenever the action ends well behind a fence, its end is behind the fence, and its result is as said. -/
def Yields {α : Type} (F : Fence) (P : α → Prop) (x : FormM α) : Prop :=
  ∀ ⦃s a t⦄, Fenced F (view s) → x s = .ok a t → P a ∧ Heeds F (view s) (view t)

/-- An action that does not get over a fence. -/
abbrev Respects {α : Type} (F : Fence) (x : FormM α) : Prop := Yields F (fun _ => True) x

section Views

variable {F : Fence} {u v w : View}

theorem Heeds.refl (h : Fenced F v) : Heeds F v v := ⟨h, rfl, rfl, rfl⟩

theorem Heeds.trans (h : Heeds F u v) (h' : Heeds F v w) : Heeds F u w :=
  ⟨h'.fenced, h'.loops.trans h.loops, h'.tail.trans h.tail, h'.tryDepth.trans h.tryDepth⟩

/-- A change of the method at work. -/
theorem Fenced.update (h : Fenced F v) {m : MethodContext} (hcode : F.Admits m.code)
    (hdepth : m.tryDepth = v.work.tryDepth) : Heeds F v (v.update m) := by
  have hlength : (v.update m).methods.length = v.methods.length := by
    rw [View.methods_eq h.working]
    rfl
  refine ⟨⟨by simp, ?_, hcode, h.frames, h.bound, ?_⟩, rfl, rfl, hdepth⟩
  · intro f hf
    rw [hlength]
    exact h.levels f hf
  · rw [View.work_update, hdepth]
    exact h.loop

/-- Loops that could be gone back to before can be so now, if all around is as it was. -/
theorem loop_of_same (h : Fenced F v) (hloops : w.loops = v.loops) (htail : w.tail = v.tail)
    (hdepth : w.work.tryDepth = v.work.tryDepth) :
    ∀ head slots d rest, w.loops = .compiled head slots d :: rest → d ≤ w.work.tryDepth ∧
      (w.tail = true → d = w.work.tryDepth → F.Leads head ∧ ∀ q ∈ slots, q.1 ∉ F.kept) := by
  rw [hloops, htail, hdepth]
  exact h.loop

end Views

/-! ### Actions -/

section Actions

variable {α β : Type} {F : Fence} {P : α → Prop} {Q : β → Prop} {x : FormM α} {f : α → FormM β}

theorem Yields.bind (hx : Yields F P x) (hf : ∀ a, P a → Yields F Q (f a)) : Yields F Q (x >>= f) := by
  intro s b t hs hrun
  obtain ⟨a, s₁, h₁, hrun⟩ := State.ok_of_bind hrun
  obtain ⟨ha, hfirst⟩ := hx hs h₁
  obtain ⟨hb, hsecond⟩ := hf a ha hfirst.fenced hrun
  exact ⟨hb, hfirst.trans hsecond⟩

theorem Respects.bind (hx : Respects F x) (hf : ∀ a, Yields F Q (f a)) : Yields F Q (x >>= f) :=
  Yields.bind hx fun a _ => hf a

theorem Yields.respects (hx : Yields F P x) : Respects F x :=
  fun _ _ _ hs hrun => ⟨trivial, (hx hs hrun).2⟩

theorem yields_pure {a : α} (ha : P a) : Yields F P (pure a : FormM α) := by
  intro s b t hs hrun
  cases hrun
  exact ⟨ha, .refl hs⟩

theorem respects_pure (a : α) : Respects F (pure a : FormM α) := yields_pure trivial

theorem yields_fail (e : Error) : Yields F P (FormM.fail e : FormM α) := fun _ _ _ _ hrun => by cases hrun

theorem respects_aside (hx : Aside x) : Respects F x := by
  intro s a t hs hrun
  rw [hx hrun]
  exact ⟨trivial, .refl hs⟩

theorem yields_ofExcept {e : Except Error α} (he : ∀ a, e = .ok a → P a) : Yields F P (FormM.ofExcept e) := by
  intro s a t hs hrun
  obtain ⟨ha, rfl⟩ := ofExcept_ok hrun
  exact ⟨he a ha, .refl hs⟩

theorem respects_ofExcept (e : Except Error α) : Respects F (FormM.ofExcept e) := respects_aside (.ofExcept e)

theorem Yields.ite {c : Prop} [Decidable c] {x y : FormM α} (hx : Yields F P x) (hy : Yields F P y) :
    Yields F P (if c then x else y) := by
  split
  · exact hx
  · exact hy

theorem Respects.atSpan (hx : Respects F x) (span : Span) : Respects F (x.atSpan span) :=
  fun _ _ _ hs hrun => hx hs (atSpan_ok hrun)

theorem Respects.forM {f : α → FormM Unit} {xs : List α} (hf : ∀ x ∈ xs, Respects F (f x)) :
    Respects F (xs.forM f) := by
  induction xs with
  | nil => exact respects_pure ()
  | cons x xs ih =>
    exact (hf x (List.mem_cons_self ..)).bind (f := fun _ => xs.forM f) fun _ =>
      ih fun y hy => hf y (List.mem_cons_of_mem _ hy)

theorem Yields.mapM {xs : List α} (hf : ∀ x ∈ xs, Yields F Q (f x)) :
    Yields F (fun ys : List β => ∀ y ∈ ys, Q y) (xs.mapM f) := by
  induction xs with
  | nil => exact yields_pure (by simp)
  | cons x xs ih =>
    rw [List.mapM_cons]
    refine (hf x (List.mem_cons_self ..)).bind fun y hy => ?_
    refine (ih fun x' hx' => hf x' (List.mem_cons_of_mem _ hx')).bind fun ys hys => ?_
    exact yields_pure (List.forall_mem_cons.mpr ⟨hy, hys⟩)

theorem respects_modifyCode {f : CodeBuffer → CodeBuffer} (hf : ∀ c, F.Admits c → F.Admits (f c)) :
    Respects F (FormM.modifyCode f) := by
  intro s u t hs hrun
  rw [modifyCode_ok hrun]
  exact ⟨trivial, hs.update (hf _ hs.code) rfl⟩

theorem yields_onCode {f : CodeBuffer → α × CodeBuffer} (hf : ∀ c, F.Admits c → P (f c).1 ∧ F.Admits (f c).2) :
    Yields F P (FormM.onCode f) := by
  intro s a t hs hrun
  obtain ⟨rfl, hview⟩ := onCode_ok hrun
  rw [hview]
  exact ⟨(hf _ hs.code).1, hs.update (hf _ hs.code).2 rfl⟩

theorem respects_modifyStack (f : TypeStack → TypeStack) : Respects F (FormM.modifyStack f) := by
  intro s u t hs hrun
  rw [modifyStack_ok hrun]
  exact ⟨trivial, hs.update hs.code rfl⟩

theorem respects_stack : Respects F FormM.stack := by
  intro s stack t hs hrun
  obtain ⟨rfl, -⟩ := stack_ok hrun
  exact ⟨trivial, .refl hs⟩

theorem respects_topType : Respects F FormM.topType? := by
  intro s ty t hs hrun
  obtain ⟨rfl, -⟩ := topType_ok hrun
  exact ⟨trivial, .refl hs⟩

theorem respects_isUnreachable : Respects F FormM.isUnreachable := by
  intro s dead t hs hrun
  obtain ⟨rfl, -⟩ := isUnreachable_ok hrun hs.working
  exact ⟨trivial, .refl hs⟩

/-- Nothing more is done where control does not get. -/
theorem Respects.whereLive {rest : FormM Unit} (hrest : Respects F rest) :
    Respects F (do
      if ← FormM.isUnreachable then return ()
      rest) := by
  refine respects_isUnreachable.bind fun dead => ?_
  cases dead with
  | true => exact respects_pure ()
  | false => exact hrest

/-- A change of the class at work is none of the method. -/
theorem Fenced.onClass {v : View} (h : Fenced F v) (f : ClassContext → ClassContext) : Heeds F v (v.onClass f) :=
  ⟨⟨h.working, h.levels, h.code, h.frames, h.bound, h.loop⟩, rfl, rfl, rfl⟩

theorem respects_className : Respects F FormM.className := by
  intro s name t hs hrun
  obtain rfl := className_ok hs.working hrun
  exact ⟨trivial, .refl hs⟩

theorem respects_capture (name : String) (ty : Ty) : Respects F (FormM.capture name ty) := by
  intro s r t hs hrun
  refine ⟨trivial, ?_⟩
  rcases capture_ok hs.working hrun with hview | hview <;> rw [hview]
  · exact .refl hs
  · exact hs.onClass _

/-! ### Labels and slots -/

theorem yields_newLabel : Yields F (F.labels ≤ ·) FormM.newLabel := yields_onCode fun _ h => h.newLabel

theorem yields_here : Yields F (F.labels ≤ ·) FormM.here := yields_onCode fun _ h => h.here

theorem respects_place {l : Label} (hl : F.labels ≤ l) : Respects F (FormM.place l) :=
  respects_modifyCode fun _ h => h.place hl

theorem yields_allocSlot : Yields F (· ∉ F.kept) FormM.allocSlot := yields_onCode fun _ h => h.allocSlot

theorem respects_freeSlot {slot : Nat} (hslot : slot ∉ F.kept) :
    Respects F (FormM.modifyCode fun c => c.freeSlot slot) :=
  respects_modifyCode fun _ h => h.freeSlot hslot

/-! ### Emitting -/

theorem respects_emit {i : Instruction} (hi : F.Permits i) : Respects F (FormM.emit i) := by
  intro s u t hs hrun
  refine ⟨trivial, ?_⟩
  rcases emit_run hrun with ⟨-, hview⟩ | ⟨-, e, stack, -, -, hview⟩ <;> rw [hview]
  · exact .refl hs
  · exact hs.update (hs.code.push hi) rfl

theorem respects_quiet {i : Instruction} (hi : Quiet i) : Respects F (FormM.emit i) := respects_emit hi.permits

theorem respects_emitAll {code : List Instruction} (hcode : ∀ i ∈ code, Quiet i) :
    Respects F (FormM.emitAll code) :=
  .forM fun i hi => respects_quiet (hcode i hi)

theorem respects_emitConstant (c : Constant) : Respects F (FormM.emitConstant c) :=
  (respects_quiet (i := .const c) ⟨rfl, nofun, nofun⟩).bind fun _ => respects_modifyStack _

theorem respects_emitCall (spec : SiteSpec) : Respects F (FormM.emitCall spec) := by
  intro s u t hs hrun
  obtain ⟨s₁, hview, -, hrun⟩ := emitCall_ok hs.working hrun
  have hsite : Heeds F (view s) (view s₁) := hview ▸ hs.onClass _
  have hquiet : Quiet (.invokeDynamic (view s).sites.length) := ⟨rfl, nofun, nofun⟩
  exact ⟨trivial, hsite.trans (respects_quiet hquiet hsite.fenced hrun).2⟩

theorem Turns.quiet {a b : Nat} {i : Instruction} (h : Turns a i b) : Quiet i := by
  obtain ⟨-, hends, hslot, htargets⟩ := h
  refine ⟨htargets, fun slot ty heq => ?_, fun ty heq => ?_⟩
  · rw [heq] at hslot
    cases hslot
  · rw [heq] at hends
    cases hends

theorem Conversion.quiet {a b : Nat} {code : List Instruction} (h : Conversion a code b) : ∀ i ∈ code, Quiet i := by
  induction h with
  | nil => simp
  | cons hi _ _ ih => exact List.forall_mem_cons.mpr ⟨hi.quiet, ih⟩

theorem respects_boxTop : Respects F FormM.boxTop := by
  refine respects_topType.bind fun ty => ?_
  cases ty with
  | none => exact respects_pure ()
  | some ty => exact respects_emitAll (toBoxed_conversion ty).quiet

theorem respects_popValue : Respects F FormM.popValue := by
  refine respects_topType.bind fun ty => ?_
  split
  · exact respects_quiet ⟨rfl, nofun, nofun⟩
  · exact respects_quiet ⟨rfl, nofun, nofun⟩
  · exact respects_pure ()

theorem respects_coerceTop (target : Ty) : Respects F (FormM.coerceTop target) := by
  refine respects_topType.bind fun ty => ?_
  cases ty with
  | none => exact respects_pure ()
  | some ty =>
    refine (respects_aside aside_registry).bind fun r => ?_
    refine (yields_ofExcept fun code hcode => (coerce_conversion hcode).quiet).bind fun code hcode => ?_
    exact respects_emitAll hcode

theorem respects_settle (base : List StackRecord) (result : Option Ty) : Respects F (FormM.settle base result) := by
  refine (respects_modifyStack _).bind fun _ => .ite (respects_pure ()) ?_
  split
  · exact respects_modifyStack _
  · exact respects_modifyStack _

/-! ### Nesting -/

/-- Out of tail position no loop is gone back to. -/
theorem Respects.outOfTail (hx : Respects F x) : Respects F (FormM.withTail false x) := by
  intro s a t hs hrun
  obtain ⟨s₁, t₁, hs₁, hm, ht⟩ := withTail_ok hrun
  have hstart : Fenced F (view s₁) := by
    rw [hs₁]
    refine ⟨hs.working, hs.levels, hs.code, hs.frames, hs.bound, fun head slots d rest hloops => ?_⟩
    exact ⟨(hs.loop head slots d rest hloops).1, nofun⟩
  obtain ⟨-, hfenced, hloops, -, hdepth⟩ := hx hstart hm
  rw [hs₁] at hloops hdepth
  rw [ht]
  refine ⟨trivial, ⟨hfenced.working, hfenced.levels, hfenced.code, hfenced.frames, hfenced.bound, ?_⟩, hloops, rfl,
    hdepth⟩
  exact loop_of_same hs hloops rfl hdepth

/-- The bindings of a scope are gone behind it, and their slots were none of those in use before. -/
theorem Respects.withScope (hx : Respects F x) (kind : ScopeKind) : Respects F (FormM.withScope kind x) := by
  intro s a t hs hrun
  obtain ⟨s₁, t₁, hs₁, hm, ht⟩ := withScope_run hrun
  have hdepth₁ : (view s).scopes.depth + 1 - F.frames = (view s).scopes.depth - F.frames + 1 := by
    have hle := hs.frames
    omega
  have hstart : Fenced F (view s₁) := by
    rw [hs₁]
    refine ⟨hs.working, ?_, hs.code, Nat.le_succ_of_le hs.frames, ?_, hs.loop⟩
    · exact List.forall_mem_cons.mpr ⟨Nat.le_refl _, hs.levels⟩
    · change ∀ f ∈ (_ :: (view s).scopes.frames).take ((view s).scopes.depth + 1 - F.frames), _
      rw [hdepth₁, List.take_succ_cons]
      exact List.forall_mem_cons.mpr ⟨List.forall_mem_nil _, hs.bound⟩
  obtain ⟨-, hfenced, hloops, htail, hdepth⟩ := hx hstart hm
  rw [hs₁] at hloops htail hdepth
  -- the frames left are the outer ones of those there were
  let frames := (view t₁).scopes.frames
  let extra := (view t₁).scopes.depth - (view s).scopes.depth
  have hleft : Fenced F { view t₁ with scopes := ((view t₁).scopes.truncate (view s).scopes.depth).2 } := by
    have hle := hs.frames
    have hle' := hfenced.frames
    have hlength : (frames.drop extra).length = frames.length - extra := List.length_drop
    refine ⟨hfenced.working, fun f hf => hfenced.levels f (List.mem_of_mem_drop hf), hfenced.code, ?_, ?_,
      hfenced.loop⟩
    · change F.frames ≤ (frames.drop extra).length
      rw [hlength]
      simp only [Scopes.depth, frames, extra] at hle hle' ⊢
      omega
    · intro f hf
      change f ∈ (frames.drop extra).take ((frames.drop extra).length - F.frames) at hf
      refine hfenced.bound f ?_
      rw [List.take_drop, hlength] at hf
      have hin := List.mem_of_mem_drop hf
      have hcount : extra + (frames.length - extra - F.frames) ≤ (view t₁).scopes.depth - F.frames := by
        simp only [Scopes.depth, frames, extra] at hle hle' ⊢
        omega
      exact List.take_subset_take_left _ hcount hin
  rcases ht with ht | ⟨bindings, hbindings, -, -, ht⟩ <;> rw [ht]
  · exact ⟨trivial, hleft, hloops, htail, hdepth⟩
  · have hfreed : F.Admits (freeAll (view t₁).code bindings) := by
      refine hfenced.code.freeAll fun b hb => ?_
      obtain ⟨f, hf, hbound, -⟩ := hbindings b hb
      refine hfenced.bound f (List.take_subset_take_left _ ?_ hf) b hbound
      exact Nat.sub_le_sub_left hs.frames _
    obtain ⟨hupdated, hloops', htail', hdepth'⟩ := hleft.update (m := { (view t₁).work with
      code := freeAll (view t₁).code bindings }) hfreed rfl
    exact ⟨trivial, hupdated, hloops'.trans hloops, htail'.trans htail, hdepth'.trans hdepth⟩

theorem respects_bindName {b : Binding} (hb : ∀ slot ∈ F.kept, b.slot ≠ .local slot) :
    Respects F (FormM.bindName b) := by
  intro s u t hs hrun
  obtain ⟨scopes, hbind, ht⟩ := bindName_ok hrun
  rw [ht]
  unfold Scopes.bind at hbind
  split at hbind
  · cases hbind
  · rename_i f rest hframes
    cases hbind
    have hdepth : (view s).scopes.depth = rest.length + 1 := by
      rw [Scopes.depth, hframes]
      rfl
    have hle : F.frames ≤ rest.length + 1 := hdepth ▸ hs.frames
    refine ⟨trivial, ⟨hs.working, ?_, hs.code, hle, ?_, hs.loop⟩, rfl, rfl, rfl⟩
    · have hlevels := hs.levels
      unfold Levelled at hlevels
      rw [hframes] at hlevels
      obtain ⟨hf, hrest⟩ := List.forall_mem_cons.mp hlevels
      exact List.forall_mem_cons.mpr ⟨hf, hrest⟩
    · have hbound := hs.bound
      rw [hdepth, hframes] at hbound
      change ∀ g ∈ ({ f with bindings := b :: f.bindings } :: rest).take (rest.length + 1 - F.frames), _
      cases hcount : rest.length + 1 - F.frames with
      | zero => simp
      | succ n =>
        rw [hcount, List.take_succ_cons] at hbound
        obtain ⟨hf, hrest⟩ := List.forall_mem_cons.mp hbound
        rw [List.take_succ_cons]
        exact List.forall_mem_cons.mpr ⟨List.forall_mem_cons.mpr ⟨hb, hf⟩, hrest⟩

/-- Inside a loop that is entered behind the fence, where its body is in tail position. -/
theorem heeds_withLoop {head : Label} {slots : List (Nat × Ty)} {d : Nat} {s t : FormState} {a : α}
    (hx : Respects F x) (hhead : F.labels ≤ head) (hslots : ∀ q ∈ slots, q.1 ∉ F.kept) (hs : Fenced F (view s))
    (hd : d = (view s).work.tryDepth)
    (hrun : withLoop (.compiled head slots d) (FormM.withTail true x) s = .ok a t) :
    Heeds F (view s) (view t) := by
  obtain ⟨s₁, t₁, hs₁, hm, ht⟩ := withLoop_ok hrun
  obtain ⟨s₂, t₂, hs₂, hm, ht₁⟩ := withTail_ok hm
  have hstart : Fenced F (view s₂) := by
    rw [hs₂, hs₁]
    refine ⟨hs.working, hs.levels, hs.code, hs.frames, hs.bound, ?_⟩
    intro head' slots' d' rest hloops
    cases hloops
    exact ⟨Nat.le_of_eq hd, fun _ _ => ⟨.inl hhead, hslots⟩⟩
  obtain ⟨-, hfenced, -, -, hdepth⟩ := hx hstart hm
  have hdepth : (view t₂).work.tryDepth = (view s).work.tryDepth := by
    rw [hdepth, hs₂, hs₁]
    rfl
  have htail : (view s₁).tail = (view s).tail := by rw [hs₁]
  rw [ht, ht₁, htail]
  refine ⟨⟨hfenced.working, hfenced.levels, hfenced.code, hfenced.frames, hfenced.bound, ?_⟩, rfl, rfl, hdepth⟩
  exact loop_of_same hs rfl rfl hdepth

/-- Loops around a `try` are out of reach inside it. -/
theorem Respects.withinTry (hx : Respects F x) : Respects F (Form.withinTry x) := by
  intro s a t hs hrun
  obtain ⟨s₁, t₁, hs₁, hm, ht⟩ := withinTry_ok hrun
  have hlength : (view s₁).methods.length = (view s).methods.length := by
    rw [hs₁, View.methods_eq hs.working]
    rfl
  have hstart : Fenced F (view s₁) := by
    refine ⟨by rw [hs₁]; simp, ?_, by rw [hs₁]; exact hs.code, by rw [hs₁]; exact hs.frames,
      by rw [hs₁]; exact hs.bound, ?_⟩
    · intro f hf
      rw [hlength]
      rw [hs₁] at hf
      exact hs.levels f hf
    · intro head slots d rest hloops
      rw [hs₁] at hloops ⊢
      have hle := (hs.loop head slots d rest hloops).1
      have hdepth : ((view s).update { (view s).work with tryDepth := (view s).work.tryDepth + 1 }).work.tryDepth
          = (view s).work.tryDepth + 1 := rfl
      rw [hdepth]
      exact ⟨by omega, fun _ heq => absurd heq (by omega)⟩
  obtain ⟨-, hfenced, hloops, htail, hdepth⟩ := hx hstart hm
  have hloops : (view t₁).loops = (view s).loops := by
    rw [hloops, hs₁]
    rfl
  have htail : (view t₁).tail = (view s).tail := by
    rw [htail, hs₁]
    rfl
  have hdepth : (view t₁).work.tryDepth - 1 = (view s).work.tryDepth := by
    rw [hdepth, hs₁]
    rfl
  have hlength : (view t).methods.length = (view t₁).methods.length := by
    rw [ht hfenced.working, View.methods_eq hfenced.working]
    rfl
  refine ⟨trivial, ⟨by rw [ht hfenced.working]; simp, ?_, by rw [ht hfenced.working]; exact hfenced.code,
    by rw [ht hfenced.working]; exact hfenced.frames, by rw [ht hfenced.working]; exact hfenced.bound, ?_⟩, ?_, ?_, ?_⟩
  · intro f hf
    rw [hlength]
    rw [ht hfenced.working] at hf
    exact hfenced.levels f hf
  · rw [ht hfenced.working]
    exact loop_of_same hs hloops htail hdepth
  · rw [ht hfenced.working]
    exact hloops
  · rw [ht hfenced.working]
    exact htail
  · rw [ht hfenced.working]
    exact hdepth

end Actions

end LispMachine.Emission
