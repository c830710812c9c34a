import LispMachine.Proofs.Emission.Exceptions
import LispMachine.Proofs.Emission.Methods
import LispMachine.Proofs.Slots.Ledger

/-! # Keeping account

Work on a form goes on with the code of the method that is at work, and with its account.  `Tracks S C C' P x` says that
`x`, where the slots are used as `C` says and the account is in order, goes to where they are used as `C'` says and it
still is, and that its result is as `P` says; most work puts everything back (`Keeps`).  The slots that the scene keeps
stay where they are all along. -/

namespace LispMachine.Slots

open Form Emission
open CodeBuffer (Operation)

/-! ### Where account is kept -/

/-- A method as it is compiled: how many methods are open with it, how many slots its receiver has, and how many its
receiver and its parameters have; slots that stay in use, theirs among them; and the scopes around it, which belong to
the methods around it. -/
structure Scene where
  level : Nat
  first : Nat
  reserved : Nat
  kept : List Nat
  outer : List ScopeFrame
  below : ∀ f ∈ outer, f.level < level
  covered : ∀ n < reserved, n ∈ kept

/-- The slots that are kept are in use. -/
def Scene.Covers (S : Scene) (C : Holding) : Prop := ∀ n ∈ S.kept, n ∈ C.live S.first

/-- The open scopes are those of the method, in front of the ones around it.  Nothing is reached through a receiver
that there is not, and what a `recur` would store into is bound.  The code accounts for the slots that are used. -/
structure At (S : Scene) (C : Holding) (v : View) : Prop where
  working : v.methods ≠ []
  level : v.methods.length = S.level
  scopes : v.scopes.frames = C.frames ++ S.outer
  own : ∀ f ∈ C.frames, f.level = S.level ∧ f.kind ≠ .closure
  reached : 0 < S.first ∨ S.outer = [] ∧ ∀ f ∈ C.frames, ∀ b ∈ f.bindings, ∃ n, b.slot = .local n
  loops : ∀ head slots d, .compiled head slots d ∈ v.loops → ∀ q ∈ slots, ∃ f ∈ C.frames, q.1 ∈ localSlots f.bindings
  covers : S.Covers C
  account : Account S.reserved (C.live S.first) v.code

/-- The scene with everything kept that is in use. -/
def Scene.keeping (S : Scene) {C : Holding} {v : View} (h : At S C v) : Scene :=
  { S with kept := C.live S.first, covered := fun n hn => h.covers n (S.covered n hn) }

/-- The code goes on to where the slots are used so, with the same loops open. -/
structure Moves (S : Scene) (C' : Holding) (v w : View) : Prop where
  since : Extends S.kept v.code w.code
  ends : At S C' w
  loops : w.loops = v.loops

/-- Whenever the action ends well, the code has gone on, and the result is as said. -/
def Tracks {α : Type} (S : Scene) (C : Holding) (C' : α → Holding) (P : α → Prop) (x : FormM α) : Prop :=
  ∀ ⦃s a t⦄, At S C (view s) → x s = .ok a t → P a ∧ Moves S (C' a) (view s) (view t)

/-- An action behind which the slots are used as before. -/
abbrev Keeps {α : Type} (S : Scene) (C : Holding) (x : FormM α) : Prop := Tracks S C (fun _ => C) (fun _ => True) x

/-- One slot more that is held. -/
def Holding.take (C : Holding) (n : Nat) : Holding := ⟨C.frames, n :: C.held⟩

section Holdings

variable {C : Holding} {f : ScopeFrame} {frames : List ScopeFrame} {held : List Nat} {first n : Nat}

theorem mem_take (C : Holding) (first n : Nat) : n ∈ (C.take n).live first := by
  simp [Holding.live, Holding.take]

theorem mem_frames (hf : f ∈ C.frames) (hn : n ∈ localSlots f.bindings) : n ∈ C.live first :=
  List.mem_append_right _ (List.mem_append_left _ (List.mem_flatMap.2 ⟨f, hf, hn⟩))

theorem zero_mem_live (hfirst : 0 < first) : 0 ∈ C.live first :=
  List.mem_append_left _ (List.mem_range.2 hfirst)

theorem mem_localSlots {b : Binding} {bindings : List Binding} (hb : b ∈ bindings) (hslot : b.slot = .local n) :
    n ∈ localSlots bindings :=
  List.mem_filterMap.2 ⟨b, hb, by rw [hslot]⟩

end Holdings

section Views

variable {S : Scene} {C C' C'' : Holding} {u v w : View}

theorem Scene.Covers.perm (h : S.Covers C) (hperm : (C.live S.first).Perm (C'.live S.first)) : S.Covers C' :=
  fun n hn => hperm.mem_iff.1 (h n hn)

theorem Scene.Covers.take (h : S.Covers C) (n : Nat) : S.Covers (C.take n) := by
  intro m hm
  have hmem := h m hm
  simp only [Holding.live, Holding.take, List.mem_append, List.mem_cons] at hmem ⊢
  tauto

theorem Moves.refl (h : At S C v) : Moves S C v v := ⟨.refl _ _, h, rfl⟩

theorem Moves.trans (h : Moves S C u v) (h' : Moves S C' v w) : Moves S C' u w :=
  ⟨h.since.trans h'.since, h'.ends, h'.loops.trans h.loops⟩

theorem At.length_update (h : At S C v) (m : MethodContext) : (v.update m).methods.length = S.level := by
  rw [← h.level, View.methods_eq h.working]
  rfl

/-- A change of the method at work, with an account of its own. -/
theorem At.update (h : At S C v) {m : MethodContext} {held : List Nat} (hcovers : S.Covers ⟨C.frames, held⟩)
    (haccount : Account S.reserved ((Holding.mk C.frames held).live S.first) m.code) :
    At S ⟨C.frames, held⟩ (v.update m) :=
  { h with working := by simp, level := h.length_update m, covers := hcovers, account := haccount }

/-- One that leaves the code alone. -/
theorem At.sameCode (h : At S C v) {m : MethodContext} (hcode : m.code = v.code) : At S C (v.update m) :=
  h.update h.covers (hcode ▸ h.account)

/-- An operation that names slots in use. -/
theorem At.operate (h : At S C v) {m : MethodContext} (op : Operation) (hemits : Emits op)
    (hslots : ∀ n ∈ namedSlots op, n ∈ C.live S.first) (hcode : m.code = op.apply v.code) :
    Moves S C v (v.update m) :=
  ⟨by rw [View.code_update, hcode]; exact .apply S.kept v.code op hemits,
    h.update h.covers (hcode ▸ h.account.apply op hemits hslots), rfl⟩

/-- A slot is given out and held. -/
theorem At.take (h : At S C v) {m : MethodContext} (hcode : m.code = v.code.allocSlot.2) :
    Moves S (C.take v.code.allocSlot.1) v (v.update m) := by
  refine ⟨?_, ?_, rfl⟩
  · rw [View.code_update, hcode]
    have hother : v.code.allocSlot.1 ∉ S.kept := fun hkept => h.account.apart.fresh (h.covers _ hkept)
    exact .transfer (transfers_allocSlot v.code) hother (allocSlot_items v.code)
  · exact h.update (h.covers.take _) (hcode ▸ h.account.take.perm (live_held _ _ _ _).symm)

/-- The slot held last is given back. -/
theorem At.give {n : Nat} (h : At S (C.take n) v) (hcovers : S.Covers C) {m : MethodContext}
    (hcode : m.code = v.code.freeSlot n) : Moves S C v (v.update m) := by
  have haccount := h.account.perm (live_held C.frames n C.held S.first)
  have hother : n ∉ S.kept := fun hn => (List.nodup_cons.1 haccount.nodup).1 (hcovers n hn)
  refine ⟨?_, ?_, rfl⟩
  · rw [View.code_update, hcode]
    exact .transfer (transfers_freeSlot v.code n) hother (freeSlot_items v.code n)
  · exact h.update hcovers (hcode ▸ haccount.give (Nat.le_of_not_lt fun hn => hother (S.covered n hn)))

end Views

/-! ### Actions -/

section Actions

variable {α β : Type} {S : Scene} {C : Holding} {C' : α → Holding} {C'' : β → Holding} {P : α → Prop} {Q : β → Prop}
  {x : FormM α} {f : α → FormM β}

theorem Tracks.bind (hx : Tracks S C C' P x) (hf : ∀ a, P a → Tracks S (C' a) C'' Q (f a)) :
    Tracks S C C'' Q (x >>= f) := by
  intro s b t hs hrun
  obtain ⟨a, s₁, h₁, hrun⟩ := State.ok_of_bind hrun
  obtain ⟨ha, hfirst⟩ := hx hs h₁
  obtain ⟨hb, hsecond⟩ := hf a ha hfirst.ends hrun
  exact ⟨hb, hfirst.trans hsecond⟩

theorem Keeps.bind (hx : Keeps S C x) (hf : ∀ a, Tracks S C C'' Q (f a)) : Tracks S C C'' Q (x >>= f) :=
  Tracks.bind hx fun a _ => hf a

/-- What is in use in front of the action may be taken for granted. -/
theorem Tracks.covered (hx : S.Covers C → Tracks S C C' P x) : Tracks S C C' P x :=
  fun _ _ _ hs hrun => hx hs.covers hs hrun

theorem tracks_pure {a : α} (ha : P a) (hC : C' a = C) : Tracks S C C' P (pure a : FormM α) := by
  intro s b t hs hrun
  cases hrun
  rw [hC]
  exact ⟨ha, .refl hs⟩

theorem keeps_pure (a : α) : Keeps S C (pure a : FormM α) := tracks_pure trivial rfl

theorem tracks_fail (e : Error) : Tracks S C C' P (FormM.fail e : FormM α) := fun _ _ _ _ hrun => by cases hrun

theorem keeps_aside (hx : Aside x) : Keeps S C x := by
  intro s a t hs hrun
  rw [hx hrun]
  exact ⟨trivial, .refl hs⟩

theorem tracks_ofExcept {e : Except Error α} (he : ∀ a, e = .ok a → P a) :
    Tracks S C (fun _ => C) P (FormM.ofExcept e) := by
  intro s a t hs hrun
  obtain ⟨ha, rfl⟩ := ofExcept_ok hrun
  exact ⟨he a ha, .refl hs⟩

theorem keeps_ofExcept (e : Except Error α) : Keeps S C (FormM.ofExcept e) := keeps_aside (.ofExcept e)

theorem Tracks.ite {c : Prop} [Decidable c] {x y : FormM α} (hx : Tracks S C C' P x) (hy : Tracks S C C' P y) :
    Tracks S C C' P (if c then x else y) := by
  split
  · exact hx
  · exact hy

theorem Keeps.atSpan (hx : Keeps S C x) (span : Span) : Keeps S C (x.atSpan span) :=
  fun _ _ _ hs hrun => hx hs (atSpan_ok hrun)

theorem Keeps.forM {f : α → FormM Unit} {xs : List α} (hf : ∀ x ∈ xs, Keeps S C (f x)) : Keeps S C (xs.forM f) := by
  induction xs with
  | nil => exact keeps_pure ()
  | cons x xs ih =>
    exact (hf x (List.mem_cons_self ..)).bind (f := fun _ => xs.forM f) fun _ =>
      ih fun y hy => hf y (List.mem_cons_of_mem _ hy)

theorem Keeps.mapM {xs : List α} (hf : ∀ x ∈ xs, Keeps S C (f x)) : Keeps S C (xs.mapM f) := by
  induction xs with
  | nil => exact keeps_pure []
  | cons x xs ih =>
    rw [List.mapM_cons]
    refine (hf x (List.mem_cons_self ..)).bind fun y => ?_
    exact (ih fun x' hx' => hf x' (List.mem_cons_of_mem _ hx')).bind fun ys => keeps_pure _

theorem keeps_modifyStack (f : TypeStack → TypeStack) : Keeps S C (FormM.modifyStack f) := by
  intro s u t hs hrun
  rw [modifyStack_ok hrun]
  exact ⟨trivial, .refl _ _, hs.sameCode rfl, rfl⟩

theorem keeps_stack : Keeps S C FormM.stack := by
  intro s stack t hs hrun
  obtain ⟨rfl, -⟩ := stack_ok hrun
  exact ⟨trivial, .refl hs⟩

theorem keeps_topType : Keeps S C FormM.topType? := by
  intro s ty t hs hrun
  obtain ⟨rfl, -⟩ := topType_ok hrun
  exact ⟨trivial, .refl hs⟩

theorem keeps_isUnreachable : Keeps S C FormM.isUnreachable := by
  intro s dead t hs hrun
  obtain ⟨rfl, -⟩ := isUnreachable_ok hrun hs.working
  exact ⟨trivial, .refl hs⟩

/-- Nothing more is done where control does not get. -/
theorem Keeps.whereLive {rest : FormM Unit} (hrest : Keeps S C rest) :
    Keeps S C (do
      if ← FormM.isUnreachable then return ()
      rest) := by
  refine keeps_isUnreachable.bind fun dead => ?_
  cases dead with
  | true => exact keeps_pure ()
  | false => exact hrest

theorem keeps_className : Keeps S C FormM.className := by
  intro s name t hs hrun
  obtain rfl := className_ok hs.working hrun
  exact ⟨trivial, .refl hs⟩

/-- A change of the class at work is none of the method. -/
theorem At.onClass {v : View} (h : At S C v) (f : ClassContext → ClassContext) : Moves S C v (v.onClass f) :=
  ⟨.refl _ _, { h with }, rfl⟩

theorem keeps_capture (name : String) (ty : Ty) : Keeps S C (FormM.capture name ty) := by
  intro s r t hs hrun
  refine ⟨trivial, ?_⟩
  rcases capture_ok hs.working hrun with hview | hview <;> rw [hview]
  · exact .refl hs
  · exact hs.onClass _

/-! ### Operations on the code -/

theorem keeps_operation (op : Operation) (hemits : Emits op) (hslots : ∀ n ∈ namedSlots op, n ∈ C.live S.first) :
    Keeps S C (FormM.modifyCode op.apply) := by
  intro s u t hs hrun
  rw [modifyCode_ok hrun]
  exact ⟨trivial, hs.operate op hemits hslots rfl⟩

theorem keeps_newLabel : Keeps S C FormM.newLabel := by
  intro s l t hs hrun
  rw [(onCode_ok hrun).2]
  exact ⟨trivial, hs.operate .newLabel trivial nofun rfl⟩

theorem keeps_place (l : Label) : Keeps S C (FormM.place l) := keeps_operation (.place l) trivial nofun

theorem keeps_here : Keeps S C FormM.here := by
  intro s l t hs hrun
  rw [(onCode_ok hrun).2]
  have hmade := hs.operate (m := { (view s).work with code := (view s).code.newLabel.2 }) .newLabel trivial nofun rfl
  exact ⟨trivial, hmade.trans (hmade.ends.operate (.place _) trivial nofun rfl)⟩

theorem keeps_hole : Keeps S C (FormM.onCode CodeBuffer.hole) := by
  intro s n t hs hrun
  rw [(onCode_ok hrun).2]
  exact ⟨trivial, hs.operate .hole trivial nofun rfl⟩

theorem keeps_addHandler (first last target : Label) (catches : Option String) (depth : Nat) :
    Keeps S C (FormM.modifyCode fun c => c.addHandler first last target catches depth) :=
  keeps_operation (.addHandler ⟨first, last, target, catches, depth⟩) trivial nofun

/-- A slot that is taken is held from then on. -/
theorem tracks_allocSlot : Tracks S C (fun n => C.take n) (fun _ => True) FormM.allocSlot := by
  intro s n t hs hrun
  obtain ⟨rfl, hview⟩ := onCode_ok hrun
  rw [hview]
  exact ⟨trivial, hs.take rfl⟩

/-- A slot that is given back was held by no parameter. -/
theorem tracks_freeSlot (hcovers : S.Covers C) (n : Nat) :
    Tracks S (C.take n) (fun _ => C) (fun _ => True) (FormM.modifyCode fun c => c.freeSlot n) := by
  intro s u t hs hrun
  rw [modifyCode_ok hrun]
  exact ⟨trivial, hs.give hcovers rfl⟩

/-! ### Emitting -/

theorem keeps_emit {i : Instruction} (hi : ∀ n, i.slot? = some n → n ∈ C.live S.first) : Keeps S C (FormM.emit i) := by
  intro s u t hs hrun
  refine ⟨trivial, ?_⟩
  rcases emit_run hrun with ⟨-, hview⟩ | ⟨-, e, stack, -, -, hview⟩ <;> rw [hview]
  · exact .refl hs
  · exact hs.operate (.push i) trivial (fun n hn => hi n (Option.mem_toList.1 hn)) rfl

/-- An instruction that names no slot. -/
theorem keeps_slotless {i : Instruction} (hi : i.slot? = none) : Keeps S C (FormM.emit i) :=
  keeps_emit fun n hn => by cases hi.symm.trans hn

theorem keeps_load {n : Nat} (hn : n ∈ C.live S.first) (ty : Ty) : Keeps S C (FormM.emit (.load n ty)) :=
  keeps_emit fun _ hslot => Option.some.inj hslot ▸ hn

theorem keeps_store {n : Nat} (hn : n ∈ C.live S.first) (ty : Ty) : Keeps S C (FormM.emit (.store n ty)) :=
  keeps_emit fun _ hslot => Option.some.inj hslot ▸ hn

theorem keeps_emitAll {code : List Instruction} (hcode : ∀ i ∈ code, i.slot? = none) : Keeps S C (FormM.emitAll code) :=
  .forM fun i hi => keeps_slotless (hcode i hi)

theorem slotless_of_conversion {a b : Nat} {code : List Instruction} (h : Conversion a code b) :
    ∀ i ∈ code, i.slot? = none := by
  induction h with
  | nil => simp
  | cons hi _ _ ih => exact List.forall_mem_cons.mpr ⟨hi.slot, ih⟩

theorem keeps_emitConstant (c : Constant) : Keeps S C (FormM.emitConstant c) :=
  (keeps_slotless (i := .const c) rfl).bind fun _ => keeps_modifyStack _

theorem keeps_emitCall (spec : SiteSpec) : Keeps S C (FormM.emitCall spec) := by
  intro s u t hs hrun
  obtain ⟨s₁, hview, -, hrun⟩ := emitCall_ok hs.working hrun
  have hsite : Moves S C (view s) (view s₁) := hview ▸ hs.onClass _
  exact ⟨trivial, hsite.trans (keeps_slotless rfl hsite.ends hrun).2⟩

theorem keeps_boxTop : Keeps S C FormM.boxTop := by
  refine keeps_topType.bind fun ty => ?_
  cases ty with
  | none => exact keeps_pure ()
  | some ty => exact keeps_emitAll (slotless_of_conversion (toBoxed_conversion ty))

theorem keeps_popValue : Keeps S C FormM.popValue := by
  refine keeps_topType.bind fun ty => ?_
  split
  · exact keeps_slotless rfl
  · exact keeps_slotless rfl
  · exact keeps_pure ()

/-- Nothing that values are converted by names a slot. -/
theorem tracks_coerce (r : Registry) (source target : Ty) :
    Tracks S C (fun _ => C) (fun code => ∀ i ∈ code, i.slot? = none)
      (FormM.ofExcept (Coercion.coerce r source target)) :=
  tracks_ofExcept fun _ hcode => slotless_of_conversion (coerce_conversion hcode)

theorem keeps_coerceTop (target : Ty) : Keeps S C (FormM.coerceTop target) := by
  refine keeps_topType.bind fun ty => ?_
  cases ty with
  | none => exact keeps_pure ()
  | some ty =>
    refine (keeps_aside aside_registry).bind fun r => (tracks_coerce r ty target).bind fun code hcode => ?_
    exact keeps_emitAll hcode

theorem keeps_settle (base : List StackRecord) (result : Option Ty) : Keeps S C (FormM.settle base result) := by
  refine (keeps_modifyStack _).bind fun _ => .ite (keeps_pure ()) ?_
  split
  · exact keeps_modifyStack _
  · exact keeps_modifyStack _

/-! ### Nesting -/

theorem Keeps.outOfTail (hx : Keeps S C x) {tail : Bool} : Keeps S C (FormM.withTail tail x) := by
  intro s a t hs hrun
  obtain ⟨s₁, t₁, hs₁, hm, ht⟩ := withTail_ok hrun
  obtain ⟨-, hextends, hends, hloops⟩ := hx (by rw [hs₁]; exact { hs with }) hm
  rw [hs₁] at hextends hloops
  rw [ht]
  exact ⟨trivial, hextends, { hends with }, hloops⟩

theorem Keeps.withinTry (hx : Keeps S C x) : Keeps S C (Form.withinTry x) := by
  intro s a t hs hrun
  obtain ⟨s₁, t₁, hs₁, hm, ht⟩ := withinTry_ok hrun
  obtain ⟨-, hextends, hends, hloops⟩ := hx (by rw [hs₁]; exact hs.sameCode rfl) hm
  rw [hs₁] at hextends hloops
  rw [ht hends.working]
  exact ⟨trivial, hextends, hends.sameCode rfl, hloops⟩

/-- Inside a loop, the locals of which are bound. -/
theorem Keeps.withLoop (hx : Keeps S C x) {head : Label} {slots : List (Nat × Ty)} {d : Nat}
    (hslots : ∀ q ∈ slots, ∃ f ∈ C.frames, q.1 ∈ localSlots f.bindings) :
    Keeps S C (Form.withLoop (.compiled head slots d) x) := by
  intro s a t hs hrun
  obtain ⟨s₁, t₁, hs₁, hm, ht⟩ := withLoop_ok hrun
  have hstart : At S C (view s₁) := by
    rw [hs₁]
    refine { hs with loops := fun head' slots' d' hmem => ?_ }
    rcases List.mem_cons.1 hmem with heq | hmem
    · cases heq
      exact hslots
    · exact hs.loops head' slots' d' hmem
  obtain ⟨-, hextends, hends, -⟩ := hx hstart hm
  rw [hs₁] at hextends
  rw [ht]
  exact ⟨trivial, hextends, { hends with loops := hs.loops }, rfl⟩

/-- Behind a scope its frame is gone, and if it is one of a `let` so are the slots of its bindings. -/
theorem withScope_frame {kind : ScopeKind} {s t : FormState} {a : α} (hrun : FormM.withScope kind x s = .ok a t) :
    ∃ s₁ t₁, view s₁ = { view s with scopes := (view s).scopes.push kind (view s).methods.length } ∧
      x s₁ = .ok a t₁ ∧
      ∀ f, (view t₁).scopes.frames = f :: (view s).scopes.frames → (view t₁).methods ≠ [] →
        (view t₁).methods.length = (view s).methods.length → f.level = (view s).methods.length →
        view t = { (view t₁).update { (view t₁).work with
            code := if f.kind = .methodLet then freeAll (view t₁).code f.bindings.reverse else (view t₁).code } with
          scopes := (view s).scopes } := by
  obtain ⟨s', u, hu, hrun⟩ := State.ok_of_bind hrun
  cases hu
  obtain ⟨⟨⟩, s₁, h₁, hrun⟩ := State.ok_of_bind hrun
  cases h₁
  obtain ⟨t₁, hm, rfl⟩ := andFinally_ok hrun
  refine ⟨_, t₁, rfl, hm, fun f hframes hne hlength hlevel => ?_⟩
  have hframes : t₁.scopes.frames = f :: s.scopes.frames := hframes
  have htruncate : t₁.scopes.truncate s.scopes.depth = ([f], s.scopes) := by
    have hextra : t₁.scopes.depth - s.scopes.depth = 1 := by
      simp only [Scopes.depth, hframes, List.length_cons]
      omega
    simp only [Scopes.truncate, hextra, hframes]
    rfl
  obtain ⟨c, rest, hmethods⟩ := List.exists_cons_of_ne_nil hne
  have hmethods : t₁.methods = c :: rest := hmethods
  have hlength : (c :: rest).length = s.methods.length := hmethods ▸ hlength
  have hlevel : f.level = s.methods.length := hlevel
  simp only [htruncate, FormM.releaseSlots, hmethods, if_pos hlength]
  by_cases hkind : f.kind = .methodLet
  · have hfilter : [f].filter (fun f => f.kind == .methodLet && f.level == s.methods.length) = [f] := by
      simp [hkind, hlevel]
    rw [if_pos hkind, hfilter, List.flatMap_singleton]
    simp only [view, View.update, View.work, View.code, hmethods]
    rfl
  · have hfilter : [f].filter (fun f => f.kind == .methodLet && f.level == s.methods.length) = [] := by
      simp [hkind]
    rw [if_neg hkind, hfilter]
    simp only [view, View.update, View.work, View.code, hmethods]
    rfl

/-- In a scope the frame goes from empty to whatever it has bound in the end.  Its slots are given back if it is one of
a `let`. -/
theorem moves_withScope {kind : ScopeKind} (hkind : kind ≠ .closure) {s t : FormState} {a : α} (hs : At S C (view s))
    (hrun : FormM.withScope kind x s = .ok a t) :
    ∃ s₁ t₁, At S ⟨⟨kind, S.level, []⟩ :: C.frames, C.held⟩ (view s₁) ∧ x s₁ = .ok a t₁ ∧ ∀ bindings held,
      Moves S ⟨⟨kind, S.level, bindings⟩ :: C.frames, held⟩ (view s₁) (view t₁) →
      (kind = .methodLet → held = C.held) →
      Moves S ⟨C.frames, if kind = .methodLet then C.held else localSlots bindings ++ held⟩ (view s) (view t) := by
  obtain ⟨s₁, t₁, hs₁, hm, ht⟩ := withScope_frame hrun
  have hstart : At S ⟨⟨kind, S.level, []⟩ :: C.frames, C.held⟩ (view s₁) := by
    rw [hs₁]
    refine ⟨hs.working, hs.level, ?_, List.forall_mem_cons.2 ⟨⟨rfl, hkind⟩, hs.own⟩, ?_, ?_, hs.covers, hs.account⟩
    · rw [hs.level]
      exact congrArg (_ :: ·) hs.scopes
    · exact hs.reached.imp_right fun ⟨houter, hframes⟩ =>
        ⟨houter, List.forall_mem_cons.2 ⟨List.forall_mem_nil _, hframes⟩⟩
    · intro head slots d hmem q hq
      obtain ⟨f, hf, hslot⟩ := hs.loops head slots d hmem q hq
      exact ⟨f, List.mem_cons_of_mem _ hf, hslot⟩
  refine ⟨s₁, t₁, hstart, hm, fun bindings held ⟨hsince, hends, hloops⟩ hheld => ?_⟩
  rw [hs₁] at hsince hloops
  have hview := ht ⟨kind, S.level, bindings⟩ (hends.scopes.trans (congrArg (_ :: ·) hs.scopes.symm)) hends.working
    (hends.level.trans hs.level.symm) hs.level.symm
  have hcode : (view t).code =
      if kind = .methodLet then freeAll (view t₁).code bindings.reverse else (view t₁).code := by
    rw [hview]
    rfl
  have hafter {held : List Nat} (hcovers : S.Covers ⟨C.frames, held⟩)
      (haccount : Account S.reserved ((Holding.mk C.frames held).live S.first) (view t).code) :
      At S ⟨C.frames, held⟩ (view t) := by
    rw [hview] at haccount ⊢
    refine { hs with
      working := by simp, level := hends.length_update _, loops := ?_, covers := hcovers, account := haccount }
    change ∀ head slots d, LoopTarget.compiled head slots d ∈ (view t₁).loops → _
    rw [hloops]
    exact hs.loops
  have hclosed := hends.account.perm (live_close ⟨kind, S.level, bindings⟩ S.first)
  by_cases hlet : kind = .methodLet
  · obtain rfl := hheld hlet
    rw [if_pos hlet] at hcode ⊢
    have hbindings : (localSlots bindings.reverse ++ C.live S.first).Perm
        ((Holding.mk C.frames (localSlots bindings ++ C.held)).live S.first) := by
      refine List.perm_iff_count.2 fun n => ?_
      simp [Holding.live, localSlots_reverse]
      omega
    obtain ⟨haccount, hfreed⟩ := (hclosed.perm hbindings.symm).freeAll S.covered hs.covers
    rw [← hcode] at haccount hfreed
    exact ⟨hsince.trans hfreed, hafter hs.covers haccount, by rw [hview]; exact hloops⟩
  · rw [if_neg hlet] at hcode ⊢
    have hcovers : S.Covers ⟨C.frames, localSlots bindings ++ held⟩ :=
      hends.covers.perm (live_close ⟨kind, S.level, bindings⟩ S.first)
    exact ⟨hcode ▸ hsince, hafter hcovers (hcode ▸ hclosed), by rw [hview]; exact hloops⟩

/-- The slots of a scope that is not one of a `let` are held on behind it. -/
theorem Tracks.withScope {kind : ScopeKind} {bindings : List Binding} {held : List Nat} (hkind : kind ≠ .closure)
    (hlet : kind ≠ .methodLet)
    (hx : Tracks S ⟨⟨kind, S.level, []⟩ :: C.frames, C.held⟩ (fun _ => ⟨⟨kind, S.level, bindings⟩ :: C.frames, held⟩) P
      x) : Tracks S C (fun _ => ⟨C.frames, localSlots bindings ++ held⟩) P (FormM.withScope kind x) := by
  intro s a t hs hrun
  obtain ⟨s₁, t₁, hs₁, hm, hmoves⟩ := moves_withScope hkind hs hrun
  obtain ⟨ha, hmoved⟩ := hx hs₁ hm
  have hclosed := hmoves _ _ hmoved fun heq => absurd heq hlet
  rw [if_neg hlet] at hclosed
  exact ⟨ha, hclosed⟩

/-- An action in the scope of a `let`, behind which the slots are used as `D` says but for those that the scope has
bound by then. -/
def WithinLet (S : Scene) (D C : Holding) (x : FormM α) : Prop :=
  ∀ ⦃s a t⦄, At S C (view s) → x s = .ok a t →
    ∃ bindings, Moves S ⟨⟨.methodLet, S.level, bindings⟩ :: D.frames, D.held⟩ (view s) (view t)

theorem Tracks.within {D : Holding} (hx : Tracks S C C' P x) (hf : ∀ a, P a → WithinLet S D (C' a) (f a)) :
    WithinLet S D C (x >>= f) := by
  intro s b t hs hrun
  obtain ⟨a, s₁, h₁, hrun⟩ := State.ok_of_bind hrun
  obtain ⟨ha, hfirst⟩ := hx hs h₁
  obtain ⟨bindings, hsecond⟩ := hf a ha hfirst.ends hrun
  exact ⟨bindings, hfirst.trans hsecond⟩

theorem within_of_keeps {D : Holding} {bindings : List Binding}
    (hx : Keeps S ⟨⟨.methodLet, S.level, bindings⟩ :: D.frames, D.held⟩ x) :
    WithinLet S D ⟨⟨.methodLet, S.level, bindings⟩ :: D.frames, D.held⟩ x :=
  fun _ _ _ hs hrun => ⟨bindings, (hx hs hrun).2⟩

/-- Behind the scope of a `let` the slots are used as in front of it. -/
theorem WithinLet.withScope (hx : WithinLet S C ⟨⟨.methodLet, S.level, []⟩ :: C.frames, C.held⟩ x) :
    Keeps S C (FormM.withScope .methodLet x) := by
  intro s a t hs hrun
  obtain ⟨s₁, t₁, hs₁, hm, hmoves⟩ := moves_withScope (by decide) hs hrun
  obtain ⟨bindings, hmoved⟩ := hx hs₁ hm
  exact ⟨trivial, hmoves _ _ hmoved fun _ => rfl⟩

end Actions

/-! ### Bindings -/

section Bindings

variable {β : Type} {S : Scene} {f : ScopeFrame} {frames : List ScopeFrame} {held : List Nat}

/-- The frame with one more binding. -/
def bound (b : Binding) (f : ScopeFrame) : ScopeFrame := { f with bindings := b :: f.bindings }

/-- A binding takes over the slot that it is in. -/
theorem tracks_bindName {b : Binding} (hb : 0 < S.first ∨ ∃ n, b.slot = .local n) :
    Tracks S ⟨f :: frames, localSlots [b] ++ held⟩ (fun _ => ⟨bound b f :: frames, held⟩) (fun _ => True)
      (FormM.bindName b) := by
  intro s u t hs hrun
  obtain ⟨scopes, hbind, ht⟩ := bindName_ok hrun
  have hframes : (view s).scopes.frames = f :: (frames ++ S.outer) := hs.scopes
  simp only [Scopes.bind, hframes, Except.ok.injEq] at hbind
  subst hbind
  rw [ht]
  obtain ⟨hf, hown⟩ := List.forall_mem_cons.1 hs.own
  have hcovers : S.Covers ⟨bound b f :: frames, held⟩ := hs.covers.perm (live_bind b S.first)
  refine ⟨trivial, .refl _ _, ⟨hs.working, hs.level, rfl, List.forall_mem_cons.2 ⟨hf, hown⟩, ?_, ?_, hcovers,
    hs.account.perm (live_bind b S.first)⟩, rfl⟩
  · refine hb.elim .inl fun hslot => hs.reached.imp_right fun ⟨houter, hall⟩ => ⟨houter, ?_⟩
    obtain ⟨hbindings, hrest⟩ := List.forall_mem_cons.1 hall
    exact List.forall_mem_cons.2 ⟨List.forall_mem_cons.2 ⟨hslot, hbindings⟩, hrest⟩
  · intro head slots d hmem q hq
    obtain ⟨g, hg, hslot⟩ := hs.loops head slots d hmem q hq
    rcases List.mem_cons.1 hg with rfl | hg
    · refine ⟨bound b g, List.mem_cons_self, ?_⟩
      rw [bound, localSlots_cons]
      exact List.mem_append_right _ hslot
    · exact ⟨g, List.mem_cons_of_mem _ hg, hslot⟩

/-- The frame with more bindings, in the order they are made. -/
def boundAll (bs : List Binding) (f : ScopeFrame) : ScopeFrame := { f with bindings := bs.reverse ++ f.bindings }

theorem boundAll_cons (b : Binding) (bs : List Binding) (f : ScopeFrame) :
    boundAll (b :: bs) f = boundAll bs (bound b f) := by
  simp [boundAll, bound]

theorem localSlots_boundAll (bs : List Binding) (f : ScopeFrame) {n : Nat} (hn : n ∈ localSlots bs) :
    n ∈ localSlots (boundAll bs f).bindings := by
  obtain ⟨b, hb, hslot⟩ := List.mem_filterMap.1 hn
  exact List.mem_filterMap.2 ⟨b, List.mem_append_left _ (List.mem_reverse.2 hb), hslot⟩

/-- Bindings made one after the other take over the slots that were held for them. -/
theorem tracks_bindAll {b : β → Binding} {xs : List β} (hb : ∀ x ∈ xs, 0 < S.first ∨ ∃ n, (b x).slot = .local n) :
    Tracks S ⟨f :: frames, localSlots (xs.map b) ++ held⟩ (fun _ => ⟨boundAll (xs.map b) f :: frames, held⟩)
      (fun _ => True) (xs.forM fun x => FormM.bindName (b x)) := by
  induction xs generalizing f with
  | nil => exact tracks_pure trivial rfl
  | cons x xs ih =>
    rw [List.map_cons, localSlots_cons, List.append_assoc, boundAll_cons]
    refine (tracks_bindName (hb x List.mem_cons_self)).bind (f := fun _ => xs.forM fun x => FormM.bindName (b x))
      fun _ _ => ?_
    exact ih fun y hy => hb y (List.mem_cons_of_mem _ hy)

/-- Locals that are made one after the other, each with a binding of its own. -/
theorem tracks_mapM_bound {α : Type} {g : α → FormM β} {b : β → Binding} {xs : List α}
    (hg : ∀ x f, Tracks S ⟨f :: frames, held⟩ (fun y => ⟨bound (b y) f :: frames, held⟩) (fun _ => True) (g x)) :
    Tracks S ⟨f :: frames, held⟩ (fun ys => ⟨boundAll (ys.map b) f :: frames, held⟩) (fun _ => True) (xs.mapM g) := by
  induction xs generalizing f with
  | nil => exact tracks_pure trivial rfl
  | cons x xs ih =>
    rw [List.mapM_cons]
    refine (hg x f).bind fun y _ => ih.bind fun ys _ => tracks_pure trivial ?_
    rw [List.map_cons, boundAll_cons]

end Bindings

end LispMachine.Slots
