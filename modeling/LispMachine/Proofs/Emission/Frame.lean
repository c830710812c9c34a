import LispMachine.Proofs.Emission.Classes
import LispMachine.Proofs.Emission.Templates

/-! # The records below

The value of a form comes on top of what was on the stack, and the records below stay as they are: the same
types with the same flags, in the same order.  Widths do not tell that, for a record without width could
stand in for another, so this is followed by records.

`Takes p q x` says that `x` takes no more than `p` records from above whatever base there is, leaves at
least `q` in their place, and changes no other method.  The combinators keep count; `Inside x` is the part
about other methods alone, enough where a form goes back to records it has kept. -/

namespace LispMachine.Emission

open Form

/-! ### Above a base -/

section Above

variable {base above rest popped : List StackRecord} {k l p q r : Nat} {u v w : View}

/-- At least `k` records stand above those of a base, unless control does not get here. -/
def Above (base : List StackRecord) (k : Nat) (v : View) : Prop :=
  v.stack.isUnreachable = true ∨ ∃ above, k ≤ above.length ∧ v.stack.records = above ++ base

theorem Above.mono (h : Above base l v) (hle : k ≤ l) : Above base k v := by
  rcases h with hdead | ⟨above, habove, hrecords⟩
  · exact .inl hdead
  · exact .inr ⟨above, Nat.le_trans hle habove, hrecords⟩

theorem Above.of_stack (h : Above base k v) (hstack : w.stack = v.stack) : Above base k w := by
  unfold Above at h ⊢
  rwa [hstack]

/-- Nothing that control gets to stands above every base. -/
theorem dead_of_above (h : ∀ base, Above base 0 v) : v.stack.isUnreachable = true := by
  rcases h (.unreachable :: v.stack.records) with hdead | ⟨above, -, hrecords⟩
  · exact hdead
  · have hlength := congrArg List.length hrecords
    simp only [List.length_append, List.length_cons] at hlength
    omega

/-- What is left below records that were taken from above a base. -/
theorem rest_of_append (h : popped ++ rest = above ++ base) (hle : popped.length ≤ above.length) :
    rest = above.drop popped.length ++ base := by
  have hdrop := congrArg (List.drop popped.length) h
  rwa [List.drop_left, List.drop_append_of_le_length hle] at hdrop

/-- Only the method at work has changed. -/
def Within (v w : View) : Prop := w.methods ≠ [] ∧ w.methods.tail = v.methods.tail

theorem Within.refl (h : v.methods ≠ []) : Within v v := ⟨h, rfl⟩

theorem Within.trans (h : Within u v) (h' : Within v w) : Within u w := ⟨h'.1, h'.2.trans h.2⟩

theorem Within.update (v : View) (m : MethodContext) : Within v (v.update m) := ⟨by simp, by simp⟩

/-- From above whatever base, no more than `p` records are taken, and at least `q` come in their place. -/
structure Moves (p q : Nat) (v w : View) : Prop where
  within : Within v w
  above : ∀ base k, Above base (k + p) v → Above base (k + q) w

theorem Moves.trans (h : Moves p q u v) (h' : Moves q r v w) : Moves p r u w :=
  ⟨h.within.trans h'.within, fun base k hu => h'.above base k (h.above base k hu)⟩

/-- Records that are not looked at stay where they are. -/
theorem Moves.shift (h : Moves p q v w) {p' q' m : Nat} (hp : p + m ≤ p') (hq : q' ≤ q + m) :
    Moves p' q' v w := by
  refine ⟨h.within, fun base k hv => ?_⟩
  have hmoved := h.above base (k + m) (hv.mono (by omega))
  exact hmoved.mono (by omega)

theorem Moves.of_stack (hwithin : Within v w) (hstack : w.stack = v.stack) : Moves p p v w :=
  ⟨hwithin, fun _ _ h => h.of_stack hstack⟩

theorem Moves.of_dead (hwithin : Within v w) (hdead : w.stack.isUnreachable = true) : Moves p q v w :=
  ⟨hwithin, fun _ _ _ => .inl hdead⟩

theorem Moves.dead (h : Moves 0 q v w) (hdead : v.stack.isUnreachable = true) :
    w.stack.isUnreachable = true :=
  dead_of_above fun base => (h.above base 0 (.inl hdead)).mono (Nat.zero_le _)

end Above

/-! ### Actions in a method -/

/-- Whenever the action ends well in a method, its end is related to its start. -/
def Always {α : Type} (R : View → View → Prop) (x : FormM α) : Prop :=
  ∀ ⦃s a t⦄, (view s).methods ≠ [] → x s = .ok a t → R (view s) (view t)

/-- An action that changes no method but the one at work. -/
abbrev Inside {α : Type} (x : FormM α) : Prop := Always Within x

/-- An action that takes at most `p` records and leaves at least `q` in their place. -/
abbrev Takes {α : Type} (p q : Nat) (x : FormM α) : Prop := Always (Moves p q) x

section Actions

variable {α β : Type} {x : FormM α} {f : α → FormM β} {p q r : Nat}

theorem Takes.inside (h : Takes p q x) : Inside x := fun _ _ _ hne hrun => (h hne hrun).within

theorem Takes.shift (h : Takes p q x) {p' q' : Nat} (m : Nat) (hp : p + m ≤ p')
    (hq : q' ≤ q + m) : Takes p' q' x :=
  fun _ _ _ hne hrun => (h hne hrun).shift hp hq

/-- In sequence, where the second action may rest on what the first one gives. -/
theorem Takes.bindWith (hx : Takes p q x) (hf : ∀ a s t, x s = .ok a t → Takes q r (f a)) :
    Takes p r (x >>= f) := by
  intro s b t hne hrun
  obtain ⟨a, s₁, h₁, hrun⟩ := State.ok_of_bind hrun
  have hmoves := hx hne h₁
  exact hmoves.trans (hf a s s₁ h₁ hmoves.within.1 hrun)

theorem Takes.bind (hx : Takes p q x) (hf : ∀ a, Takes q r (f a)) : Takes p r (x >>= f) :=
  hx.bindWith fun a _ _ _ => hf a

theorem Inside.bind (hx : Inside x) (hf : ∀ a, Inside (f a)) : Inside (x >>= f) := by
  intro s b t hne hrun
  obtain ⟨a, s₁, h₁, hrun⟩ := State.ok_of_bind hrun
  have hwithin := hx hne h₁
  exact hwithin.trans (hf a hwithin.1 hrun)

theorem takes_aside (hx : Aside x) : Takes p p x := by
  intro s a t hne hrun
  rw [hx hrun]
  exact .of_stack (.refl hne) rfl

theorem inside_aside (hx : Aside x) : Inside x := (takes_aside (p := 0) hx).inside

theorem takes_pure (a : α) : Takes p p (pure a : FormM α) := takes_aside (.pure a)

theorem inside_pure (a : α) : Inside (pure a : FormM α) := inside_aside (.pure a)

theorem takes_fail (e : Error) : Takes p q (FormM.fail e : FormM α) := fun _ _ _ _ hrun => by cases hrun

theorem takes_ofExcept (e : Except Error α) : Takes p p (FormM.ofExcept e) := takes_aside (.ofExcept e)

theorem Takes.ite {c : Prop} [Decidable c] {x y : FormM α} (hx : Takes p q x) (hy : Takes p q y) :
    Takes p q (if c then x else y) := by
  split
  · exact hx
  · exact hy

theorem Takes.atSpan (hx : Takes p q x) (span : Span) : Takes p q (x.atSpan span) :=
  fun _ _ _ hne hrun => hx hne (atSpan_ok hrun)

/-- Steps that each leave `q` records. -/
theorem Takes.forM {f : α → FormM Unit} {xs : List α} (hf : ∀ x ∈ xs, Takes 0 q (f x)) :
    Takes 0 (xs.length * q) (xs.forM f) := by
  induction xs with
  | nil => exact (takes_pure (p := 0) ()).shift 0 (by simp) (by simp)
  | cons x xs ih =>
      refine (hf x (by simp)).bind (f := fun _ => xs.forM f) fun _ => ?_
      have hrest := ih fun y hy => hf y (by simp [hy])
      exact hrest.shift q (by omega) (by simp [Nat.add_mul])

theorem Takes.mapM {f : α → FormM β} {xs : List α} (hf : ∀ x, Takes 0 0 (f x)) :
    Takes 0 0 (xs.mapM f) := by
  induction xs with
  | nil => exact takes_pure _
  | cons x xs ih =>
      rw [List.mapM_cons]
      exact (hf x).bind fun _ => ih.bind fun _ => takes_pure _

theorem Inside.forM {f : α → FormM Unit} (hf : ∀ x, Inside (f x)) (xs : List α) :
    Inside (xs.forM f) := by
  induction xs with
  | nil => exact inside_pure ()
  | cons x xs ih => exact (hf x).bind (f := fun _ => xs.forM f) fun _ => ih

theorem Inside.mapM {f : α → FormM β} (hf : ∀ x, Inside (f x)) (xs : List α) : Inside (xs.mapM f) := by
  induction xs with
  | nil => exact inside_pure []
  | cons x xs ih =>
      rw [List.mapM_cons]
      exact (hf x).bind fun _ => ih.bind fun _ => inside_pure _

end Actions

/-! ### Around the stack -/

section Around

variable {α : Type} {x : FormM α} {p q : Nat}

/-- A change of the method at work that its stack does not notice. -/
theorem takes_modifyMethod {f : MethodContext → MethodContext} (hf : ∀ m, (f m).stack = m.stack) :
    Takes p p (FormM.modifyMethod f) := by
  intro s u t hne hrun
  obtain ⟨-, hview⟩ := modifyMethod_ok hrun
  rw [hview]
  exact .of_stack (.update _ _) (hf _)

theorem takes_modifyCode (f : CodeBuffer → CodeBuffer) : Takes p p (FormM.modifyCode f) :=
  takes_modifyMethod fun _ => rfl

theorem takes_onCode (f : CodeBuffer → α × CodeBuffer) : Takes p p (FormM.onCode f) := by
  intro s a t hne hrun
  rw [(onCode_ok hrun).2]
  exact .of_stack (.update _ _) rfl

theorem inside_modifyCode (f : CodeBuffer → CodeBuffer) : Inside (FormM.modifyCode f) :=
  (takes_modifyCode (p := 0) f).inside

theorem inside_onCode (f : CodeBuffer → α × CodeBuffer) : Inside (FormM.onCode f) :=
  (takes_onCode (p := 0) f).inside

theorem inside_modifyStack (f : TypeStack → TypeStack) : Inside (FormM.modifyStack f) := by
  intro s u t hne hrun
  rw [modifyStack_ok hrun]
  exact .update _ _

theorem takes_topType : Takes p p FormM.topType? := by
  intro s ty t hne hrun
  obtain ⟨rfl, -⟩ := topType_ok hrun
  exact .of_stack (.refl hne) rfl

theorem takes_topTypes (n : Nat) : Takes p p (Form.topTypes n) := by
  intro s tys t hne hrun
  obtain ⟨rfl, -⟩ := topTypes_run hrun
  exact .of_stack (.refl hne) rfl

/-- Nothing more is done where control does not get. -/
theorem Takes.whereLive {rest : FormM Unit} (hrest : Takes p q rest) :
    Takes p q (do
      if ← FormM.isUnreachable then return ()
      rest) := by
  intro s u t hne hrun
  obtain ⟨dead, s₁, h₁, hrun⟩ := State.ok_of_bind hrun
  obtain ⟨rfl, hdead⟩ := isUnreachable_ok h₁ hne
  cases dead with
  | true =>
      cases hrun
      exact .of_dead (.refl hne) hdead.symm
  | false => exact hrest hne hrun

/-- What depends on nothing but the methods is the same in or out of tail position. -/
theorem Takes.withTail (hx : Takes p q x) (tail : Bool) : Takes p q (FormM.withTail tail x) := by
  intro s a t hne hrun
  obtain ⟨s₁, t₁, hs₁, hm, ht⟩ := withTail_ok hrun
  have hmoves := hx (by rw [hs₁]; exact hne) hm
  rw [hs₁] at hmoves
  rw [ht]
  exact ⟨hmoves.within, hmoves.above⟩

theorem Inside.withTail (hx : Inside x) (tail : Bool) : Inside (FormM.withTail tail x) := by
  intro s a t hne hrun
  obtain ⟨s₁, t₁, hs₁, hm, ht⟩ := withTail_ok hrun
  have hwithin := hx (by rw [hs₁]; exact hne) hm
  rw [hs₁] at hwithin
  rw [ht]
  exact hwithin

theorem Takes.withScope (hx : Takes p q x) (kind : ScopeKind) : Takes p q (FormM.withScope kind x) := by
  intro s a t hne hrun
  obtain ⟨s₁, t₁, hs₁, hm, ht⟩ := withScope_ok hrun
  have hmoves := hx (by rw [hs₁]; exact hne) hm
  rw [hs₁] at hmoves
  rcases ht with ht | ⟨bindings, -, -, -, ht⟩ <;> rw [ht]
  · exact ⟨hmoves.within, hmoves.above⟩
  · have hfreed : Moves q q (view t₁)
        ((view t₁).update { (view t₁).work with code := freeAll (view t₁).code bindings }) :=
      .of_stack (.update _ _) rfl
    have hboth := hmoves.trans hfreed
    exact ⟨hboth.within, hboth.above⟩

theorem takes_bindName (b : Binding) : Takes p p (FormM.bindName b) := by
  intro s u t hne hrun
  obtain ⟨scopes, -, ht⟩ := bindName_ok hrun
  rw [ht]
  exact .of_stack (.refl hne) rfl

end Around

/-! ### Emitting -/

section Emitting

variable {α : Type} {x : FormM α} {s t : FormState} {u : Unit} {i : Instruction} {pops : List Ty}
  {push : Option Ty} {p q : Nat}

/-- An effect takes as many records as it has operands, and puts its result in their place. -/
theorem records_apply {stack stack' : TypeStack} (hlive : stack.isUnreachable = false)
    (h : stack.apply (.ops pops push) = (.ok (), stack')) :
    ∃ popped rest, popped.length = pops.length ∧ stack.records = popped ++ rest ∧
      stack'.records = (push.map (StackRecord.typed · false)).toList ++ rest := by
  unfold TypeStack.apply at h
  rw [hlive, if_neg (by simp)] at h
  simp only at h
  split at h
  · cases (Prod.mk.inj h).1
  · rename_i mid hpop
    obtain ⟨-, popped, hrecords, hwidths⟩ := popAll_ok hpop
    have hlength := congrArg List.length hwidths
    simp only [List.length_map, List.length_reverse] at hlength
    refine ⟨popped, mid.records, hlength, hrecords, ?_⟩
    cases push with
    | none =>
        obtain rfl := (Prod.mk.inj h).2
        rfl
    | some ty =>
        obtain rfl := (Prod.mk.inj h).2
        rfl

theorem emit_records (he : i.effect (view s).sites = .ok (.ops pops push))
    (hlive : (view s).stack.isUnreachable = false) (hrun : FormM.emit i s = .ok u t) :
    ∃ popped rest, popped.length = pops.length ∧ (view s).stack.records = popped ++ rest ∧
      ((view t).stack.isUnreachable = true ∨
        (view t).stack.records = (push.map (StackRecord.typed · false)).toList ++ rest) := by
  rcases emit_run hrun with ⟨hdead, -⟩ | ⟨-, e, stack, he', happly, hview⟩
  · rw [hlive] at hdead
    cases hdead
  · rw [he] at he'
    cases he'
    obtain ⟨popped, rest, hlength, hrecords, hresult⟩ := records_apply hlive happly
    refine ⟨popped, rest, hlength, hrecords, ?_⟩
    rw [hview, View.emitted, View.stack_update]
    split
    · left
      simp [TypeStack.pushUnreachable, TypeStack.isUnreachable]
    · exact .inr hresult

theorem inside_emit (i : Instruction) : Inside (FormM.emit i) := by
  intro s u t hne hrun
  rcases emit_run hrun with ⟨-, hview⟩ | ⟨-, e, stack, -, -, hview⟩
  · rw [hview]
    exact .refl hne
  · rw [hview]
    exact .update _ _

theorem moves_emit (hne : (view s).methods ≠ []) (he : i.effect (view s).sites = .ok (.ops pops push))
    (hrun : FormM.emit i s = .ok u t) : Moves pops.length push.toList.length (view s) (view t) := by
  refine ⟨inside_emit i hne hrun, fun base k habove => ?_⟩
  cases hlive : (view s).stack.isUnreachable with
  | true =>
      rcases emit_run hrun with ⟨-, hview⟩ | ⟨hlive', -⟩
      · rw [hview]
        exact .inl hlive
      · rw [hlive] at hlive'
        cases hlive'
  | false =>
      obtain ⟨popped, rest, hlength, hrecords, hresult⟩ := emit_records he hlive hrun
      rcases habove with hdead | ⟨above, hle, hbase⟩
      · rw [hlive] at hdead
        cases hdead
      · rcases hresult with hdead | hresult
        · exact .inl hdead
        · have hrest := rest_of_append (hrecords.symm.trans hbase) (by omega)
          refine .inr ⟨(push.map (StackRecord.typed · false)).toList ++ above.drop popped.length, ?_, ?_⟩
          · simp only [List.length_append, List.length_drop, Option.length_toList, Option.isSome_map]
            omega
          · rw [hresult, hrest, List.append_assoc]

theorem takes_emit (pops : List Ty) (push : Option Ty)
    (he : ∀ sites, i.effect sites = .ok (.ops pops push)) :
    Takes pops.length push.toList.length (FormM.emit i) :=
  fun _ _ _ hne hrun => moves_emit hne (he _) hrun

theorem takes_load (n : Nat) (ty : Ty) : Takes 0 1 (FormM.emit (.load n ty)) :=
  takes_emit [] (some ty) fun _ => rfl

theorem takes_store (n : Nat) (ty : Ty) : Takes 1 0 (FormM.emit (.store n ty)) :=
  takes_emit [ty] none fun _ => rfl

theorem dead_of_ends (hends : i.endsBlock = true) (hrun : FormM.emit i s = .ok u t) :
    (view t).stack.isUnreachable = true := by
  rcases emit_run hrun with ⟨hdead, hview⟩ | ⟨-, e, stack, -, -, hview⟩
  · rw [hview]
    exact hdead
  · rw [hview, View.emitted, View.stack_update, if_pos hends]
    simp [TypeStack.pushUnreachable, TypeStack.isUnreachable]

/-- An action that control does not get behind. -/
abbrev Dies {α : Type} (x : FormM α) : Prop :=
  Always (fun v w => Within v w ∧ w.stack.isUnreachable = true) x

theorem dies_emit (hends : i.endsBlock = true) : Dies (FormM.emit i) :=
  fun _ _ _ hne hrun => ⟨inside_emit i hne hrun, dead_of_ends hends hrun⟩

theorem Inside.dies {β : Type} {f : α → FormM β} (hx : Inside x) (hf : ∀ a, Dies (f a)) :
    Dies (x >>= f) := by
  intro s b t hne hrun
  obtain ⟨a, s₁, h₁, hrun⟩ := State.ok_of_bind hrun
  have hwithin := hx hne h₁
  obtain ⟨hwithin', hdead⟩ := hf a hwithin.1 hrun
  exact ⟨hwithin.trans hwithin', hdead⟩

/-- Where control does not get, nothing is left to keep count of. -/
theorem Dies.takes (hx : Dies x) : Takes p q x :=
  fun _ _ _ hne hrun => .of_dead (hx hne hrun).1 (hx hne hrun).2

theorem takes_markConstant : Takes 1 1 (FormM.modifyStack TypeStack.markConstant) := by
  intro s u t hne hrun
  have hview := modifyStack_ok hrun
  refine ⟨inside_modifyStack _ hne hrun, fun base k habove => ?_⟩
  rw [hview]
  rcases habove with hdead | ⟨above, hle, hbase⟩
  · left
    rw [View.stack_update, isUnreachable_markConstant]
    exact hdead
  · cases above with
    | nil => simp at hle
    | cons r above =>
        right
        rw [View.stack_update, TypeStack.markConstant, hbase]
        cases r with
        | typed ty c => exact ⟨.typed ty true :: above, hle, rfl⟩
        | unreachable => exact ⟨.unreachable :: above, hle, hbase⟩

theorem takes_emitConstant (c : Constant) : Takes 0 1 (FormM.emitConstant c) :=
  (takes_emit [] (some c.ty) fun _ => rfl).bind fun _ => takes_markConstant

/-- A call takes its arguments; it leaves its result, if it has one. -/
theorem takes_emitCall (spec : SiteSpec) :
    Takes spec.argTypes.length (if spec.ret = .void then 0 else 1) (FormM.emitCall spec) := by
  intro s u t hne hrun
  obtain ⟨s₁, hview, hsites, hrun⟩ := emitCall_ok hne hrun
  have hmethods : (view s₁).methods = (view s).methods := by rw [hview]; rfl
  have hstack : (view s₁).stack = (view s).stack := by rw [hview]; rfl
  have hne₁ : (view s₁).methods ≠ [] := by rw [hmethods]; exact hne
  have hsame : Moves spec.argTypes.length spec.argTypes.length (view s) (view s₁) :=
    .of_stack ⟨hne₁, by rw [hmethods]⟩ hstack
  have he : (Instruction.invokeDynamic (view s).sites.length).effect (view s₁).sites
      = .ok (.ops spec.argTypes (if spec.ret = .void then none else some spec.ret)) := by
    simp [Instruction.effect, hsites]
  refine (hsame.trans (moves_emit hne₁ he hrun)).shift (m := 0) (by omega) ?_
  split <;> simp

theorem takes_emitSite (kind : SiteKind) (argTypes : List Ty) (ret : Ty) (d : Datum) :
    Takes argTypes.length 0 (emitSite kind argTypes ret d) :=
  (takes_emitCall _).shift 0 (Nat.le_refl _) (by omega)

end Emitting

/-! ### Conversions -/

section Conversions

variable {code : List Instruction} {target : Ty}

/-- An instruction that leaves a value and takes at most one. -/
def Converts (i : Instruction) : Prop :=
  ∃ pops ty, pops.length ≤ 1 ∧ ∀ sites, i.effect sites = .ok (.ops pops (some ty))

theorem takes_emitAll (h : ∀ i ∈ code, Converts i) : Takes 1 1 (FormM.emitAll code) := by
  induction code with
  | nil => exact takes_pure ()
  | cons i code ih =>
      obtain ⟨pops, ty, hle, he⟩ := h i (by simp)
      have hemit : Takes 1 1 (FormM.emit i) := (takes_emit _ _ he).shift 0 (by omega) (by simp)
      exact hemit.bind (f := fun _ => FormM.emitAll code) fun _ => ih fun j hj => h j (by simp [hj])

theorem converts_toBoxed (ty : Ty) : ∀ i ∈ Coercion.toBoxed ty, Converts i := by
  cases ty with
  | any => simp [Coercion.toBoxed]
  | cls name => simp [Coercion.toBoxed]
  | void =>
      simp only [Coercion.toBoxed, List.mem_singleton, forall_eq]
      exact ⟨[], _, by simp, fun _ => rfl⟩
  | prim p =>
      simp only [Coercion.toBoxed, List.mem_singleton, forall_eq]
      exact ⟨[.prim p], _, by simp, fun _ => rfl⟩

theorem converts_betweenPrims {a b : Prim} (h : Coercion.betweenPrims a b = .ok code) :
    ∀ i ∈ code, Converts i := by
  unfold Coercion.betweenPrims at h
  split at h
  · cases h
    simp only [List.mem_singleton, forall_eq]
    exact ⟨[.long], _, by simp, fun _ => rfl⟩
  · cases h
    simp only [List.mem_singleton, forall_eq]
    exact ⟨[.double], _, by simp, fun _ => rfl⟩
  · cases h

theorem converts_box (p : Prim) : Converts (.box p) := ⟨[.prim p], _, by simp, fun _ => rfl⟩

theorem converts_boxAs {r : Registry} {p : Prim} {name : String} (h : Coercion.boxAs r p name = .ok code) :
    ∀ i ∈ code, Converts i := by
  unfold Coercion.boxAs at h
  split at h
  · cases h
    simpa using converts_box p
  · split at h
    · cases h
      have hconvert : Converts (.convert .long .double) := ⟨[.long], _, by simp, fun _ => rfl⟩
      simpa using ⟨hconvert, converts_box .double⟩
    · cases h

theorem converts_castTo {r : Registry} {source : Ty} {name : String}
    (h : Coercion.castTo r source name = .ok code) : ∀ i ∈ code, Converts i := by
  unfold Coercion.castTo at h
  split at h
  · cases h
    simp
  · split at h
    · cases h
      have hcast : Converts (.checkCast name) := ⟨[.any], _, by simp, fun _ => rfl⟩
      simpa using hcast
    · cases h

/-- Whatever a value is converted to, unless that is nothing, it is still one value. -/
theorem converts_coerce {r : Registry} {source : Ty} (h : Coercion.coerce r source target = .ok code)
    (htarget : target ≠ .void) : ∀ i ∈ code, Converts i := by
  have hconst (c : Constant) : Converts (.const c) := ⟨[], _, by simp, fun _ => rfl⟩
  have hunbox (p : Prim) : Converts (.unbox p) := ⟨[.any], _, by simp, fun _ => rfl⟩
  unfold Coercion.coerce at h
  split at h
  · cases h
    simp
  · split at h
    · exact absurd rfl htarget
    · cases h
      simpa using hconst _
    · cases h
      simpa using hconst _
    · exact converts_betweenPrims h
    · cases h
      simpa using converts_box _
    · exact converts_boxAs h
    · split at h
      · cases h
        simpa using hunbox _
      · cases h
    · cases h
      simp
    · exact converts_castTo h

/-- A value converted to nothing is dropped, unless it was nothing. -/
theorem coerce_void {r : Registry} {source : Ty} (h : Coercion.coerce r source .void = .ok code) :
    code = if source = .void then [] else Coercion.discard source := by
  unfold Coercion.coerce at h
  split at h
  · cases h
    rw [if_pos ‹_›]
  · rename_i hne
    rw [if_neg hne]
    split at h <;> simp_all

theorem takes_discard (ty : Ty) : Takes 1 0 (FormM.emitAll (Coercion.discard ty)) := by
  have hdone : Takes 0 0 (FormM.emitAll []) := takes_pure ()
  unfold Coercion.discard
  split
  · exact hdone.shift 0 (by omega) (by omega)
  · exact (takes_emit [.any] none fun _ => rfl).bind fun _ => hdone
  · exact (takes_emit [.long] none fun _ => rfl).bind fun _ => hdone

theorem takes_boxTop : Takes 1 1 FormM.boxTop := by
  refine takes_topType.bind fun ty => ?_
  cases ty with
  | none => exact takes_pure ()
  | some ty => exact takes_emitAll (converts_toBoxed ty)

theorem takes_popValue : Takes 1 0 FormM.popValue := by
  refine takes_topType.bind fun ty => ?_
  split
  · exact takes_emit [.any] none fun _ => rfl
  · exact takes_emit [.long] none fun _ => rfl
  · exact (takes_pure (p := 0) ()).shift 0 (by omega) (by omega)

theorem takes_coerceTop (htarget : target ≠ .void) : Takes 1 1 (FormM.coerceTop target) := by
  refine takes_topType.bind fun ty => ?_
  cases ty with
  | none => exact takes_pure ()
  | some ty =>
      refine (takes_aside aside_registry).bind fun r => (takes_ofExcept _).bindWith fun code s t hcode => ?_
      exact takes_emitAll (converts_coerce (ofExcept_ok hcode).1 htarget)

/-- Even what is converted to nothing takes no more than the value itself. -/
theorem takes_coerceAway (target : Ty) : Takes 1 0 (FormM.coerceTop target) := by
  by_cases htarget : target = .void
  · subst htarget
    refine takes_topType.bind fun ty => ?_
    cases ty with
    | none => exact (takes_pure (p := 0) ()).shift 0 (by omega) (by omega)
    | some ty =>
        refine (takes_aside aside_registry).bind fun r => (takes_ofExcept _).bindWith fun code s t hcode => ?_
        rw [coerce_void (ofExcept_ok hcode).1]
        split
        · exact (takes_pure (p := 0) ()).shift 0 (by omega) (by omega)
        · exact takes_discard ty
  · exact (takes_coerceTop htarget).shift 0 (by omega) (by omega)

end Conversions

end LispMachine.Emission
