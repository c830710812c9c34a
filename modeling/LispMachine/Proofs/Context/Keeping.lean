import LispMachine.Form.Analysis
import LispMachine.Proofs.Sequencing

/-! # Work that puts its surroundings back

Whatever works on a form changes what is known about the text around it on the way: it opens scopes, loops,
methods and templates, and takes part of the text out of tail position.  `Keeps` says that all of it is put
back at every end, good or bad, up to what the form at hand is still adding to: the bindings of the
innermost scope, the names of the innermost template, and the values a `recur` leaves for its loop.  The
combinators here keep account of these three; what goes through a form is in the modules that follow. -/

namespace LispMachine

/-! ### Surroundings -/

/-- What is known about the text around a form. -/
structure Context where
  frames : List ScopeFrame
  loops : List LoopTarget
  /-- How many classes are being emitted. -/
  classes : Nat
  /-- How many `try` forms are open in each method being emitted. -/
  tryDepths : List Nat
  templates : List (Table String String)
  tail : Bool
  /-- How many interpreted `try` forms are open. -/
  tryDepth : Nat

/-- The surroundings of the form that is worked on. -/
def FormState.context (s : FormState) : Context where
  frames := s.scopes.frames
  loops := s.loops
  classes := s.classes.size
  tryDepths := s.methods.map MethodContext.tryDepth
  templates := s.templates
  tail := s.tail
  tryDepth := s.tryDepth

namespace Context

/-- Surroundings up to the bindings of the innermost scope or the names of the innermost template. -/
def upTo (bindings names : Bool) (c : Context) : Context :=
  { c with
    frames := if bindings then c.frames.modifyHead fun f => { f with bindings := [] } else c.frames
    templates := if names then c.templates.modifyHead fun _ => {} else c.templates }

end Context

namespace Keeping

open Form

/-! ### The signal of a `recur` -/

/-- The interpreter is at work, and the innermost loop was entered inside no more `try` forms than are open
now. -/
def Nested (s : FormState) : Prop :=
  s.methods = [] ∧ ∀ target rest, s.loops = target :: rest → target.tryDepth ≤ s.tryDepth

/-- No `recur` has left values behind; those of an earlier one may have been taken. -/
def Settled (s t : FormState) : Prop :=
  t.recurSignal = s.recurSignal ∨ s.recurSignal.isSome = true ∧ t.recurSignal = none

/-- A `recur` in tail position has left as many values as the loop around it takes; where `try` forms and
loops nest as they do in a program, no `try` stands between them, and the work has not failed. -/
def Recurs (s : FormState) (failed : Bool) (t : FormState) : Prop :=
  ∃ values target rest, t.recurSignal = some values ∧ s.tail = true ∧ s.loops = target :: rest ∧
    target.arity = values.length ∧ (Nested s → target.tryDepth = s.tryDepth ∧ failed = false)

/-- What may become of the signal. -/
inductive Signal where
  /-- It stays as it is. -/
  | fixed
  /-- Values of an earlier `recur` may be taken. -/
  | quiet
  /-- The work may end in a `recur`. -/
  | turning
  /-- Outside tail position it is `quiet`. -/
  | still
  | free

namespace Signal

/-- The signal is as it may be, given whether the work failed. -/
def Allows (s : FormState) (failed : Bool) (t : FormState) : Signal → Prop
  | .fixed => t.recurSignal = s.recurSignal
  | .quiet => Settled s t
  | .turning => Settled s t ∨ Recurs s failed t
  | .still => s.tail = false → Settled s t
  | .free => True

/-- What may become of the signal in the first part of some work: a `recur` comes last. -/
def before : Signal → Signal
  | .turning => .quiet
  | g => g

end Signal

section Signals

variable {s t u : FormState} {failed : Bool} {g : Signal}

theorem Settled.trans (h : Settled s t) (h' : Settled t u) : Settled s u := by
  rcases h with h | ⟨hsome, hnone⟩ <;> rcases h' with h' | ⟨hsome', hnone'⟩
  · exact .inl (h'.trans h)
  · exact .inr ⟨h ▸ hsome', hnone'⟩
  · exact .inr ⟨hsome, h'.trans hnone⟩
  · exact .inr ⟨hsome, hnone'⟩

/-- Both states are the same to a `recur`. -/
structure Alike (s s' : FormState) : Prop where
  loops : s'.loops = s.loops
  tail : s'.tail = s.tail
  tryDepth : s'.tryDepth = s.tryDepth
  tryDepths : s'.methods.map MethodContext.tryDepth = s.methods.map MethodContext.tryDepth

theorem Alike.of_context {bindings names : Bool} {s' : FormState}
    (h : s'.context.upTo bindings names = s.context.upTo bindings names) : Alike s s' :=
  ⟨congrArg Context.loops h, congrArg Context.tail h, congrArg Context.tryDepth h,
    congrArg Context.tryDepths h⟩

theorem Alike.nested {s' : FormState} (h : Alike s s') (hnested : Nested s') : Nested s := by
  refine ⟨?_, fun target rest hloops => ?_⟩
  · have hmethods := h.tryDepths
    rw [hnested.1] at hmethods
    exact List.map_eq_nil_iff.mp hmethods.symm
  · rw [← h.tryDepth]
    exact hnested.2 target rest (h.loops.trans hloops)

theorem Recurs.congr {s' t' : FormState} (h : Recurs s failed t) (halike : Alike s s')
    (hsignal : t'.recurSignal = t.recurSignal) : Recurs s' failed t' := by
  obtain ⟨values, target, rest, hvalues, htail, hloops, harity, hnested⟩ := h
  refine ⟨values, target, rest, hsignal.trans hvalues, halike.tail.trans htail, halike.loops.trans hloops,
    harity, fun hnested' => ?_⟩
  rw [halike.tryDepth]
  exact hnested (halike.nested hnested')

theorem Signal.Allows.of_fixed (h : t.recurSignal = s.recurSignal) (g : Signal) : g.Allows s failed t := by
  cases g with
  | fixed => exact h
  | quiet => exact .inl h
  | turning => exact .inl (.inl h)
  | still => exact fun _ => .inl h
  | free => trivial

theorem Signal.Allows.of_before (h : g.before.Allows s failed t) : g.Allows s failed t := by
  cases g with
  | turning => exact .inl h
  | _ => exact h

/-- What may become of the signal in two parts of some work, the first of which ends well with the
surroundings put back. -/
theorem Signal.Allows.trans (h : g.before.Allows s false t) (h' : g.Allows t failed u) (halike : Alike t s) :
    g.Allows s failed u := by
  cases g with
  | fixed => exact h'.trans h
  | quiet => exact Settled.trans h h'
  | turning => exact h'.imp h.trans fun hrecurs => hrecurs.congr halike rfl
  | still => exact fun htail => (h htail).trans (h' (halike.tail.symm.trans htail))
  | free => trivial

theorem Signal.Allows.congr {s' t' : FormState} (h : g.Allows s failed t) (halike : Alike s s')
    (hs : s'.recurSignal = s.recurSignal) (ht : t'.recurSignal = t.recurSignal) : g.Allows s' failed t' := by
  have hsettled : Settled s t → Settled s' t' := by
    unfold Settled
    rw [hs, ht]
    exact id
  cases g with
  | fixed => exact ht.trans (Eq.trans h hs.symm)
  | quiet => exact hsettled h
  | turning => exact h.imp hsettled fun hrecurs => hrecurs.congr halike ht
  | still => exact fun htail => hsettled (h (halike.tail.symm.trans htail))
  | free => trivial

end Signals

/-! ### Keeping -/

/-- The surroundings are as they were, up to the bindings of the innermost scope and the names of the
innermost template, and the signal is as it may be. -/
structure Kept (bindings names : Bool) (g : Signal) (s : FormState) (failed : Bool) (t : FormState) :
    Prop where
  context : t.context.upTo bindings names = s.context.upTo bindings names
  signal : g.Allows s failed t

/-- What holds, given whether the work failed, of the state it ends in; running out of fuel is no end. -/
def Ends {α : Type} (P : Bool → FormState → Prop) : EStateM.Result Fault FormState α → Prop
  | .ok _ t => P false t
  | .error (.error _) t => P true t
  | .error .outOfFuel _ => True

/-- The surroundings are put back at every end. -/
def Keeps {α : Type} (bindings names : Bool) (g : Signal) (x : FormM α) : Prop :=
  ∀ s, Ends (Kept bindings names g s) (x s)

section Keeps

variable {α β : Type} {b b' n n' failed : Bool} {g : Signal} {s t u : FormState}
  {x : FormM α} {f : α → FormM β}

theorem upTo_mono {c c' : Context} (h : c'.upTo b n = c.upTo b n) (hb : b = true → b' = true)
    (hn : n = true → n' = true) : c'.upTo b' n' = c.upTo b' n' := by
  obtain ⟨frames, loops, classes, tryDepths, templates, tail, tryDepth⟩ := c
  obtain ⟨frames', loops', classes', tryDepths', templates', tail', tryDepth'⟩ := c'
  simp only [Context.upTo, Context.mk.injEq] at h ⊢
  obtain ⟨hframes, rfl, rfl, rfl, htemplates, rfl, rfl⟩ := h
  refine ⟨?_, rfl, rfl, rfl, ?_, rfl, rfl⟩
  · cases b with
    | false => rw [show frames' = frames from hframes]
    | true => simpa [hb rfl] using hframes
  · cases n with
    | false => rw [show templates' = templates from htemplates]
    | true => simpa [hn rfl] using htemplates

theorem Kept.refl (s : FormState) : Kept b n g s failed s := ⟨rfl, .of_fixed rfl g⟩

/-- Nothing of the surroundings and of the signal has changed. -/
theorem kept_of_eq (hcontext : t.context = s.context) (hsignal : t.recurSignal = s.recurSignal) :
    Kept b n g s failed t :=
  ⟨by rw [hcontext], .of_fixed hsignal g⟩

theorem Kept.of_before (h : Kept b n g.before s failed t) : Kept b n g s failed t :=
  ⟨h.context, h.signal.of_before⟩

theorem Kept.trans (h : Kept b n g.before s false t) (h' : Kept b n g t failed u) : Kept b n g s failed u :=
  ⟨h'.context.trans h.context, h.signal.trans h'.signal (.of_context h.context.symm)⟩

theorem Keeps.ok {a : α} (h : Keeps b n g x) (hrun : x s = .ok a t) : Kept b n g s false t := by
  have hkept := h s
  rwa [hrun] at hkept

theorem Keeps.error {e : Error} (h : Keeps b n g x) (hrun : x s = .error (.error e) t) :
    Kept b n g s true t := by
  have hkept := h s
  rwa [hrun] at hkept

/-- A failure passed on. -/
theorem Keeps.passed {e : Fault} (h : Keeps b n g x) (hrun : x s = .error e t) :
    Ends (Kept b n g s) (.error e t : EStateM.Result Fault FormState β) := by
  have hkept := h s
  rw [hrun] at hkept
  cases e with
  | error _ => exact hkept
  | outOfFuel => trivial

theorem Ends.mono {P Q : Bool → FormState → Prop} {r : EStateM.Result Fault FormState α} (h : Ends P r)
    (hmono : ∀ failed t, P failed t → Q failed t) : Ends Q r := by
  match r, h with
  | .ok _ t, h => exact hmono false t h
  | .error (.error _) t, h => exact hmono true t h
  | .error .outOfFuel _, _ => trivial

theorem Ends.andFinally {P Q : Bool → FormState → Prop} {leave : FormState → FormState} (h : Ends P (x s))
    (hleave : ∀ failed t, P failed t → Q failed (leave t)) : Ends Q (x.andFinally leave s) := by
  unfold FormM.andFinally
  match x s, h with
  | .ok _ t, h => exact hleave false t h
  | .error (.error _) t, h => exact hleave true t h
  | .error .outOfFuel _, _ => trivial

theorem Keeps.upTo (h : Keeps false false g x) : Keeps b n g x :=
  fun s => (h s).mono fun _ _ hkept => ⟨upTo_mono hkept.context nofun nofun, hkept.signal⟩

theorem Keeps.of_fixed (h : Keeps b n .fixed x) : Keeps b n g x :=
  fun s => (h s).mono fun _ _ hkept => ⟨hkept.context, .of_fixed hkept.signal g⟩

theorem Keeps.of_before (h : Keeps b n g.before x) : Keeps b n g x :=
  fun s => (h s).mono fun _ _ hkept => hkept.of_before

/-- A turn is taken in tail position only. -/
theorem Keeps.still (h : Keeps b n .turning x) : Keeps b n .still x := by
  intro s
  refine (h s).mono fun failed t hkept => ⟨hkept.context, fun htail => ?_⟩
  rcases hkept.signal with hsettled | ⟨_, _, _, -, htail', -⟩
  · exact hsettled
  · rw [htail] at htail'
    cases htail'

theorem Keeps.free (h : Keeps b n g x) : Keeps b n .free x :=
  fun s => (h s).mono fun _ _ hkept => ⟨hkept.context, trivial⟩

/-! ### Sequences -/

theorem keeps_pure (a : α) : Keeps b n g (pure a : FormM α) :=
  fun s => Kept.refl s

theorem keeps_fail (e : Error) : Keeps b n g (FormM.fail e : FormM α) :=
  fun s => Kept.refl s

theorem keeps_outOfFuel : Keeps b n g (throw .outOfFuel : FormM α) := fun _ => trivial

theorem keeps_ofExcept (e : Except Error α) : Keeps b n g (FormM.ofExcept e) := by
  cases e with
  | ok a => exact keeps_pure a
  | error e => exact keeps_fail e

theorem Keeps.bind (hx : Keeps b n g.before x) (hf : ∀ a, Keeps b n g (f a)) : Keeps b n g (x >>= f) := by
  intro s
  rw [State.bind_eq]
  cases hrun : x s with
  | ok a t =>
    dsimp only
    have hkept := hx.ok hrun
    cases hrun' : f a t with
    | ok _ u => exact hkept.trans ((hf a).ok hrun')
    | error e u =>
      cases e with
      | error e => exact hkept.trans ((hf a).error hrun')
      | outOfFuel => trivial
  | error e t => exact (hx.passed hrun).mono fun _ _ hkept => hkept.of_before

/-- Parts of the work that are not the last. -/
theorem Keeps.bindBefore (hx : Keeps b n g.before x) (hf : ∀ a, Keeps b n g.before (f a)) :
    Keeps b n g.before (x >>= f) := by
  have hidempotent : g.before.before = g.before := by cases g <;> rfl
  exact .bind (by rwa [hidempotent]) hf

theorem keeps_get : Keeps b n g (get : FormM FormState) := fun s => Kept.refl s

theorem keeps_ite {c : Prop} [Decidable c] {x y : FormM α} (hx : Keeps b n g x) (hy : Keeps b n g y) :
    Keeps b n g (if c then x else y) := by
  split
  · exact hx
  · exact hy

theorem keeps_modify {change : FormState → FormState} (hcontext : ∀ s, (change s).context = s.context)
    (hsignal : ∀ s, (change s).recurSignal = s.recurSignal) :
    Keeps b n g (modify change : FormM PUnit) :=
  fun s => kept_of_eq (hcontext s) (hsignal s)

theorem Keeps.map (hx : Keeps b n g.before x) (f : α → β) : Keeps b n g (f <$> x) := by
  rw [map_eq_pure_bind]
  exact hx.bind fun a => keeps_pure (f a)

/-- One part of the work after the other; a `recur` could only come in the last. -/
theorem keeps_forM {xs : List α} {f : α → FormM PUnit} (h : ∀ a, Keeps b n g.before (f a)) :
    Keeps b n g (xs.forM f) := by
  refine .of_before ?_
  induction xs with
  | nil => exact keeps_pure _
  | cons a rest ih => exact (h a).bindBefore fun _ => ih

theorem keeps_mapM {xs : List α} (h : ∀ a, Keeps b n g.before (f a)) : Keeps b n g (xs.mapM f) := by
  refine .of_before ?_
  induction xs with
  | nil =>
    rw [List.mapM_nil]
    exact keeps_pure _
  | cons a rest ih =>
    rw [List.mapM_cons]
    exact (h a).bindBefore fun _ => ih.bindBefore fun _ => keeps_pure _

/-- Giving errors a place changes nothing else. -/
theorem Keeps.atSpan (h : Keeps b n g x) (span : Span) : Keeps b n g (x.atSpan span) := by
  intro s
  unfold FormM.atSpan
  cases hrun : x s with
  | ok a t => exact h.ok hrun
  | error e t =>
    cases e with
    | error e => exact h.error hrun
    | outOfFuel => trivial

/-- Work `x` in changed surroundings that are left again at every end. -/
theorem keeps_enclosed {x : FormState → FormM α} {y : FormM α} {g' : Signal} (enter : FormState → FormState)
    (leave : FormState → FormState → FormState) (hrun : ∀ s, y s = (x s).andFinally (leave s) (enter s))
    (hx : ∀ s, Keeps b' n' g' (x s))
    (hkept : ∀ s failed t, Kept b' n' g' (enter s) failed t → Kept b n g s failed (leave s t)) :
    Keeps b n g y := by
  intro s
  rw [hrun]
  exact (hx s (enter s)).andFinally (hkept s)

end Keeps

/-! ### The world, the current method and the current class -/

section State

variable {α β : Type} {b n : Bool} {g : Signal}

theorem keeps_lift (a : Action α) : Keeps b n g (FormM.lift a) := by
  intro s
  unfold FormM.lift
  dsimp only
  cases a s.world with
  | ok x w => exact kept_of_eq rfl rfl
  | error e w =>
    cases e with
    | error e => exact kept_of_eq rfl rfl
    | outOfFuel => trivial

theorem keeps_world : Keeps b n g FormM.world := keeps_get.bind fun _ => keeps_pure _

theorem keeps_registry : Keeps b n g FormM.registry := keeps_get.bind fun _ => keeps_pure _

theorem keeps_tryDepth : Keeps b n g FormM.tryDepth := keeps_get.bind fun _ => keeps_pure _

theorem keeps_lookup (name : String) : Keeps b n g (FormM.lookup name) :=
  keeps_get.bind fun _ => keeps_ofExcept _

theorem keeps_importClass (full : String) : Keeps b n g (FormM.importClass full) :=
  keeps_get.bind fun _ => (keeps_ofExcept _).bind fun _ => keeps_modify (fun _ => rfl) fun _ => rfl

theorem keeps_method : Keeps b n g FormM.method := by
  refine keeps_get.bind fun s => ?_
  split
  · exact keeps_pure _
  · exact keeps_fail _

theorem keeps_stack : Keeps b n g FormM.stack := keeps_method.bind fun _ => keeps_pure _

theorem keeps_modifyMethod {f : MethodContext → MethodContext} (h : ∀ m, (f m).tryDepth = m.tryDepth) :
    Keeps b n g (FormM.modifyMethod f) := by
  intro s
  unfold FormM.modifyMethod
  rw [State.bind_of_ok (State.get_eq s)]
  cases hmethods : s.methods with
  | nil => exact Kept.refl s
  | cons m rest => exact kept_of_eq (by simp [FormState.context, hmethods, h]) rfl

theorem keeps_modifyStack (f : TypeStack → TypeStack) : Keeps b n g (FormM.modifyStack f) :=
  keeps_modifyMethod fun _ => rfl

theorem keeps_modifyCode (f : CodeBuffer → CodeBuffer) : Keeps b n g (FormM.modifyCode f) :=
  keeps_modifyMethod fun _ => rfl

theorem keeps_onCode (f : CodeBuffer → α × CodeBuffer) : Keeps b n g (FormM.onCode f) :=
  keeps_method.bind fun _ => (keeps_modifyCode _).bind fun _ => keeps_pure _

theorem keeps_isUnreachable : Keeps b n g FormM.isUnreachable := by
  refine keeps_get.bind fun s => ?_
  split <;> exact keeps_pure _

theorem keeps_topType? : Keeps b n g FormM.topType? := keeps_stack.bind fun _ => keeps_pure _

theorem keeps_ownerIndex : Keeps b n g FormM.ownerIndex := by
  refine keeps_get.bind fun s => ?_
  split
  · exact keeps_pure _
  · exact keeps_ite (keeps_fail _) (keeps_pure _)

theorem keeps_currentClass : Keeps b n g FormM.currentClass := by
  refine keeps_get.bind fun s => keeps_ownerIndex.bind fun i => ?_
  split
  · exact keeps_pure _
  · exact keeps_fail _

theorem keeps_modifyClass (f : ClassContext → ClassContext) : Keeps b n g (FormM.modifyClass f) :=
  keeps_ownerIndex.bind fun _ => keeps_modify (fun s => by simp [FormState.context]) fun _ => rfl

/-! ### Emitting -/

theorem keeps_emit (i : Instruction) : Keeps b n g (FormM.emit i) := by
  unfold FormM.emit
  refine keeps_get.bind fun s => ?_
  split
  · exact keeps_fail _
  · refine keeps_ite (keeps_pure _) ?_
    refine (keeps_ofExcept _).bind fun effect => ?_
    refine (keeps_modifyStack _).bind fun _ => (keeps_ofExcept _).bind fun _ => ?_
    exact (keeps_modifyCode _).bind fun _ => keeps_ite (keeps_modifyStack _) (keeps_pure _)

theorem keeps_emitAll (code : List Instruction) : Keeps b n g (FormM.emitAll code) :=
  keeps_forM keeps_emit

theorem keeps_emitConstant (c : Constant) : Keeps b n g (FormM.emitConstant c) :=
  (keeps_emit _).bind fun _ => keeps_modifyStack _

theorem keeps_emitCall (spec : SiteSpec) : Keeps b n g (FormM.emitCall spec) :=
  keeps_currentClass.bind fun _ => (keeps_modifyClass _).bind fun _ => keeps_emit _

theorem keeps_boxTop : Keeps b n g FormM.boxTop := by
  refine keeps_topType?.bind fun ty => ?_
  split
  · exact keeps_emitAll _
  · exact keeps_pure _

theorem keeps_popValue : Keeps b n g FormM.popValue := by
  refine keeps_topType?.bind fun ty => ?_
  split
  · exact keeps_emit _
  · exact keeps_emit _
  · exact keeps_pure _

theorem keeps_coerceTop (target : Ty) : Keeps b n g (FormM.coerceTop target) := by
  refine keeps_topType?.bind fun ty => ?_
  split
  · exact keeps_registry.bind fun _ => (keeps_ofExcept _).bind fun _ => keeps_emitAll _
  · exact keeps_pure _

theorem keeps_settle (base : List StackRecord) (result : Option Ty) :
    Keeps b n g (FormM.settle base result) := by
  refine (keeps_modifyStack _).bind fun _ => keeps_ite (keeps_pure _) ?_
  split
  · exact keeps_modifyStack _
  · exact keeps_modifyStack _

theorem keeps_capture (name : String) (ty : Ty) : Keeps b n g (FormM.capture name ty) := by
  refine keeps_currentClass.bind fun c => keeps_ite (keeps_fail _) ?_
  split
  · exact keeps_pure _
  · exact (keeps_modifyClass _).bind fun _ => keeps_pure _

theorem keeps_warn (span : Option Span) (message : String) : Keeps b n g (FormM.warn span message) :=
  keeps_lift _

end State

/-! ### Nesting -/

section Nesting

variable {α : Type} {b n failed : Bool} {g : Signal} {s t : FormState} {x : FormM α}

/-- Putting the tail flag back. -/
theorem context_tail {tail : Bool} (h : t.context.upTo b n = { s with tail }.context.upTo b n) :
    { t with tail := s.tail }.context.upTo b n = s.context.upTo b n :=
  congrArg (fun c => { c with tail := s.tail }) h

theorem keeps_withTail_as {g' : Signal} (tail : Bool) (h : Keeps b n g' x)
    (hsignal : ∀ s failed t, g'.Allows { s with tail } failed t → g.Allows s failed { t with tail := s.tail }) :
    Keeps b n g (FormM.withTail tail x) := by
  refine keeps_enclosed (fun s => { s with tail }) (fun s t => { t with tail := s.tail }) (fun _ => rfl)
    (fun _ => h) ?_
  intro s failed t hkept
  exact ⟨context_tail hkept.context, hsignal s failed t hkept.signal⟩

theorem keeps_withTail (tail : Bool) (h : Keeps b n .fixed x) : Keeps b n g (FormM.withTail tail x) :=
  keeps_withTail_as tail h fun _ _ _ hfixed => .of_fixed (by exact hfixed) g

/-- Outside tail position no `recur` is accepted. -/
theorem keeps_withTail_false (h : Keeps b n .still x) : Keeps b n .quiet (FormM.withTail false x) :=
  keeps_withTail_as false h fun _ _ _ hstill => hstill rfl

theorem keeps_withTail_free (tail : Bool) (h : Keeps b n g x) : Keeps b n .free (FormM.withTail tail x) :=
  keeps_withTail_as tail h fun _ _ _ _ => trivial

/-- Putting the loops back. -/
theorem context_loops {target : LoopTarget}
    (h : t.context.upTo b n = { s with loops := target :: s.loops }.context.upTo b n) :
    { t with loops := s.loops }.context.upTo b n = s.context.upTo b n :=
  congrArg (fun c => { c with loops := s.loops }) h

theorem keeps_withLoop_as {g' : Signal} (target : LoopTarget) (h : Keeps b n g' x)
    (hsignal : ∀ s failed t, g'.Allows { s with loops := target :: s.loops } failed t →
      g.Allows s failed { t with loops := s.loops }) : Keeps b n g (withLoop target x) := by
  refine keeps_enclosed (fun s => { s with loops := target :: s.loops })
    (fun s t => { t with loops := s.loops }) (fun _ => rfl) (fun _ => h) ?_
  intro s failed t hkept
  exact ⟨context_loops hkept.context, hsignal s failed t hkept.signal⟩

theorem keeps_withLoop (target : LoopTarget) (h : Keeps b n .fixed x) : Keeps b n g (withLoop target x) :=
  keeps_withLoop_as target h fun _ _ _ hfixed => .of_fixed (by exact hfixed) g

theorem keeps_withLoop_free (target : LoopTarget) (h : Keeps b n g x) :
    Keeps b n .free (withLoop target x) :=
  keeps_withLoop_as target h fun _ _ _ _ => trivial

/-- What lies below a changed head. -/
theorem tail_of_modifyHead {β : Type} {f : β → β} {xs : List β} {a : β} {rest : List β}
    (h : xs.modifyHead f = a :: rest) : xs.drop 1 = rest ∧ xs.length = rest.length + 1 := by
  cases xs with
  | nil => cases h
  | cons a' rest' =>
    simp only [List.modifyHead_cons, List.cons.injEq] at h
    exact ⟨by rw [← h.2]; rfl, by rw [← h.2]; rfl⟩

theorem releaseSlots_context (frames : List ScopeFrame) (level : Nat) (s : FormState) :
    (FormM.releaseSlots frames level s).context = s.context := by
  unfold FormM.releaseSlots
  split
  · rename_i m rest hmethods
    split
    · simp [FormState.context, hmethods]
    · rfl
  · rfl

theorem releaseSlots_signal (frames : List ScopeFrame) (level : Nat) (s : FormState) :
    (FormM.releaseSlots frames level s).recurSignal = s.recurSignal := by
  unfold FormM.releaseSlots
  split
  · split <;> rfl
  · rfl

/-- A scope takes the bindings made in it along. -/
theorem keeps_withScope (kind : ScopeKind) (h : Keeps true n g x) : Keeps b n g (FormM.withScope kind x) := by
  refine keeps_enclosed (fun s => { s with scopes := s.scopes.push kind s.methods.length })
    (fun s t => FormM.releaseSlots (t.scopes.truncate s.scopes.depth).1 s.methods.length
      { t with scopes := (t.scopes.truncate s.scopes.depth).2 }) (fun _ => rfl) (fun _ => h) ?_
  intro s failed t hkept
  have hframes : t.scopes.frames.drop 1 = s.scopes.frames
      ∧ t.scopes.frames.length = s.scopes.frames.length + 1 :=
    tail_of_modifyHead (congrArg Context.frames hkept.context)
  have hscopes : (t.scopes.truncate s.scopes.depth).2.frames = s.scopes.frames := by
    simp only [Scopes.truncate, Scopes.depth]
    rw [hframes.2, Nat.add_sub_cancel_left]
    exact hframes.1
  refine ⟨?_, hkept.signal.congr ⟨rfl, rfl, rfl, rfl⟩ rfl (releaseSlots_signal ..)⟩
  have hrest := congrArg (fun c => { c with frames := (s.context.upTo b n).frames }) hkept.context
  rw [releaseSlots_context]
  refine Eq.trans ?_ hrest
  simp only [Context.upTo, FormState.context, hscopes]

/-- A template takes the names made in it along. -/
theorem keeps_withNames (h : Keeps b true g x) : Keeps b n g (Template.withNames x) := by
  refine keeps_enclosed (fun s => { s with templates := {} :: s.templates })
    (fun s t => { t with templates := t.templates.drop 1 }) (fun _ => rfl) (fun _ => h) ?_
  intro s failed t hkept
  have htemplates : t.templates.drop 1 = s.templates :=
    (tail_of_modifyHead (congrArg Context.templates hkept.context)).1
  refine ⟨?_, hkept.signal.congr ⟨rfl, rfl, rfl, rfl⟩ rfl rfl⟩
  have hrest := congrArg (fun c => { c with templates := (s.context.upTo b n).templates }) hkept.context
  refine Eq.trans ?_ hrest
  simp only [Context.upTo, FormState.context, htemplates]

/-- Changes of the bindings of the innermost scope. -/
theorem keeps_changeScopes (change : Scopes → Except Error Scopes)
    (h : ∀ scopes scopes', change scopes = .ok scopes' →
      scopes'.frames.modifyHead (fun f => { f with bindings := [] })
        = scopes.frames.modifyHead fun f => { f with bindings := [] }) :
    Keeps true n g (do
      let scopes ← FormM.ofExcept (change (← get).scopes)
      modify fun s => { s with scopes }) := by
  intro s
  rw [State.bind_of_ok (State.get_eq s)]
  cases hchange : change s.scopes with
  | error e => exact Kept.refl s
  | ok scopes =>
    refine ⟨?_, .of_fixed rfl g⟩
    have hframes := h _ _ hchange
    simp only [Context.upTo, FormState.context, if_true, hframes]

theorem keeps_bindName (binding : Binding) : Keeps true n g (FormM.bindName binding) := by
  refine keeps_changeScopes (fun scopes => scopes.bind binding) fun scopes scopes' hbind => ?_
  dsimp only [Scopes.bind] at hbind
  split at hbind
  · cases hbind
  · rename_i f rest hframes
    cases hbind
    rw [hframes]
    rfl

/-! ### Methods and classes -/

/-- The work on a method, without what is made of its context in the end. -/
def insideMethod (context : MethodContext) (x : FormM α) : FormM (α × Option MethodContext) := fun s =>
  FormM.andFinally (do
    let a ← x
    let t ← get
    return (a, t.methods[t.methods.length - s.methods.length - 1]?))
  (fun t => { t with
    loops := s.loops, tail := s.tail, methods := t.methods.drop (t.methods.length - s.methods.length) })
  { s with methods := context :: s.methods, loops := [] }

theorem withMethod_eq (context : MethodContext) (x : FormM α) :
    FormM.withMethod context x = insideMethod context x >>= fun (a, made) =>
      match made with
      | some made => pure (a, made)
      | none => FormM.fail (Error.internal "method context lost") := by
  funext s
  rfl

theorem keeps_insideMethod (context : MethodContext) (h : Keeps b n .fixed x) :
    Keeps b n g (insideMethod context x) := by
  refine keeps_enclosed (fun s => { s with methods := context :: s.methods, loops := [] })
    (fun s t => { t with
      loops := s.loops, tail := s.tail, methods := t.methods.drop (t.methods.length - s.methods.length) })
    (fun _ => rfl) (fun _ => h.bind (g := .fixed) fun _ => keeps_get.bind fun _ => keeps_pure _) ?_
  intro s failed t hkept
  have hdepths : t.methods.map MethodContext.tryDepth
      = context.tryDepth :: s.methods.map MethodContext.tryDepth :=
    congrArg Context.tryDepths hkept.context
  have hlength : t.methods.length = s.methods.length + 1 := by
    simpa using congrArg List.length hdepths
  have hrestored : (t.methods.drop (t.methods.length - s.methods.length)).map MethodContext.tryDepth
      = s.methods.map MethodContext.tryDepth := by
    rw [hlength, Nat.add_sub_cancel_left, List.map_drop, hdepths]
    rfl
  refine ⟨?_, .of_fixed (by exact hkept.signal) g⟩
  have hrest := congrArg (fun c => { c with
    loops := s.loops, tail := s.tail, tryDepths := s.methods.map MethodContext.tryDepth }) hkept.context
  refine Eq.trans ?_ hrest
  simp only [Context.upTo, FormState.context, hrestored]

/-- A method is gone when its body is done. -/
theorem keeps_withMethod (context : MethodContext) (h : Keeps b n .fixed x) :
    Keeps b n g (FormM.withMethod context x) := by
  rw [withMethod_eq]
  refine (keeps_insideMethod context h).bind fun (a, made) => ?_
  cases made with
  | some made => exact keeps_pure _
  | none => exact keeps_fail _

/-- The work on a class, without what is made of its context in the end. -/
def insideClass (context : ClassContext) (x : Nat → FormM α) : FormM (α × Option ClassContext) := fun s =>
  FormM.andFinally (do
    let a ← x s.classes.size
    return (a, (← get).classes[s.classes.size]?))
  (fun t => { t with classes := t.classes.take s.classes.size })
  { s with classes := s.classes.push context }

theorem withClass_eq (context : ClassContext) (x : Nat → FormM α) :
    FormM.withClass context x = insideClass context x >>= fun (a, made) =>
      match made with
      | some made => pure (a, made)
      | none => FormM.fail (Error.internal "class context lost") := by
  funext s
  rfl

theorem keeps_insideClass (context : ClassContext) {x : Nat → FormM α} (h : ∀ i, Keeps b n .fixed (x i)) :
    Keeps b n g (insideClass context x) := by
  refine keeps_enclosed (fun s => { s with classes := s.classes.push context })
    (fun s t => { t with classes := t.classes.take s.classes.size }) (fun _ => rfl)
    (fun s => (h s.classes.size).bind (g := .fixed) fun _ => keeps_get.bind fun _ => keeps_pure _) ?_
  intro s failed t hkept
  have hsize : t.classes.size = s.classes.size + 1 := by
    simpa [FormState.context, Context.upTo] using congrArg Context.classes hkept.context
  have hrestored : (t.classes.take s.classes.size).size = s.classes.size := by
    simp only [Array.size_extract, Array.take]
    omega
  refine ⟨?_, .of_fixed (by exact hkept.signal) g⟩
  have hrest := congrArg (fun c => { c with classes := s.classes.size }) hkept.context
  refine Eq.trans ?_ hrest
  simp only [Context.upTo, FormState.context, hrestored]

/-- A class is gone when its methods are done. -/
theorem keeps_withClass (context : ClassContext) {x : Nat → FormM α} (h : ∀ i, Keeps b n .fixed (x i)) :
    Keeps b n g (FormM.withClass context x) := by
  rw [withClass_eq]
  refine (keeps_insideClass context h).bind fun (a, made) => ?_
  cases made with
  | some made => exact keeps_pure _
  | none => exact keeps_fail _

end Nesting

end Keeping

end LispMachine
