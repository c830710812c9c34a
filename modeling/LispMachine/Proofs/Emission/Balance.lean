import LispMachine.Libraries.Standard
import LispMachine.Proofs.Emission.FramedForms

/-! # One record more

Where control gets to the end of a form, its code has put one record on top of those that were there, all
of which are as they were (`compile_framed`).  Here are the forms with branches, with locals, with handlers
and with classes of their own; the first three go back to records they have kept, and a class is compiled
into methods beside the one at work. -/

namespace LispMachine.Emission

open Form

/-! ### Branches -/

section Branches

variable {h : Handlers} {p q : Nat}

theorem takes_newLabel : Takes p p FormM.newLabel := takes_onCode _

theorem takes_place (l : Label) : Takes p p (FormM.place l) := takes_modifyCode _

theorem takes_here : Takes p p FormM.here := takes_onCode _

theorem inside_newLabel : Inside FormM.newLabel := inside_onCode _

theorem inside_place (l : Label) : Inside (FormM.place l) := inside_modifyCode _

theorem inside_here : Inside FormM.here := inside_onCode _

theorem takes_labelsFor {α : Type} (items : List α) : Takes 0 0 (labelsFor items) :=
  .mapM fun _ => takes_newLabel

theorem inside_closeArm (last : Label) : Inside (closeArm last) :=
  (takes_topType (p := 0)).inside.bind fun _ => (inside_onCode _).bind fun _ =>
    (inside_emit _).bind fun _ => (inside_pure _)

theorem inside_fillArm (target : Ty) (arm : Arm) : Inside (fillArm target arm) := by
  unfold fillArm
  split
  · exact (inside_pure _)
  · exact (inside_aside aside_registry).bind fun _ =>
      (inside_aside (.ofExcept _)).bind fun _ => (inside_modifyCode _)

theorem inside_joinArms (arms : List Arm) : Inside (joinArms arms) := by
  refine (inside_aside aside_registry).bind fun r => ?_
  have hreturn : Inside (pure (armType? r arms) : FormM (Option Ty)) := (inside_pure _)
  dsimp only
  split
  · exact (Inside.forM (inside_fillArm _) arms).bind fun _ => hreturn
  · exact hreturn

theorem inside_startAt (base : List StackRecord) (l : Label) : Inside (startAt base l) :=
  (inside_modifyStack _).bind fun _ => inside_place l

theorem takes_emitTest : Takes 1 1 emitTest := by
  refine takes_topType.bind fun ty => ?_
  cases ty with
  | none => exact takes_pure ()
  | some ty =>
      refine .ite (takes_pure ()) ((takes_emitAll (converts_toBoxed ty)).bind fun _ => ?_)
      exact takes_emit [.any] (some .boolean) fun _ => rfl

theorem takes_compileOptional (hc : Frames h) (d : Option Datum) : Takes 0 1 (compileOptional h d) := by
  cases d with
  | some d => exact hc.takes d
  | none => exact takes_emitConstant .nil

/-- Both arms start from the records behind the test, and so does what follows. -/
theorem takes_compileIf (hc : Frames h) (d : Datum) : Takes 0 0 (compileIf h d) := by
  refine (takes_ofExcept _).bind fun ⟨test, whenTrue, whenFalse⟩ => ?_
  refine ((hc.takes test).withTail false).bind fun _ => Takes.whereLive ?_
  refine takes_emitTest.bind fun _ => takes_newLabel.bind fun otherwise => takes_newLabel.bind fun last => ?_
  refine (takes_emit [.boolean] none fun _ => rfl).bind fun _ => ?_
  refine takes_keeping fun stack => ?_
  refine (hc.takes whenTrue).inside.backTo fun _ => (inside_closeArm last).backTo fun first => ?_
  refine (inside_startAt _ otherwise).backTo fun _ => ?_
  refine (takes_compileOptional hc whenFalse).inside.backTo fun _ => ?_
  refine (inside_closeArm last).backTo fun second => (inside_place last).backTo fun _ => ?_
  exact (inside_joinArms _).backTo fun joined => backTo_settle _ joined

theorem inside_emitAll (code : List Instruction) : Inside (FormM.emitAll code) := .forM inside_emit code

theorem inside_emitKeyTest (base : List StackRecord) (temp : Nat) (dispatch : Label) (key : CaseKey) :
    Inside (emitKeyTest base temp dispatch key) :=
  inside_newLabel.bind fun next => (inside_emit _).bind fun _ => (inside_emit _).bind fun _ =>
    (inside_emitAll _).bind fun _ => (inside_emit _).bind fun _ => (inside_emit _).bind fun _ =>
      (inside_emit _).bind fun _ => (inside_emit _).bind fun _ => inside_startAt base next

theorem inside_emitBucket (base : List StackRecord) (temp : Nat) (dispatch fallback : Label) (b : Bucket)
    (l : Label) : Inside (emitBucket base temp dispatch fallback b l) :=
  (inside_startAt base l).bind fun _ =>
    (Inside.forM (inside_emitKeyTest base temp dispatch) b.keys).bind fun _ => inside_emit _

theorem inside_emitSwitch (base : List StackRecord) (temp : Nat) (fallback : Label)
    (branches : List Label) (keys : List CaseKey) :
    Inside (emitSwitch base temp fallback branches keys) := by
  unfold emitSwitch
  split
  · exact (inside_pure _)
  · refine (takes_labelsFor _).inside.bind fun labels => inside_newLabel.bind fun dispatch => ?_
    refine (inside_emit _).bind fun _ => (inside_emit _).bind fun _ => (inside_emit _).bind fun _ => ?_
    have hbucket (q : Bucket × Label) := inside_emitBucket base temp dispatch fallback q.1 q.2
    refine (Inside.forM hbucket _).bind fun _ => ?_
    exact (inside_modifyStack _).bind fun _ => (inside_place dispatch).bind fun _ =>
      inside_emit _

theorem inside_emitCall (spec : SiteSpec) : Inside (FormM.emitCall spec) := (takes_emitCall spec).inside

theorem inside_compileFallback (hc : Frames h) (temp : Nat) (span : Span) (fallback : Option Datum) :
    Inside (compileFallback h temp span fallback) := by
  cases fallback with
  | some d => exact (hc.takes d).inside
  | none =>
      exact (takes_emitConstant _).inside.bind fun _ => (inside_emit _).bind fun _ =>
        (inside_emitCall _).bind fun _ => (inside_emit _).bind fun _ => inside_emit _

theorem takes_compileCase [Libraries] (hc : Frames h) (d : Datum) : Takes 0 0 (compileCase h d) := by
  refine (takes_ofExcept _).bind fun ⟨subject, clauses⟩ => ?_
  refine ((hc.takes subject).withTail false).bind fun _ => Takes.whereLive ?_
  refine takes_boxTop.bind fun _ => (takes_onCode _).bind fun temp => (takes_store temp .any).bind fun _ => ?_
  refine takes_keeping fun stack => ?_
  refine inside_newLabel.backTo fun fallback => ?_
  refine inside_newLabel.backTo fun last => ?_
  refine (takes_labelsFor _).inside.backTo fun branches => ?_
  refine (inside_emitSwitch _ temp fallback branches clauses.keys).backTo fun _ => ?_
  have hbranch (q : Datum × Label) : Inside (compileBranch h stack.records last q.1 q.2) :=
    (inside_startAt _ q.2).bind fun _ => (hc.takes q.1).inside.bind fun _ => inside_closeArm last
  refine (Inside.mapM hbranch _).backTo fun arms => (inside_startAt _ fallback).backTo fun _ => ?_
  refine (inside_compileFallback hc temp d.span clauses.fallback).backTo fun _ => ?_
  refine (inside_closeArm last).backTo fun arm => (inside_place last).backTo fun _ => ?_
  refine (inside_modifyCode _).backTo fun _ => ?_
  exact (inside_joinArms _).backTo fun joined => backTo_settle _ joined

end Branches

/-! ### Locals and loops -/

section Locals

variable {h : Handlers} {p q : Nat} {α : Type} {x : FormM α}

theorem compatible_void (r : Registry) (inferred : Ty) : Coercion.compatible r .void inferred = false := rfl

/-- No hint that applies stands for no value. -/
theorem ne_void_of_hintApplies {l : LocalInit} {hint : String} {hinted inferred : Ty} {s t : FormState}
    (hrun : hintApplies l hint hinted inferred s = .ok true t) : hinted ≠ .void := by
  rintro rfl
  obtain ⟨w, s₁, h₁, hrun⟩ := State.ok_of_bind hrun
  rw [compatible_void] at hrun
  simp only [Bool.false_eq_true, if_false] at hrun
  split at hrun
  · obtain ⟨⟨⟩, s₂, h₂, hrun⟩ := State.ok_of_bind hrun
    cases hrun
  · cases hrun

theorem takes_localType (l : LocalInit) : Takes 1 1 (localType l) := by
  refine takes_topType.bind fun ty => ?_
  split
  · exact takes_pure _
  · exact takes_aside (aside_resolveHint _)
  · exact takes_pure _
  · rename_i inferred hint _
    refine (takes_aside (aside_resolveHint hint)).bind fun hinted => ?_
    refine (takes_aside (aside_hintApplies l hint hinted inferred)).bindWith fun applies s t happlies => ?_
    cases applies with
    | true =>
        exact (takes_coerceTop (ne_void_of_hintApplies happlies)).bind fun _ => takes_pure _
    | false => exact takes_pure _

theorem takes_storeLocal (ty : Ty) : Takes 1 0 (storeLocal ty) :=
  (takes_onCode _).bind fun slot => (takes_store slot ty).bind fun _ => takes_pure _

theorem takes_describe (l : PlacedLocal) (last : Label) : Takes p p (describe l last) := takes_modifyCode _

theorem takes_compileLocal (hc : Frames h) (l : LocalInit) : Takes 0 0 (compileLocal h l) :=
  ((hc.takes l.init).withTail false).bind fun _ => (takes_localType l).bind fun ty =>
    (takes_storeLocal ty).bind fun _ => takes_here.bind fun _ => (takes_bindName _).bind fun _ => takes_pure _

theorem takes_describeAll {β : Type} (f : β → PlacedLocal) (locals : List β) (last : Label) :
    Takes p p (locals.forM fun l => describe (f l) last) :=
  (Takes.forM (q := 0) fun l _ => takes_describe (f l) last).shift p (by omega) (by omega)

theorem takes_compileLet (hc : Frames h) (d : Datum) : Takes 0 1 (compileLet h d) := by
  refine (takes_ofExcept _).bind fun ⟨locals, body⟩ => Takes.withScope ?_ _
  refine (Takes.mapM (takes_compileLocal hc)).bind fun placed => (takes_compileBody hc body).bind fun _ => ?_
  exact takes_here.bind fun last => takes_describeAll id placed last

theorem Takes.withLoop (hx : Takes p q x) (target : LoopTarget) : Takes p q (withLoop target x) := by
  intro s a t hne hrun
  obtain ⟨s₁, t₁, hs₁, hm, ht⟩ := withLoop_ok hrun
  have hmoves := hx (by rw [hs₁]; exact hne) hm
  rw [hs₁] at hmoves
  rw [ht]
  exact ⟨hmoves.within, hmoves.above⟩

theorem takes_compileLoopLocal (hc : Frames h) (l : LocalInit) : Takes 0 0 (compileLoopLocal h l) :=
  (takes_compileBoxed hc l.init).bind fun _ => (takes_storeLocal .any).bind fun _ =>
    (takes_bindName _).bind fun _ => takes_pure _

theorem takes_compileLoop (hc : Frames h) (d : Datum) : Takes 0 1 (compileLoop h d) := by
  refine (takes_ofExcept _).bind fun ⟨locals, body⟩ => Takes.withScope ?_ _
  refine (Takes.mapM (takes_compileLoopLocal hc)).bind fun placed => takes_here.bind fun head => ?_
  refine (takes_aside aside_tryDepth).bind fun depth => ?_
  refine (((takes_compileBody hc body).withTail true).withLoop _).bind fun _ => takes_here.bind fun last => ?_
  exact takes_describeAll (fun l : String × Nat => ⟨l.1, l.2, .any, head⟩) placed last

theorem aside_recurTarget (d : Datum) (n : Nat) : Aside (recurTarget d n) := by
  intro s target t hrun
  rw [← (recurTarget_ok hrun).1]

/-- A `recur` ends in a jump. -/
theorem dies_compileRecur (hc : Frames h) (d : Datum) : Dies (compileRecur h d) := by
  refine (inside_aside (aside_recurTarget d _)).dies fun target => ?_
  cases target with
  | evaluated arity depth => exact fun _ _ _ _ hrun => by cases hrun
  | compiled head slots depth =>
      have harg (arg : Datum) (ty : Ty) : Inside (compileRecurArg h arg ty) := by
        refine (hc.takes arg).inside.bind fun _ => ?_
        split
        · exact takes_boxTop.inside
        · exact (takes_coerceAway ty).inside
      have hargs := Inside.forM (fun q : Datum × Nat × Ty => harg q.1 q.2.2)
      refine (Inside.withTail (hargs _) false).dies fun _ => ?_
      refine (Inside.forM (fun q : Nat × Ty => inside_emit (.store q.1 q.2)) _).dies fun _ => ?_
      exact dies_emit rfl

theorem dies_compileThrow (hc : Frames h) (d : Datum) : Dies (compileThrow h d) :=
  (inside_aside (.ofExcept _)).dies fun value => (takes_compileBoxed hc value).inside.dies fun _ =>
    dies_emit rfl

end Locals

/-! ### Exceptions -/

section Exceptions

variable {h : Handlers}

theorem inside_isUnreachable : Inside FormM.isUnreachable := by
  intro s dead t hne hrun
  obtain ⟨rfl, -⟩ := isUnreachable_ok hrun hne
  exact .refl hne

theorem takes_compileFinally (hc : Frames h) (body : Option (List Datum)) :
    Takes 0 0 (compileFinally h body) := by
  cases body with
  | none => exact takes_pure ()
  | some body => exact ((takes_compileBody hc body).withTail false).bind fun _ => takes_popValue

theorem takes_storeResult (f : TryFrame) : Takes 1 0 (storeResult f) :=
  takes_boxTop.bind fun _ => takes_store f.result .any

theorem inside_leaveTry (hc : Frames h) (f : TryFrame) : Inside (leaveTry h f) := by
  refine inside_isUnreachable.bind fun dead => ?_
  split
  · exact inside_pure _
  · refine (takes_compileFinally hc f.finally?).inside.bind fun _ => ?_
    exact (inside_emit _).bind fun _ => inside_pure _

theorem inside_startHandler (f : TryFrame) (ty : Ty) (l : Label) : Inside (startHandler f ty l) :=
  (inside_modifyStack _).bind fun _ => inside_place l

/-- A `catch` clause stores the exception it starts with, and its value. -/
theorem inside_compileCatch (hc : Frames h) (f : TryFrame) (range : Label × Label) (c : CatchClause) :
    Inside (compileCatch h f range c) := by
  refine inside_newLabel.bind fun handler => (inside_modifyCode _).bind fun _ => ?_
  refine (inside_startHandler f _ handler).bind fun _ => ?_
  have hclause : Takes 1 0 (do
      let slot ← storeLocal (.cls c.cls)
      let first ← FormM.here
      FormM.bindName (.inSlot c.name (.cls c.cls) slot)
      compileBody h c.body
      storeResult f
      let last ← FormM.here
      describe { name := c.name, slot, ty := .cls c.cls, first } last
      return last) := by
    refine (takes_storeLocal _).bind fun slot => takes_here.bind fun first => ?_
    refine (takes_bindName _).bind fun _ => ?_
    refine (takes_compileBody hc c.body).bind fun _ => (takes_storeResult f).bind fun _ => ?_
    exact takes_here.bind fun last => (takes_describe _ last).bind fun _ => takes_pure _
  refine (hclause.withScope .methodLet).inside.bind fun last => ?_
  exact (inside_leaveTry hc f).bind fun through => inside_pure _

theorem inside_compilePending (hc : Frames h) (f : TryFrame) (ranges : List (Label × Label)) :
    Inside (compilePending h f ranges) := by
  unfold compilePending
  split
  · refine inside_newLabel.bind fun handler => ?_
    refine (Inside.forM (fun _ => inside_modifyCode _) ranges).bind fun _ => ?_
    refine (inside_startHandler f .any handler).bind fun _ => ?_
    refine (takes_storeLocal .any).inside.bind fun pending => ?_
    refine (takes_compileFinally hc f.finally?).inside.bind fun _ => (inside_emit _).bind fun _ => ?_
    exact (inside_emit _).bind fun _ => inside_modifyCode _
  · exact inside_pure _

theorem inside_compileRegions (hc : Frames h) (parts : TryParts) (f : TryFrame) :
    Inside (compileRegions h parts f) := by
  refine inside_here.bind fun first => (takes_compileBody hc parts.body).inside.bind fun _ => ?_
  refine (takes_storeResult f).inside.bind fun _ => inside_here.bind fun last => ?_
  refine (inside_leaveTry hc f).bind fun through => ?_
  refine (Inside.mapM (inside_compileCatch hc f (first, last)) parts.catches).bind fun caught => ?_
  exact (inside_compilePending hc f _).bind fun _ => inside_pure _

theorem Inside.withinTry {α : Type} {x : FormM α} (hx : Inside x) : Inside (withinTry x) := by
  intro s a t hne hrun
  obtain ⟨s₁, t₁, hs₁, hm, ht⟩ := withinTry_ok hrun
  have hwithin := hx (by rw [hs₁]; simp) hm
  rw [hs₁] at hwithin
  rw [ht hwithin.1]
  exact ((Within.update _ _).trans hwithin).trans (.update _ _)

/-- Behind a `try` the stack is what it was before it, with the value loaded from its local on top. -/
theorem takes_compileTry (hc : Frames h) (d : Datum) : Takes 0 0 (compileTry h d) := by
  refine (takes_aside aside_world).bind fun w => (takes_ofExcept _).bind fun parts => Takes.whereLive ?_
  refine takes_keeping fun stack => (inside_onCode _).backTo fun result => ?_
  refine inside_newLabel.backTo fun after => ?_
  refine (inside_compileRegions hc parts _).withinTry.backTo fun reachable => ?_
  refine (backTo_withRecords stack.records).bind (q := 0) fun _ => ?_
  cases reachable with
  | true =>
      refine (takes_place after).bind fun _ => (takes_load result .any).bind fun _ => ?_
      exact (takes_modifyCode (p := 0) _).shift 1 (by omega) (by omega)
  | false => exact takes_pushUnreachable.bind fun _ => takes_modifyCode _

end Exceptions

/-! ### Classes beside the method at work -/

/-- An action that, if it ends well, has left all methods alone. -/
def Apart {α : Type} (x : FormM α) : Prop :=
  ∀ ⦃s a t⦄, x s = .ok a t → (view t).methods = (view s).methods

namespace Apart

variable {α β : Type} {x : FormM α} {f : α → FormM β} {p : Nat}

theorem aside (hx : Aside x) : Apart x := fun _ _ _ hrun => by rw [hx hrun]

theorem bind (hx : Apart x) (hf : ∀ a, Apart (f a)) : Apart (x >>= f) := by
  intro s b t hrun
  obtain ⟨a, s₁, h₁, hrun⟩ := State.ok_of_bind hrun
  exact (hf a hrun).trans (hx h₁)

theorem forM {f : α → FormM Unit} (hf : ∀ a, Apart (f a)) (xs : List α) : Apart (xs.forM f) := by
  induction xs with
  | nil => exact .aside (.pure _)
  | cons x xs ih => exact (hf x).bind (f := fun _ => xs.forM f) fun _ => ih

theorem takes (hx : Apart x) : Takes p p x := by
  intro s a t hne hrun
  have hmethods := hx hrun
  have hstack : (view t).stack = (view s).stack := by
    rw [View.stack, View.work, hmethods]
    rfl
  exact .of_stack ⟨by rw [hmethods]; exact hne, by rw [hmethods]⟩ hstack

end Apart

section Classes

variable {h : Handlers} {p : Nat}

theorem takes_bindReceiver (cls : String) (plan : MethodPlan) : Takes 0 0 (bindReceiver cls plan) := by
  have hfields : Takes 0 0 (plan.fields.forM fun f =>
      FormM.bindName { name := f.name, ty := f.ty, slot := .field f.name, isMutable := f.isMutable }) :=
    (Takes.forM (q := 0) fun f _ => takes_bindName _).shift 0 (by omega) (by omega)
  refine hfields.bind fun _ => ?_
  split
  · exact takes_bindName _
  · exact takes_pure _

theorem takes_emitReturn (cls : String) (plan : MethodPlan) : Takes 1 0 (emitReturn cls plan) := by
  refine takes_topType.bind fun ty => ?_
  cases ty with
  | none => exact (takes_pure (p := 0) ()).shift 0 (by omega) (by omega)
  | some ty =>
      refine (takes_aside aside_registry).bind fun r => ?_
      split
      · exact ((inside_emitAll _).dies fun _ => dies_emit rfl).takes
      · exact (takes_aside aside_world).bind fun _ => takes_fail _

theorem takes_compileMethodBody (hc : Frames h) (cls : String) (plan : MethodPlan) :
    Takes 0 0 (compileMethodBody h cls plan) := by
  refine Takes.withScope ((takes_bindReceiver cls plan).bind fun _ => Takes.withScope ?_ _) _
  have hparams : Takes 0 0 (plan.slots.forM fun q => FormM.bindName (.inSlot q.1 q.2.2 q.2.1)) :=
    (Takes.forM (q := 0) fun q _ => takes_bindName _).shift 0 (by omega) (by omega)
  refine takes_here.bind fun first => hparams.bind fun _ => ?_
  have hbody : Takes 0 1 (FormM.withTail true (compileBody h plan.body)) :=
    (takes_compileBody hc plan.body).withTail true
  have hlooped : Takes 0 1 (withMethodLoop plan first (FormM.withTail true (compileBody h plan.body))) := by
    unfold withMethodLoop
    split
    · exact hbody.withLoop _
    · exact hbody
  refine hlooped.bind fun _ => (takes_emitReturn cls plan).bind fun _ => takes_here.bind fun last => ?_
  exact takes_describeAll (fun q : String × Nat × Ty => ⟨q.1, q.2.1, q.2.2, first⟩) plan.slots last

/-- Behind a method that was compiled the methods around it are at work again. -/
theorem apart_withMethod {α : Type} {x : FormM α} (hx : Inside x) (context : MethodContext) :
    Apart (FormM.withMethod context x) := by
  intro s a t hrun
  obtain ⟨s₁, t₁, hs₁, hm, -, ht⟩ := withMethod_ok (a := a.1) (c := a.2) hrun
  have hmethods₁ : (view s₁).methods = context :: (view s).methods := by
    rw [hs₁]
    rfl
  have hwithin := hx (by rw [hmethods₁]; simp) hm
  have htail : (view t₁).methods.tail = (view s).methods := by
    rw [hwithin.2, hmethods₁, List.tail_cons]
  have hlength : (view t₁).methods.length = (view s).methods.length + 1 := by
    rw [View.methods_eq hwithin.1, htail, List.length_cons]
  rw [ht]
  show (view t₁).methods.drop ((view t₁).methods.length - (view s).methods.length) = (view s).methods
  rw [hlength, Nat.add_sub_cancel_left, List.drop_one, htail]

theorem apart_buildMethod (hc : Frames h) (owner : Nat) (plan : MethodPlan) :
    Apart (buildMethod h owner plan) := by
  refine (Apart.aside .get).bind fun s => ?_
  split
  · exact .aside (.fail _)
  · refine (apart_withMethod (takes_compileMethodBody hc _ plan).inside _).bind fun ⟨_, context⟩ => ?_
    refine (Apart.aside (.ofExcept _)).bind fun code => ?_
    intro s u t hrun
    cases hrun
    rfl

theorem apart_buildClass (hc : Frames h) (file : ClassFile) (mode : ClassMode)
    (methods : List (Registry → MethodPlan)) (plan : ConstructorPlan) :
    Apart (buildClass h file mode methods plan) := by
  have hmethods (owner : Nat) :
      Apart (methods.forM fun m => do buildMethod h owner (m (← FormM.registry))) := by
    refine Apart.forM (fun m => ?_) methods
    exact (Apart.aside aside_registry).bind fun r => apart_buildMethod hc owner (m r)
  have hbuilt : Apart (FormM.withClass { file, mode } fun owner =>
      methods.forM fun m => do buildMethod h owner (m (← FormM.registry))) := by
    intro s a t hrun
    obtain ⟨s₁, t₁, hs₁, hm, -, ht⟩ := withClass_ok (a := a.1) (c := a.2) hrun
    have hsame := hmethods _ hm
    rw [hs₁] at hsame
    rw [ht]
    exact hsame
  exact hbuilt.bind fun ⟨_, context⟩ => (Apart.aside (.ofExcept _)).bind fun _ => .aside (.pure _)

theorem aside_newFile (name superclass : String) : Aside (newFile name superclass) :=
  .bind aside_world fun _ => .pure _

theorem apart_defineFn [Libraries] (hc : Frames h) (d : Datum) : Apart (defineFn h d) := by
  have hbuilt : Apart (buildFn h d) := by
    refine (Apart.aside (.ofExcept _)).bind fun ⟨name, arities⟩ => ?_
    refine (Apart.aside (aside_generatedName _)).bind fun className => ?_
    exact (Apart.aside (aside_newFile _ _)).bind fun file => apart_buildClass hc _ _ _ _
  exact hbuilt.bind fun ⟨file, captures⟩ =>
    (Apart.aside (aside_loadClass file)).bind fun _ => .aside (.pure _)

theorem takes_loadCaptures (captures : List Capture) (span : Span) :
    Takes 0 captures.length (loadCaptures captures span) := by
  have heach : Takes 0 (captures.length * 1) (captures.forM fun r => compileName r.name span) :=
    Takes.forM fun r _ => takes_compileName r.name span
  rw [Nat.mul_one] at heach
  exact heach.withTail false

/-- A function takes what it captures. -/
theorem takes_compileFn [Libraries] (hc : Frames h) (d : Datum) : Takes 0 1 (compileFn h d) := by
  refine (apart_defineFn hc d).takes.bind fun ⟨cls, captures⟩ => ?_
  refine (takes_loadCaptures captures d.span).bind fun _ => ?_
  exact (takes_emit _ _ fun _ => rfl).shift 0 (by simp) (by simp)

theorem apart_defineType [Libraries] (hc : Frames h) (d : Datum) : Apart (defineType h d) := by
  unfold defineType
  split
  · rename_i name fieldVector specs _
    refine (Apart.aside (aside_typeName name)).bind fun full => ?_
    split
    · exact .aside (.fail _)
    · rename_i items _
      refine (Apart.aside (.mapM aside_typeField items)).bind fun fields => ?_
      refine (Apart.aside aside_world).bind fun w => ?_
      refine (Apart.aside (.ofExcept _)).bind fun ⟨interfaces, methods⟩ => ?_
      refine (Apart.aside aside_registry).bind fun r => (Apart.aside (aside_announce _ _ _)).bind fun _ => ?_
      have hloaded : Apart (do
          loadClass (← buildType h full (interfaces.map ClassInfo.name) fields methods)) := by
        have hbuilt : Apart (buildType h full (interfaces.map ClassInfo.name) fields methods) :=
          Apart.bind (.bind (.aside (aside_newFile _ _)) fun _ => .aside (.pure _)) fun file =>
            (apart_buildClass hc _ _ _ _).bind fun _ => .aside (.pure _)
        exact hbuilt.bind fun file => .aside (aside_loadClass file)
      refine Apart.bind (fun s a t hrun => hloaded (orReinstate_ok hrun)) fun cls => ?_
      exact (Apart.aside (aside_importClass _)).bind fun _ => .aside (.pure _)
  · exact .aside (.fail _)

theorem takes_compileType [Libraries] (hc : Frames h) (d : Datum) : Takes 0 1 (compileType h d) :=
  (apart_defineType hc d).takes.bind fun cls => takes_importClass cls.name

theorem takes_compileProtocol [Libraries] (d : Datum) : Takes 0 1 (compileProtocol d) :=
  (takes_aside (aside_defineProtocol d)).bind fun cls => takes_importClass cls.name

theorem apart_defineProxy [Libraries] (hc : Frames h) (d : Datum) : Apart (defineProxy h d) := by
  have hbuilt : Apart (buildProxy h d) := by
    refine (Apart.aside (.ofExcept _)).bind fun ⟨classes, args, specs⟩ => ?_
    refine (Apart.aside aside_world).bind fun w => ?_
    refine (Apart.aside (.ofExcept _)).bind fun ⟨superclass, interfaces⟩ => ?_
    refine (Apart.aside (.ofExcept _)).bind fun init => (Apart.aside (.ofExcept _)).bind fun methods => ?_
    refine (Apart.aside (aside_generatedName _)).bind fun className => ?_
    refine (Apart.aside (aside_newFile _ _)).bind fun file => ?_
    exact (apart_buildClass hc _ _ _ _).bind fun ⟨file, captures⟩ => .aside (.pure _)
  exact hbuilt.bind fun ⟨file, init, captures⟩ => (Apart.aside (aside_loadClass file)).bind fun _ =>
    .aside (.pure _)

theorem takes_compileFixedArgs (hc : Frames h) (args : List (Datum × Ty)) :
    Takes 0 0 (compileFixedArgs h args) := by
  have heach (arg : Datum) (param : Ty) : Takes 0 0 (do
      h.compile arg
      (FormM.coerceTop param).atSpan arg.span) :=
    (hc.takes arg).bind fun _ => (takes_coerceAway param).atSpan arg.span
  exact (Takes.forM (q := 0) fun q _ => heach q.1 q.2).shift 0 (by omega) (by omega)

/-- The rest of the arguments becomes one vector. -/
theorem takes_packSuperTail {m : Method} {fixed tail : Nat} (hvariadic : m.isVariadic = true)
    (hfixed : m.params.length = fixed + 1) : Takes tail 0 (packSuperTail m fixed tail) := by
  refine Takes.whereLive ?_
  intro s u t hne hrun
  obtain ⟨stack, s₁, h₁, hrun⟩ := State.ok_of_bind hrun
  obtain ⟨rfl, rfl, -⟩ := stack_ok h₁
  obtain ⟨types, s₁, h₁, hrun⟩ := State.ok_of_bind hrun
  obtain ⟨htypes, rfl⟩ := ofExcept_ok h₁
  obtain ⟨r, s₁, h₁, hrun⟩ := State.ok_of_bind hrun
  cases h₁
  have hlength : (m.params.take fixed ++ types).length = fixed + tail := by
    rw [List.length_append, List.length_take, (topTypes_ok htypes).1]
    omega
  cases hplan : Overload.tailPlan s.world.registry m (m.params.take fixed ++ types) with
  | direct =>
      rw [hplan] at hrun
      have hone := length_of_direct hplan hvariadic
      exact (takes_coerceAway _ hne hrun).shift (m := 0) (by omega) (by omega)
  | wrap _ count =>
      rw [hplan] at hrun
      have hcount := count_of_wrap hplan
      have hvector : Takes count 1 (FormM.emit (.makeCollection .vector count)) :=
        (takes_emit _ _ fun _ => rfl).shift 0 (by simp) (by simp)
      exact (hvector hne hrun).shift (m := 0) (by omega) (by omega)

theorem takes_compileSuperArgs (hc : Frames h) (m : Method) (args : List Datum) :
    Takes 0 0 (compileSuperArgs h m args) := by
  refine Takes.withTail ?_ false
  split
  · rename_i hvariadic
    split
    · exact takes_fail _
    · rename_i fixed hfixed
      refine (takes_compileFixedArgs hc _).bind fun _ => (takes_compileBoxedEach hc _).bind fun _ => ?_
      exact takes_packSuperTail hvariadic hfixed
  · exact takes_compileFixedArgs hc _

theorem closes_compileProxy [Libraries] (hc : Frames h) (d : Datum) : Always Closes (compileProxy h d) := by
  refine (apart_defineProxy hc d).takes.closes fun p => (takes_compileSuperArgs hc _ _).closes fun _ => ?_
  exact (takes_loadCaptures p.captures d.span).closes fun _ => closes_emit fun _ => rfl

end Classes

/-! ### Templates -/

section Templates

open Template

variable {h : Handlers}

mutual

theorem framed_emitPlan (hc : Frames h) :
    ∀ (p : Plan) (d : Datum), Counted p → Always Framed (emitPlan h d p)
  | .constant c, d => fun _ => by
      rw [emitPlan]
      exact framed_of_takes (takes_emitConstant c)
  | .compute inner, d => fun _ => by
      rw [emitPlan]
      exact framed_of_takes (hc.takes inner)
  | .build kind items count, d => fun hcounted => by
      rw [emitPlan]
      have hplans := (takes_emitPlans hc items hcounted.2).withTail false
      refine framed_of_takes (q := 1) (hplans.bind fun _ => ?_)
      dsimp only
      split
      · exact (takes_emit _ _ fun _ => rfl).shift 0 (by simp) (by simp)
      · exact (takes_emit _ _ fun _ => rfl).shift 0 (by simp [hcounted.1]) (by simp)

theorem takes_emitPlans (hc : Frames h) :
    ∀ items, AllCounted items → Takes 0 items.length (emitPlans h items)
  | [] => fun _ => by
      rw [emitPlans]
      exact takes_pure ()
  | (d, p, splice) :: rest => fun hcounted => by
      rw [emitPlans]
      have hpart : Takes 0 1 (emitPlan h d p) :=
        fun _ _ _ hne hrun => (framed_emitPlan hc p d hcounted.1 hne hrun).moves
      refine hpart.bind fun _ => takes_boxTop.bind fun _ => ?_
      exact (takes_emitPlans hc rest hcounted.2).shift 1 (by omega) (by simp)

end

theorem takes_compileTemplate (hc : Frames h) (d : Datum) : Takes 0 1 (Template.compile h d) := by
  refine (takes_ofExcept _).bind fun template => ?_
  intro s u t hne hrun
  obtain ⟨s₁, t₁, hs₁, hrun, ht₁⟩ := withNames_ok hrun
  rw [← hs₁] at hne ⊢
  rw [ht₁]
  refine (takes_aside (aside_plan template)).bindWith (fun planned s t hplan => ?_) hne hrun
  obtain ⟨p, splice⟩ := planned
  have hframed := framed_emitPlan hc p template (plan_counted template hplan)
  cases splice with
  | true =>
      refine (takes_fail (q := 0) _).bind fun _ => ?_
      exact fun _ _ _ hne hrun => (hframed hne hrun).moves
  | false => exact fun _ _ _ hne hrun => (hframed hne hrun).moves

end Templates

/-! ### All forms -/

section All

variable {h : Handlers}

theorem Takes.alwaysCloses {q : Nat} {x : FormM Unit} (hx : Takes 0 q x) : Always Closes x :=
  fun _ _ _ hne hrun => (hx hne hrun).closes

theorem closes_compileSpecial [Libraries] (hc : Frames h) (f : SpecialForm) (d : Datum) :
    Always Closes (compileSpecial h f d) := by
  cases f with
  | quote => exact ((takes_ofExcept _).bind fun c => takes_emitConstant c).alwaysCloses
  | syntaxQuote => exact (takes_compileTemplate hc d).alwaysCloses
  | unquote => exact fun _ _ _ _ hrun => by cases hrun
  | unquoteSplicing => exact fun _ _ _ _ hrun => by cases hrun
  | ifForm => exact (takes_compileIf hc d).alwaysCloses
  | doForm => exact (takes_compileBody hc _).alwaysCloses
  | letForm => exact (takes_compileLet hc d).alwaysCloses
  | loopForm => exact (takes_compileLoop hc d).alwaysCloses
  | recurForm => exact (Dies.takes (q := 0) (dies_compileRecur hc d)).alwaysCloses
  | caseForm => exact (takes_compileCase hc d).alwaysCloses
  | throwForm => exact (Dies.takes (q := 0) (dies_compileThrow hc d)).alwaysCloses
  | tryForm => exact (takes_compileTry hc d).alwaysCloses
  | fnForm => exact (takes_compileFn hc d).alwaysCloses
  | typeForm => exact (takes_compileType hc d).alwaysCloses
  | protocolForm => exact (takes_compileProtocol d).alwaysCloses
  | proxyForm => exact closes_compileProxy hc d
  | newForm => exact (takes_compileNew hc d).alwaysCloses
  | dotForm => exact (takes_compileDot hc d).alwaysCloses
  | instanceForm => exact (takes_compileInstanceTest hc d).alwaysCloses
  | defForm => exact (takes_compileDef hc d).alwaysCloses
  | defMacro => exact ((takes_ofExcept _).bind fun e => hc.takes e).alwaysCloses
  | setForm => exact closes_compileSet hc d
  | varForm => exact (takes_compileVar d).alwaysCloses
  | nsForm => exact (takes_compileSpaceForm d).alwaysCloses
  | inNsForm => exact (takes_compileInSpace d).alwaysCloses
  | importForm => exact (takes_compileImport d).alwaysCloses

theorem framed_emitAnalysed [Libraries] (hc : Frames h) (d : Datum) (a : Analysis) :
    Always Framed (emitAnalysed h d a) := by
  refine framed_emitForm ?_
  cases a with
  | constant c => exact (takes_emitConstant c).alwaysCloses
  | name => exact (takes_compileSymbol d).alwaysCloses
  | collection => exact (takes_compileCollection hc d).alwaysCloses
  | expanded e => exact (hc.takes e).alwaysCloses
  | special f => exact closes_compileSpecial hc f d
  | globalCall v => exact (takes_compileGlobalCall hc d v).alwaysCloses
  | call => exact (takes_compileCall hc d).alwaysCloses

theorem framed_compileForm [Libraries] (hc : Frames h) (d : Datum) : Always Framed (compileForm h d) := by
  intro s u t hne hrun
  obtain ⟨a, s₁, h₁, hrun⟩ := State.ok_of_bind hrun
  have hview := aside_analyse h.call d h₁
  rw [← hview] at hne ⊢
  exact framed_emitAnalysed hc d a hne hrun

/-- Forms of every depth are one record more. -/
theorem frames_handlers [Libraries] : ∀ fuel, Frames (handlers fuel)
  | 0 => fun _ _ _ _ _ hrun => by cases hrun
  | fuel + 1 => fun d => framed_compileForm (frames_handlers fuel) d

/-- Whatever is compiled into a method, no other method is touched; and where control gets to its end, the
records that were on the stack are still there, types and flags, below the one record of its value. -/
theorem compile_framed [Libraries] (fuel : Nat) (d : Datum) {s t : FormState} {m : MethodContext}
    {outer : List MethodContext} (hopen : s.methods = m :: outer)
    (hrun : (handlers fuel).compile d s = .ok () t) :
    ∃ m', t.methods = m' :: outer ∧ (m'.stack.isUnreachable = true ∨
      ∃ ty isConstant, m'.stack.records = .typed ty isConstant :: m.stack.records) := by
  have hmethods : (view s).methods = m :: outer := hopen
  have hframed := frames_handlers fuel d (by rw [hmethods]; simp) hrun
  have hwork : (view s).stack = m.stack := by
    rw [View.stack, View.work, hmethods]
    rfl
  refine ⟨(view t).work, ?_, ?_⟩
  · have htail := hframed.within.2
    rw [hmethods, List.tail_cons] at htail
    rw [← htail]
    exact View.methods_eq hframed.within.1
  · have hrecords := hframed.records
    rwa [hwork] at hrecords

/-- A method with a constant and a number on its stack, and a local in scope. -/
def halfway : FormState where
  world := {}
  scopes := ⟨[{ kind := .methodLet, level := 1, bindings := [.inSlot "x" .long 1] }]⟩
  classes := #[{ file := { name := "T", superclass := Names.object }, mode := .closure }]
  methods := [{ owner := 0, stack := { records := [.typed .string true, .typed .long false], max := 3 } }]

/-- A vector of the local and a call in which control does not get anywhere else. -/
def pairOfX : Datum := .ofVector [.symbol "x" default, .ofVector [.symbol "x" default] default] default

theorem pair_framed :
    ∃ t m, (handlers 3).compile pairOfX halfway = .ok () t ∧ t.methods = [m] ∧
      (m.stack.isUnreachable = true ∨ ∃ ty isConstant,
        m.stack.records = [.typed ty isConstant, .typed .string true, .typed .long false]) := by
  obtain ⟨⟨⟩, t, hrun, -⟩ := State.exists_answer (r := (handlers 3).compile pairOfX halfway) (p := fun _ => true)
    (by decide +kernel)
  obtain ⟨m, hmethods, hrecords⟩ := compile_framed 3 pairOfX rfl hrun
  exact ⟨t, m, hrun, hmethods, hrecords⟩

end All

/-! ### More records than one

The check is not idle.  A record without width is not dropped, so that a form that drops a value of no type
leaves two records (`dropped_void_internal`).  Fields may be declared without a type of value; and a local
whose initial value is never computed takes its hint unseen.  A function that captures such a local has a
method of its own, which control gets to. -/

section Unbalanced

/-- The kind and the text of a failure. -/
def failureText? {α : Type} : EStateM.Result Fault FormState α → Option (ErrorKind × String)
  | .error (.error { cause := .failure kind message, .. }) _ => some (kind, message)
  | _ => none

theorem stack_run {s : FormState} (hne : (view s).methods ≠ []) :
    FormM.stack s = .ok (view s).stack s := by
  cases hm : s.methods with
  | nil => exact absurd hm hne
  | cons m rest =>
      have hmethod : FormM.method s = .ok m s := by
        rw [FormM.method, State.bind_of_ok (State.get_eq s), hm]
        rfl
      have hwork : (view s).stack = m.stack := by simp [view, View.stack, View.work, hm]
      rw [FormM.stack, State.bind_of_ok hmethod, hwork]
      rfl

theorem popValue_void {s : FormState} (hne : (view s).methods ≠ [])
    (htop : (view s).stack.topType? = some .void) : FormM.popValue s = .ok () s := by
  have hty : FormM.topType? s = .ok (some .void) s := by
    rw [FormM.topType?, State.bind_of_ok (stack_run hne), htop]
    rfl
  rw [FormM.popValue, State.bind_of_ok hty]
  rfl

/-- A form that drops a value of no type fails with an internal error whenever control gets to its end. -/
theorem dropped_void_internal [Libraries] (fuel : Nat) {d x y : Datum} {s s₀ s₁ s₂ : FormState}
    (hopen : s.methods ≠ []) (hparts : argsOf d = [x, y])
    (hdo : analyse (handlers fuel).call d s = .ok (.special .doForm) s₀)
    (hx : FormM.withTail false ((handlers fuel).compile x) s₀ = .ok () s₁)
    (hvoid : (view s₁).stack.topType? = some .void) (hy : (handlers fuel).compile y s₁ = .ok () s₂)
    (hlive : (view s₂).stack.isUnreachable = false) :
    (handlers (fuel + 1)).compile d s = .error (.error ((leftValues d 2).atSpan d.span)) s₂ := by
  have hne₀ : (view s₀).methods ≠ [] := by
    rw [aside_analyse _ d hdo]
    exact hopen
  have hfirst : Always Framed (FormM.withTail false ((handlers fuel).compile x)) := by
    intro s u t hne hrun
    obtain ⟨s₁, t₁, hs₁, hm, ht⟩ := withTail_ok hrun
    have hframed := frames_handlers fuel x (by rw [hs₁]; exact hne) hm
    rw [hs₁] at hframed
    rw [ht]
    exact ⟨hframed.within, hframed.records⟩
  have hframed₁ := hfirst hne₀ hx
  have hframed₂ := frames_handlers fuel y hframed₁.within.1 hy
  have hlive₁ : (view s₁).stack.isUnreachable = false := by
    cases hdead : (view s₁).stack.isUnreachable with
    | false => rfl
    | true => rw [hframed₂.moves.dead hdead] at hlive; cases hlive
  have hsize : (view s₂).stack.size = (view s₀).stack.size + 2 := by
    obtain ⟨ty₁, c₁, hrecords₁⟩ := hframed₁.records.resolve_left (by rw [hlive₁]; simp)
    obtain ⟨ty₂, c₂, hrecords₂⟩ := hframed₂.records.resolve_left (by rw [hlive]; simp)
    simp [TypeStack.size, hrecords₂, hrecords₁]
  have hbody : compileBody (handlers fuel) [x, y] s₀ = .ok () s₂ := by
    rw [compileBody.eq_3 _ _ _ (by simp), State.bind_of_ok hx,
      State.bind_of_ok (popValue_void hframed₁.within.1 hvoid)]
    exact hy
  have hcode : FormM.atSpan d.span (compileSpecial (handlers fuel) .doForm d) s₀ = .ok () s₂ := by
    rw [compileSpecial, hparts, FormM.atSpan, hbody]
  have hform : emitAnalysed (handlers fuel) d (.special .doForm) s₀
      = .error (.error ((leftValues d 2).atSpan d.span)) s₂ := by
    rw [emitAnalysed, emitForm, State.bind_of_ok (stack_run hne₀), State.bind_of_ok hcode,
      State.bind_of_ok (stack_run hframed₂.within.1), hsize, hlive, if_neg (by simp)]
    have hleft : (((view s₀).stack.size + 2 : Nat) : Int) - ((view s₀).stack.size : Nat) = 2 := by omega
    rw [hleft]
    rfl
  exact (State.bind_of_ok hdo).trans hform

/-- A world of a few special forms, without classes. -/
def formsAlone (forms : List SpecialForm) : World :=
  forms.foldl (fun w f => w.defineCore f.title (.special f)) { current := Names.coreSpace }

/-- The form `(do x 1)`. -/
def dropX : Datum :=
  .ofList [.symbol "do" default, .symbol "x" default, .ofAtom (.int 1) default] default

/-- The start of a method that sees a field of no type as `x`. -/
def besideField : FormState where
  world := formsAlone [.doForm]
  scopes := ⟨[{
    kind := .field
    level := 1
    bindings := [{ name := "x", ty := .void, slot := .field "x" }] }]⟩
  classes := #[{ file := { name := "T", superclass := Names.object }, mode := .type }]
  methods := [{ owner := 0 }]

theorem field_dropped_internal :
    ∃ t, (handlers 3).compile dropX besideField = .error (.error ((leftValues dropX 2).atSpan default)) t := by
  have hfirst : ∃ s₁, FormM.withTail false ((handlers 2).compile (.symbol "x" default)) besideField = .ok () s₁ ∧
      (view s₁).stack.topType? = some .void ∧ ∃ s₂,
        (handlers 2).compile (.ofAtom (.int 1) default) s₁ = .ok () s₂ ∧
          (view s₂).stack.isUnreachable = false := ⟨_, rfl, rfl, _, rfl, rfl⟩
  obtain ⟨s₁, hx, hvoid, s₂, hy, hlive⟩ := hfirst
  exact ⟨s₂, dropped_void_internal 2 (by simp [besideField]) rfl rfl hx hvoid hy hlive⟩

/-- A type with a field of no type, and a method that drops its value. -/
theorem void_field_internal :
    failureText? (buildType (handlers 4) "T" [] [⟨"x", .void, false⟩]
      [{ name := "m", this := "this", params := [], body := [dropX] }] { world := formsAlone [.doForm] })
        = some (.internal, "s-expression form left 2 values instead of one") := by
  decide +kernel

/-- The initial value of a local, which is thrown instead. -/
def thrownText : Datum := .ofList [.symbol "throw" default, .ofAtom (.str "a") default] default

def hintedLocal : Datum := .atom (.symbol "x") { hint := some "void" }

/-- A function without parameters that drops the value of the local. -/
def droppingFn : Datum := .ofList [.symbol "fn" default, .ofVector [] default, dropX] default

/-- The form `(let [^void x (throw "a")] (fn [] (do x 1)))`. -/
def unseenHint : Datum :=
  .ofList [.symbol "let" default, .ofVector [hintedLocal, thrownText] default, droppingFn] default

/-- The start of a method where four special forms are known, and no class. -/
def outset : FormState where
  world := formsAlone [.letForm, .throwForm, .fnForm, .doForm]
  classes := #[{ file := { name := "T", superclass := Names.object }, mode := .closure }]
  methods := [{ owner := 0 }]

theorem bindingParts_unseenHint :
    bindingParts "let" unseenHint = .ok ([⟨hintedLocal, "x", thrownText⟩], [droppingFn]) := by
  cbv

theorem compileLet_unseenHint (h : Handlers) :
    compileLet h unseenHint = FormM.withScope .methodLet (do
      let placed ← [(⟨hintedLocal, "x", thrownText⟩ : LocalInit)].mapM (compileLocal h)
      compileBody h [droppingFn]
      let last ← FormM.here
      placed.forM fun l => describe l last) := by
  unfold compileLet
  rw [bindingParts_unseenHint]
  rfl

/-- Although no field is declared at all, a form leaves two records where it should leave one. -/
theorem unseen_hint_unbalanced :
    outset.world.registry.classes.keys = [] ∧
      (∃ m, outset.methods = [m] ∧ m.stack.isUnreachable = false) ∧
      failureText? ((handlers 6).compile unseenHint outset)
        = some (.internal, "s-expression form left 2 values instead of one") := by
  refine ⟨by decide +kernel, ⟨_, rfl, rfl⟩, ?_⟩
  have hcompile : (handlers 6).compile unseenHint outset
      = emitForm unseenHint (compileLet (handlers 5) unseenHint) outset :=
    State.bind_of_ok (x := analyse (handlers 5).call unseenHint)
      (f := emitAnalysed (handlers 5) unseenHint) (a := .special .letForm) rfl
  rw [hcompile, compileLet_unseenHint]
  decide +kernel

end Unbalanced

end LispMachine.Emission
