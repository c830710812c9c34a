import LispMachine.Proofs.Context.Keeping

/-! # Compiling puts its surroundings back

Each form that is compiled is taken apart into its steps in the order in which they are written; steps that
open a scope, a loop, a method, a class or a template close it again themselves.  The one assumption is that
the parts of a form put back their surroundings.  No step of compilation touches what a `recur` leaves. -/

namespace LispMachine.Keeping

open Form

variable {α : Type} {b n : Bool} {g : Signal}

/-! ### Names -/

theorem keeps_resolve (name : String) : Keeps b n g (resolve name) := by
  refine (keeps_lookup name).bind fun r => ?_
  split
  · exact keeps_pure _
  · exact keeps_fail _

theorem keeps_resolveHint (hint : String) : Keeps b n g (resolveHint hint) := by
  unfold resolveHint
  split
  · exact keeps_pure _
  · refine keeps_world.bind fun w => ?_
    split
    · exact keeps_pure _
    · exact keeps_fail _

theorem keeps_loadThis : Keeps b n g loadThis :=
  (keeps_currentClass.bind fun _ => keeps_pure _).bind fun _ => (keeps_emit _).bind fun _ => keeps_pure _

theorem keeps_loadField (field : String) (ty : Ty) : Keeps b n g (loadField field ty) :=
  keeps_loadThis.bind fun _ => keeps_emit _

theorem keeps_loadBinding (binding : Binding) : Keeps b n g (loadBinding binding) := by
  unfold loadBinding
  split
  · exact keeps_emit _
  · exact keeps_emit _
  · exact keeps_loadField _ _
  · exact keeps_fail _

theorem keeps_compileName (name : String) (span : Span) : Keeps b n g (compileName name span) := by
  refine (keeps_resolve name).bind fun r => ?_
  split
  · exact (keeps_capture _ _).bind fun _ => keeps_loadField _ _
  · exact keeps_loadBinding _
  · exact keeps_world.bind fun _ => (keeps_ofExcept _).bind fun _ => keeps_emitCall _
  · exact keeps_emitConstant _
  · exact keeps_emitConstant _
  · exact keeps_emit _

theorem keeps_compileSymbol (d : Datum) : Keeps b n g (compileSymbol d) := by
  unfold compileSymbol
  split
  · exact keeps_compileName _ _
  · exact keeps_fail _

/-! ### Expansion -/

theorem keeps_junction (op : String) (empty : Datum) (args : List Datum) (d : Datum) :
    Keeps b n g (Expansion.junction op empty args d) := by
  unfold Expansion.junction
  split
  · exact keeps_pure _
  · exact keeps_pure _
  · exact (keeps_lift _).bind fun _ => keeps_pure _

theorem keeps_derive? (d : Datum) : Keeps b n g (Expansion.derive? d) := by
  unfold Expansion.derive?
  split
  · exact keeps_pure _
  · split
    · exact keeps_pure _
    · split
      · exact keeps_pure _
      · refine keeps_ite ((keeps_ofExcept _).bind fun _ => keeps_pure _) ?_
        refine keeps_ite ((keeps_ofExcept _).bind fun _ => keeps_pure _) ?_
        refine keeps_ite ((keeps_ofExcept _).bind fun _ => keeps_pure _) ?_
        refine keeps_ite ((keeps_junction _ _ _ _).bind fun _ => keeps_pure _) ?_
        refine keeps_ite ((keeps_junction _ _ _ _).bind fun _ => keeps_pure _) ?_
        refine keeps_ite ((keeps_ofExcept _).bind fun _ => keeps_pure _) ?_
        refine keeps_ite ((keeps_ofExcept _).bind fun _ => keeps_pure _) ?_
        refine keeps_ite (keeps_pure _) ?_
        exact keeps_world.bind fun _ => keeps_ofExcept _

theorem keeps_applyExpander [Libraries] (call : Caller) (v : VarRef) (d : Datum) :
    Keeps b n g (Expansion.applyExpander call v d) :=
  (keeps_lift _).bind fun _ => ((keeps_lift _).atSpan _).bind fun _ => keeps_ofExcept _

theorem keeps_expandOnce [Libraries] (call : Caller) (d : Datum) : Keeps b n g (Expansion.expandOnce call d) := by
  unfold Expansion.expandOnce
  split
  · exact keeps_pure _
  · refine (keeps_lookup _).bind fun r => ?_
    split
    · refine keeps_world.bind fun w => keeps_ite ?_ (keeps_pure _)
      exact (keeps_applyExpander _ _ _).bind fun _ => keeps_pure _
    · exact keeps_pure _
    · exact keeps_derive? d

theorem keeps_expand [Libraries] (call : Caller) (d : Datum) : Keeps b n g (Expansion.expand call d) := by
  unfold Expansion.expand
  generalize Expansion.maxSteps + 1 = left
  generalize 0 = steps
  suffices h : ∀ origin d, Keeps b n g (Expansion.expandWithin call origin left steps d) from h d d
  intro origin
  induction left generalizing steps with
  | zero => exact fun _ => keeps_fail _
  | succ left ih =>
    intro d
    refine (keeps_expandOnce call d).bind fun next => ?_
    split
    · exact keeps_pure _
    · exact keeps_ite (keeps_pure _) (ih _ _)

/-! ### Constants, bodies and collections -/

section Parts

theorem keeps_emitForm (d : Datum) {code : FormM Unit} (hcode : Keeps b n g.before code) :
    Keeps b n g (emitForm d code) := by
  refine keeps_stack.bind fun _ => (hcode.atSpan _).bind fun _ => keeps_stack.bind fun stack => ?_
  exact keeps_ite (keeps_pure _) (keeps_fail _)

variable {h : Handlers} (hc : ∀ d, Keeps false false .fixed (h.compile d))

include hc

theorem keeps_compile (d : Datum) : Keeps b n g (h.compile d) := (hc d).upTo.of_fixed

theorem keeps_compileAside (d : Datum) : Keeps b n g (FormM.withTail false (h.compile d)) :=
  keeps_withTail false (keeps_compile hc d)

theorem keeps_compileBody (body : List Datum) : Keeps b n g (compileBody h body) := by
  induction body with
  | nil => exact keeps_emitConstant _
  | cons d rest ih =>
    cases rest with
    | nil => exact keeps_compile hc d
    | cons d' rest => exact (keeps_compileAside hc d).bind fun _ => keeps_popValue.bind fun _ => ih

theorem keeps_compileArgs (args : List Datum) : Keeps b n g (compileArgs h args) :=
  keeps_withTail false (keeps_forM fun d => keeps_compile hc d)

theorem keeps_compileBoxed (d : Datum) : Keeps b n g (compileBoxed h d) :=
  (keeps_compileAside hc d).bind fun _ => keeps_boxTop

theorem keeps_compileBoxedEach (items : List Datum) : Keeps b n g (compileBoxedEach h items) := by
  induction items with
  | nil => exact keeps_pure _
  | cons d rest ih => exact (keeps_compile hc d).bind fun _ => keeps_boxTop.bind fun _ => ih

theorem keeps_compileCollection (d : Datum) : Keeps b n g (compileCollection h d) := by
  unfold compileCollection
  split
  · exact keeps_fail _
  · exact (keeps_withTail false (keeps_compileBoxedEach hc _)).bind fun _ => keeps_emit _

end Parts

/-! ### Branches -/

section Branches

theorem keeps_closeArm (last : Label) : Keeps b n g (closeArm last) :=
  keeps_topType?.bind fun _ => (keeps_onCode _).bind fun _ => (keeps_emit _).bind fun _ => keeps_pure _

theorem keeps_fillArm (target : Ty) (arm : Arm) : Keeps b n g (fillArm target arm) := by
  unfold fillArm
  split
  · exact keeps_pure _
  · exact keeps_registry.bind fun _ => (keeps_ofExcept _).bind fun _ => keeps_modifyCode _

theorem keeps_joinArms (arms : List Arm) : Keeps b n g (joinArms arms) := by
  refine keeps_registry.bind fun r => ?_
  dsimp only
  split
  · exact (keeps_forM (keeps_fillArm _)).bind fun _ => keeps_pure _
  · exact keeps_pure _

theorem keeps_startAt (base : List StackRecord) (l : Label) : Keeps b n g (startAt base l) :=
  (keeps_modifyStack _).bind fun _ => keeps_modifyCode _

theorem keeps_emitTest : Keeps b n g emitTest := by
  refine keeps_topType?.bind fun ty => ?_
  split
  · exact keeps_pure _
  · exact keeps_ite (keeps_pure _) ((keeps_emitAll _).bind fun _ => keeps_emit _)

theorem keeps_emitKeyTest (base : List StackRecord) (temp : Nat) (dispatch : Label) (key : CaseKey) :
    Keeps b n g (emitKeyTest base temp dispatch key) := by
  refine (keeps_onCode _).bind fun next => (keeps_emit _).bind fun _ => (keeps_emit _).bind fun _ => ?_
  refine (keeps_emitAll _).bind fun _ => (keeps_emit _).bind fun _ => (keeps_emit _).bind fun _ => ?_
  exact (keeps_emit _).bind fun _ => (keeps_emit _).bind fun _ => keeps_startAt _ _

theorem keeps_emitBucket (base : List StackRecord) (temp : Nat) (dispatch fallback : Label) (bucket : Bucket)
    (l : Label) : Keeps b n g (emitBucket base temp dispatch fallback bucket l) :=
  (keeps_startAt _ _).bind fun _ => (keeps_forM fun key => keeps_emitKeyTest _ _ _ key).bind fun _ =>
    keeps_emit _

theorem keeps_labelsFor (items : List α) : Keeps b n g (labelsFor items) :=
  keeps_mapM fun _ => keeps_onCode _

theorem keeps_emitSwitch (base : List StackRecord) (temp : Nat) (fallback : Label) (branches : List Label)
    (keys : List CaseKey) : Keeps b n g (emitSwitch base temp fallback branches keys) := by
  refine keeps_ite (keeps_pure _) ?_
  refine (keeps_labelsFor _).bind fun labels => (keeps_onCode _).bind fun dispatch => ?_
  refine (keeps_emit _).bind fun _ => (keeps_emit _).bind fun _ => (keeps_emit _).bind fun _ => ?_
  refine (keeps_forM fun _ => keeps_emitBucket _ _ _ _ _ _).bind fun _ => ?_
  exact (keeps_modifyStack _).bind fun _ => (keeps_modifyCode _).bind fun _ => keeps_emit _

theorem keeps_emitNoMatch (temp : Nat) (span : Span) : Keeps b n g (emitNoMatch temp span) := by
  refine (keeps_emitConstant _).bind fun _ => (keeps_emit _).bind fun _ => ?_
  exact (keeps_emitCall _).bind fun _ => (keeps_emit _).bind fun _ => keeps_emit _

variable {h : Handlers} (hc : ∀ d, Keeps false false .fixed (h.compile d))

include hc

theorem keeps_compileOptional (d : Option Datum) : Keeps b n g (compileOptional h d) := by
  cases d with
  | some d => exact keeps_compile hc d
  | none => exact keeps_emitConstant _

theorem keeps_compileIf (d : Datum) : Keeps b n g (compileIf h d) := by
  refine (keeps_ofExcept _).bind fun (test, whenTrue, whenFalse) => ?_
  refine (keeps_compileAside hc _).bind fun _ => keeps_isUnreachable.bind fun _ => ?_
  refine keeps_ite (keeps_pure _) ?_
  refine keeps_emitTest.bind fun _ => (keeps_onCode _).bind fun otherwise => ?_
  refine (keeps_onCode _).bind fun last => (keeps_emit _).bind fun _ => keeps_stack.bind fun stack => ?_
  refine (keeps_compile hc _).bind fun _ => (keeps_closeArm _).bind fun first => ?_
  refine (keeps_startAt _ _).bind fun _ => (keeps_compileOptional hc _).bind fun _ => ?_
  refine (keeps_closeArm _).bind fun second => (keeps_modifyCode _).bind fun _ => ?_
  exact (keeps_joinArms _).bind fun _ => keeps_settle _ _

theorem keeps_compileFallback (temp : Nat) (span : Span) (d : Option Datum) :
    Keeps b n g (compileFallback h temp span d) := by
  cases d with
  | some d => exact keeps_compile hc d
  | none => exact keeps_emitNoMatch _ _

theorem keeps_compileBranch (base : List StackRecord) (last : Label) (body : Datum) (l : Label) :
    Keeps b n g (compileBranch h base last body l) :=
  (keeps_startAt _ _).bind fun _ => (keeps_compile hc _).bind fun _ => keeps_closeArm _

theorem keeps_compileCase [Libraries] (d : Datum) : Keeps b n g (compileCase h d) := by
  refine (keeps_ofExcept _).bind fun (subject, clauses) => ?_
  refine (keeps_compileAside hc _).bind fun _ => keeps_isUnreachable.bind fun _ => ?_
  refine keeps_ite (keeps_pure _) ?_
  refine keeps_boxTop.bind fun _ => (keeps_onCode _).bind fun temp => (keeps_emit _).bind fun _ => ?_
  refine keeps_stack.bind fun stack => (keeps_onCode _).bind fun fallback => ?_
  refine (keeps_onCode _).bind fun last => (keeps_labelsFor _).bind fun branches => ?_
  refine (keeps_emitSwitch _ _ _ _ _).bind fun _ => ?_
  refine (keeps_mapM fun _ => keeps_compileBranch hc _ _ _ _).bind fun arms => ?_
  refine (keeps_startAt _ _).bind fun _ => (keeps_compileFallback hc _ _ _).bind fun _ => ?_
  refine (keeps_closeArm _).bind fun arm => (keeps_modifyCode _).bind fun _ => ?_
  exact (keeps_modifyCode _).bind fun _ => (keeps_joinArms _).bind fun _ => keeps_settle _ _

end Branches

/-! ### Locals and loops -/

section Locals

theorem keeps_hintApplies (l : LocalInit) (hint : String) (hinted inferred : Ty) :
    Keeps b n g (hintApplies l hint hinted inferred) := by
  refine keeps_world.bind fun w => keeps_ite (keeps_pure _) ?_
  exact keeps_ite ((keeps_warn _ _).bind fun _ => keeps_pure _) (keeps_pure _)

theorem keeps_localType (l : LocalInit) : Keeps b n g (localType l) := by
  refine keeps_topType?.bind fun ty => ?_
  split
  · exact keeps_pure _
  · exact keeps_resolveHint _
  · exact keeps_pure _
  · refine (keeps_resolveHint _).bind fun hinted => (keeps_hintApplies _ _ _ _).bind fun _ => ?_
    exact keeps_ite ((keeps_coerceTop _).bind fun _ => keeps_pure _) (keeps_pure _)

theorem keeps_storeLocal (ty : Ty) : Keeps b n g (storeLocal ty) :=
  (keeps_onCode _).bind fun _ => (keeps_emit _).bind fun _ => keeps_pure _

theorem keeps_describe (l : PlacedLocal) (last : Label) : Keeps b n g (describe l last) :=
  keeps_modifyCode _

theorem keeps_recurTarget (d : Datum) (k : Nat) : Keeps b n g (recurTarget d k) := by
  refine keeps_get.bind fun s => ?_
  split
  · exact keeps_fail _
  · refine keeps_ite (keeps_fail _) (keeps_ite (keeps_fail _) ?_)
    exact keeps_tryDepth.bind fun _ => keeps_ite (keeps_fail _) (keeps_pure _)

variable {h : Handlers} (hc : ∀ d, Keeps false false .fixed (h.compile d))

include hc

theorem keeps_compileLocal (l : LocalInit) : Keeps true n g (compileLocal h l) := by
  refine (keeps_compileAside hc _).bind fun _ => (keeps_localType _).bind fun ty => ?_
  refine (keeps_storeLocal _).bind fun slot => (keeps_onCode _).bind fun first => ?_
  exact (keeps_bindName _).bind fun _ => keeps_pure _

theorem keeps_compileLet (d : Datum) : Keeps b n g (compileLet h d) := by
  refine (keeps_ofExcept _).bind fun (locals, body) => keeps_withScope _ ?_
  refine (keeps_mapM fun l => keeps_compileLocal hc l).bind fun placed => ?_
  refine (keeps_compileBody hc _).bind fun _ => (keeps_onCode _).bind fun last => ?_
  exact keeps_forM fun l => keeps_describe _ _

theorem keeps_compileLoopLocal (l : LocalInit) : Keeps true n g (compileLoopLocal h l) := by
  refine (keeps_compileBoxed hc _).bind fun _ => (keeps_storeLocal _).bind fun slot => ?_
  exact (keeps_bindName _).bind fun _ => keeps_pure _

theorem keeps_compileLoop (d : Datum) : Keeps b n g (compileLoop h d) := by
  refine (keeps_ofExcept _).bind fun (locals, body) => keeps_withScope _ ?_
  refine (keeps_mapM fun l => keeps_compileLoopLocal hc l).bind fun placed => ?_
  refine (keeps_onCode _).bind fun head => keeps_tryDepth.bind fun depth => ?_
  refine (keeps_withLoop _ (keeps_withTail true (keeps_compileBody hc _))).bind fun _ => ?_
  exact (keeps_onCode _).bind fun last => keeps_forM fun l => keeps_describe _ _

theorem keeps_compileRecurArg (arg : Datum) (ty : Ty) : Keeps b n g (compileRecurArg h arg ty) :=
  (keeps_compile hc _).bind fun _ => keeps_ite keeps_boxTop (keeps_coerceTop _)

theorem keeps_compileRecur (d : Datum) : Keeps b n g (compileRecur h d) := by
  refine (keeps_recurTarget _ _).bind fun target => ?_
  split
  · exact keeps_fail _
  · refine (keeps_withTail false (keeps_forM fun _ => keeps_compileRecurArg hc _ _)).bind fun _ => ?_
    exact (keeps_forM fun _ => keeps_emit _).bind fun _ => keeps_emit _

end Locals

/-! ### Exceptions -/

section Exceptions

theorem keeps_storeResult (t : TryFrame) : Keeps b n g (storeResult t) :=
  keeps_boxTop.bind fun _ => keeps_emit _

theorem keeps_startHandler (t : TryFrame) (ty : Ty) (l : Label) : Keeps b n g (startHandler t ty l) :=
  (keeps_modifyStack _).bind fun _ => keeps_modifyCode _

/-- One more `try` is open in the current method, for as long as the work lasts. -/
theorem keeps_withinTry {x : FormM α} (hx : Keeps b n .fixed x) : Keeps b n g (withinTry x) := by
  intro s
  cases hmethods : s.methods with
  | nil =>
    have hrun : withinTry x s = .error (.error FormM.noMethod) s := by
      refine State.bind_of_error ?_
      rw [FormM.modifyMethod, State.bind_of_ok (State.get_eq s), hmethods]
      rfl
    rw [hrun]
    exact Kept.refl s
  | cons m rest =>
    have hrun : FormM.modifyMethod (fun c => { c with tryDepth := c.tryDepth + 1 }) s
        = .ok () { s with methods := { m with tryDepth := m.tryDepth + 1 } :: rest } := by
      rw [FormM.modifyMethod, State.bind_of_ok (State.get_eq s), hmethods]
      rfl
    rw [withinTry, State.bind_of_ok hrun]
    refine (hx _).andFinally fun failed t hkept => ?_
    have hdepths : t.methods.map MethodContext.tryDepth
        = (m.tryDepth + 1) :: rest.map MethodContext.tryDepth := congrArg Context.tryDepths hkept.context
    cases hleft : t.methods with
    | nil => simp [hleft] at hdepths
    | cons c rest' =>
      simp only [hleft, List.map_cons, List.cons.injEq] at hdepths
      refine ⟨?_, .of_fixed (by exact hkept.signal) g⟩
      have hrest := congrArg (fun context => { context with
        tryDepths := s.methods.map MethodContext.tryDepth }) hkept.context
      refine Eq.trans ?_ hrest
      simp only [Context.upTo, FormState.context, hmethods, List.map_cons, hdepths.1, hdepths.2,
        Nat.add_sub_cancel]

variable {h : Handlers} (hc : ∀ d, Keeps false false .fixed (h.compile d))

include hc

theorem keeps_compileThrow (d : Datum) : Keeps b n g (compileThrow h d) :=
  (keeps_ofExcept _).bind fun _ => (keeps_compileBoxed hc _).bind fun _ => keeps_emit _

theorem keeps_compileFinally (body : Option (List Datum)) : Keeps b n g (compileFinally h body) := by
  cases body with
  | none => exact keeps_pure _
  | some body => exact (keeps_withTail false (keeps_compileBody hc _)).bind fun _ => keeps_popValue

theorem keeps_leaveTry (t : TryFrame) : Keeps b n g (leaveTry h t) := by
  refine keeps_isUnreachable.bind fun _ => keeps_ite (keeps_pure _) ?_
  exact (keeps_compileFinally hc _).bind fun _ => (keeps_emit _).bind fun _ => keeps_pure _

theorem keeps_compileCatch (t : TryFrame) (range : Label × Label) (c : CatchClause) :
    Keeps b n g (compileCatch h t range c) := by
  refine (keeps_onCode _).bind fun handler => (keeps_modifyCode _).bind fun _ => ?_
  refine (keeps_startHandler _ _ _).bind fun _ => ?_
  refine (keeps_withScope _ ?_).bind fun last => (keeps_leaveTry hc _).bind fun _ => keeps_pure _
  refine (keeps_storeLocal _).bind fun slot => (keeps_onCode _).bind fun first => ?_
  refine (keeps_bindName _).bind fun _ => (keeps_compileBody hc _).bind fun _ => ?_
  refine (keeps_storeResult _).bind fun _ => (keeps_onCode _).bind fun last => ?_
  exact (keeps_describe _ _).bind fun _ => keeps_pure _

theorem keeps_compilePending (t : TryFrame) (ranges : List (Label × Label)) :
    Keeps b n g (compilePending h t ranges) := by
  refine keeps_ite ?_ (keeps_pure _)
  refine (keeps_onCode _).bind fun handler => (keeps_forM fun _ => keeps_modifyCode _).bind fun _ => ?_
  refine (keeps_startHandler _ _ _).bind fun _ => (keeps_storeLocal _).bind fun pending => ?_
  refine (keeps_compileFinally hc _).bind fun _ => (keeps_emit _).bind fun _ => ?_
  exact (keeps_emit _).bind fun _ => keeps_modifyCode _

theorem keeps_compileRegions (parts : TryParts) (t : TryFrame) : Keeps b n g (compileRegions h parts t) := by
  refine (keeps_onCode _).bind fun first => (keeps_compileBody hc _).bind fun _ => ?_
  refine (keeps_storeResult _).bind fun _ => (keeps_onCode _).bind fun last => ?_
  refine (keeps_leaveTry hc _).bind fun through => ?_
  refine (keeps_mapM fun c => keeps_compileCatch hc _ _ _).bind fun caught => ?_
  exact (keeps_compilePending hc _ _).bind fun _ => keeps_pure _

theorem keeps_compileTry (d : Datum) : Keeps b n g (compileTry h d) := by
  refine keeps_world.bind fun w => (keeps_ofExcept _).bind fun parts => ?_
  refine keeps_isUnreachable.bind fun _ => keeps_ite (keeps_pure _) ?_
  refine keeps_stack.bind fun stack => (keeps_onCode _).bind fun result => ?_
  refine (keeps_onCode _).bind fun after => ?_
  refine (keeps_withinTry (keeps_compileRegions hc _ _)).bind fun reachable => ?_
  refine (keeps_modifyStack _).bind fun _ => keeps_ite ?_ ?_
  · exact (keeps_modifyCode _).bind fun _ => (keeps_emit _).bind fun _ => keeps_modifyCode _
  · exact (keeps_modifyStack _).bind fun _ => keeps_modifyCode _

end Exceptions

/-! ### Templates -/

section Templates

theorem keeps_templateName (name : String) : Keeps b true g (Template.templateName name) := by
  refine (keeps_lift _).bind fun k s => ?_
  rw [State.bind_of_ok (State.get_eq s)]
  cases htemplates : s.templates with
  | nil => exact Kept.refl s
  | cons names rest =>
    cases hfind : names.find? name with
    | some made =>
      simp only [hfind]
      exact ((keeps_lift _).bind fun _ => keeps_pure _) s
    | none =>
      simp only [hfind]
      exact ⟨by simp [Context.upTo, FormState.context, htemplates], .of_fixed rfl g⟩

theorem keeps_qualify (name : String) : Keeps b true g (Template.qualify name) := by
  refine keeps_ite (keeps_templateName name) (keeps_ite (keeps_pure _) ?_)
  exact keeps_world.bind fun _ => keeps_pure _

mutual

theorem keeps_qualifyDatum : ∀ {g : Signal} (d : Datum), Keeps b true g (Template.qualifyDatum d)
  | _, .atom a _ => by
    cases a with
    | symbol name => exact (keeps_qualify _).bind fun _ => keeps_pure _
    | _ => exact keeps_pure _
  | _, .list items _ => (keeps_qualifyData items).bind fun _ => keeps_pure _
  | _, .vector items _ => (keeps_qualifyData items).bind fun _ => keeps_pure _
  | _, .set items _ => (keeps_qualifyData items).bind fun _ => keeps_pure _
  | _, .map entries _ => (keeps_qualifyEntries entries).bind fun _ => keeps_pure _

theorem keeps_qualifyData : ∀ {g : Signal} (ds : List Datum), Keeps b true g (Template.qualifyData ds)
  | _, [] => keeps_pure _
  | _, d :: ds => (keeps_qualifyDatum d).bind fun _ => (keeps_qualifyData ds).bind fun _ => keeps_pure _

theorem keeps_qualifyEntries : ∀ {g : Signal} (es : List (Datum × Datum)),
    Keeps b true g (Template.qualifyEntries es)
  | _, [] => keeps_pure _
  | _, (k, v) :: es => (keeps_qualifyDatum k).bind fun _ => (keeps_qualifyDatum v).bind fun _ =>
      (keeps_qualifyEntries es).bind fun _ => keeps_pure _

end

theorem keeps_constantElement (d : Datum) : Keeps b true g (Template.constantElement d) := by
  unfold Template.constantElement
  split
  · exact (keeps_qualify _).bind fun _ => keeps_pure _
  · exact keeps_ofExcept _
  · exact (keeps_qualifyDatum _).bind fun _ => keeps_pure _

/-- An element that is kept as a constant. -/
theorem keeps_planConstant (d : Datum) :
    Keeps b true g (do return (Template.Plan.constant (← Template.constantElement d), false)) :=
  (keeps_constantElement d).bind fun _ => keeps_pure _

mutual

theorem keeps_plan : ∀ {g : Signal} (d : Datum), Keeps b true g (Template.plan d)
  | _, .atom a i => keeps_planConstant (.atom a i)
  | _, .list items i => by
    unfold Template.plan
    split
    · exact keeps_pure _
    · exact keeps_ite ((keeps_planAll items).bind fun _ => keeps_pure _) (keeps_planConstant _)
  | _, .vector items i =>
    keeps_ite ((keeps_planAll items).bind fun _ => keeps_pure _) (keeps_planConstant _)
  | _, .set items i =>
    keeps_ite ((keeps_planAll items).bind fun _ => keeps_pure _) (keeps_planConstant _)
  | _, .map entries i =>
    keeps_ite ((keeps_planEntries entries).bind fun _ => keeps_ite (keeps_fail _) (keeps_pure _))
      (keeps_planConstant _)

theorem keeps_planAll : ∀ {g : Signal} (ds : List Datum), Keeps b true g (Template.planAll ds)
  | _, [] => keeps_pure _
  | _, d :: ds => (keeps_plan d).bind fun _ => (keeps_planAll ds).bind fun _ => keeps_pure _

theorem keeps_planEntries : ∀ {g : Signal} (es : List (Datum × Datum)),
    Keeps b true g (Template.planEntries es)
  | _, [] => keeps_pure _
  | _, (k, v) :: es => (keeps_plan k).bind fun _ => (keeps_plan v).bind fun _ =>
      (keeps_planEntries es).bind fun _ => keeps_pure _

end

mutual

theorem keeps_emitPlan {h : Handlers} (hc : ∀ d, Keeps false false .fixed (h.compile d)) :
    ∀ {n : Bool} {g : Signal} (d : Datum) (p : Template.Plan), Keeps b n g (Template.emitPlan h d p)
  | _, _, d, .constant c => keeps_emitForm d (keeps_emitConstant c)
  | _, _, d, .compute inner => keeps_emitForm d (keeps_compile hc inner)
  | _, _, d, .build _ items _ =>
    keeps_emitForm d <| (keeps_withTail false (keeps_emitPlans hc items)).bind fun _ =>
      keeps_ite (keeps_emit _) (keeps_emit _)

theorem keeps_emitPlans {h : Handlers} (hc : ∀ d, Keeps false false .fixed (h.compile d)) :
    ∀ {n : Bool} {g : Signal} (ps : List (Datum × Template.Plan × Bool)),
      Keeps b n g (Template.emitPlans h ps)
  | _, _, [] => keeps_pure _
  | _, _, (d, p, _) :: ps =>
    (keeps_emitPlan hc d p).bind fun _ => keeps_boxTop.bind fun _ => keeps_emitPlans hc ps

end

theorem keeps_compileTemplate {h : Handlers} (hc : ∀ d, Keeps false false .fixed (h.compile d)) (d : Datum) :
    Keeps b n g (Template.compile h d) := by
  refine (keeps_ofExcept _).bind fun template => keeps_withNames ?_
  refine (keeps_plan template).bind fun (p, splice) => ?_
  exact keeps_ite ((keeps_fail _).bind fun _ => keeps_emitPlan hc _ _) (keeps_emitPlan hc _ _)

end Templates

end LispMachine.Keeping
