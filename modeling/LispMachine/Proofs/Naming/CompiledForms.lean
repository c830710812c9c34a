import LispMachine.Proofs.Naming.Work

/-! # Work on compiled forms

Each form that is compiled is taken apart into its steps in the order in which they are written.  Names are made up in
three places: an expansion may draw one or run the code of an expander, a template gives its symbols theirs, and the
classes of functions and proxies are named before their bodies are compiled.  With these every form that is compiled is
covered (`work_compileForm`). -/

namespace LispMachine.Naming

open Form

variable {α : Type}

/-- What works on the parts of a form is made up in the known ways, and so is what runs code. -/
structure Working (h : Handlers) : Prop where
  call : ∀ q, Machine.Runs (h.call q)
  compile : ∀ d, Work (h.compile d)
  evaluate : ∀ d, Work (h.evaluate d)

/-! ### Names -/

theorem work_resolve (name : String) : Work (resolve name) := by
  refine (work_lookup name).bind fun r => ?_
  split
  · exact work_pure _
  · exact work_fail _

theorem work_resolveHint (hint : String) : Work (resolveHint hint) := by
  unfold resolveHint
  split
  · exact work_pure _
  · refine work_world.bind fun w => ?_
    split
    · exact work_pure _
    · exact work_fail _

theorem work_loadThis : Work loadThis :=
  (work_currentClass.bind fun _ => work_pure _).bind fun _ => (work_emit _).bind fun _ => work_pure _

theorem work_loadField (field : String) (ty : Ty) : Work (loadField field ty) :=
  work_loadThis.bind fun _ => work_emit _

theorem work_loadBinding (binding : Binding) : Work (loadBinding binding) := by
  unfold loadBinding
  split
  · exact work_emit _
  · exact work_emit _
  · exact work_loadField _ _
  · exact work_fail _

theorem work_compileName (name : String) (span : Span) : Work (compileName name span) := by
  refine (work_resolve name).bind fun r => ?_
  split
  · exact (work_capture _ _).bind fun _ => work_loadField _ _
  · exact work_loadBinding _
  · exact work_world.bind fun _ => (work_ofExcept _).bind fun _ => work_emitCall _
  · exact work_emitConstant _
  · exact work_emitConstant _
  · exact work_emit _

theorem work_compileSymbol (d : Datum) : Work (compileSymbol d) := by
  unfold compileSymbol
  split
  · exact work_compileName _ _
  · exact work_fail _

/-! ### Expansion -/

theorem work_junction (op : String) (empty : Datum) (args : List Datum) (d : Datum) :
    Work (Expansion.junction op empty args d) := by
  unfold Expansion.junction
  split
  · exact work_pure _
  · exact work_pure _
  · exact (Work.gensym _).bind fun _ => work_pure _

theorem work_derive? (d : Datum) : Work (Expansion.derive? d) := by
  unfold Expansion.derive?
  split
  · exact work_pure _
  · split
    · exact work_pure _
    · split
      · exact work_pure _
      · refine work_ite ((work_ofExcept _).bind fun _ => work_pure _) ?_
        refine work_ite ((work_ofExcept _).bind fun _ => work_pure _) ?_
        refine work_ite ((work_ofExcept _).bind fun _ => work_pure _) ?_
        refine work_ite ((work_junction _ _ _ _).bind fun _ => work_pure _) ?_
        refine work_ite ((work_junction _ _ _ _).bind fun _ => work_pure _) ?_
        refine work_ite ((work_ofExcept _).bind fun _ => work_pure _) ?_
        refine work_ite ((work_ofExcept _).bind fun _ => work_pure _) ?_
        refine work_ite (work_pure _) ?_
        exact work_world.bind fun _ => work_ofExcept _

section Expanders

variable {call : Caller} (hcall : ∀ q, Machine.Runs (call q))

include hcall

theorem work_applyExpander [Libraries] (v : VarRef) (d : Datum) : Work (Expansion.applyExpander call v d) :=
  (Work.machine (Machine.runs_read _)).bind fun _ => ((Work.machine (hcall _)).atSpan _).bind fun _ =>
    work_ofExcept _

theorem work_expandOnce [Libraries] (d : Datum) : Work (Expansion.expandOnce call d) := by
  unfold Expansion.expandOnce
  split
  · exact work_pure _
  · refine (work_lookup _).bind fun r => ?_
    split
    · refine work_world.bind fun w => work_ite ?_ (work_pure _)
      exact (work_applyExpander hcall _ _).bind fun _ => work_pure _
    · exact work_pure _
    · exact work_derive? d

theorem work_expandWithin [Libraries] (origin : Datum) (left steps : Nat) (d : Datum) :
    Work (Expansion.expandWithin call origin left steps d) := by
  induction left generalizing steps d with
  | zero => exact work_fail _
  | succ left ih =>
    refine (work_expandOnce hcall d).bind fun next => ?_
    split
    · exact work_pure _
    · exact work_ite (work_pure _) (ih _ _)

theorem work_expand [Libraries] (d : Datum) : Work (Expansion.expand call d) := work_expandWithin hcall d _ _ d

end Expanders

/-! ### Constants, bodies and collections -/

section Parts

theorem work_emitForm (d : Datum) {code : FormM Unit} (hcode : Work code) :
    Work (emitForm d code) := by
  refine work_stack.bind fun _ => (hcode.atSpan _).bind fun _ => work_stack.bind fun stack => ?_
  exact work_ite (work_pure _) (work_fail _)

variable {h : Handlers} (hh : Working h)

include hh

theorem work_compileAside (d : Datum) : Work (FormM.withTail false (h.compile d)) :=
  work_withTail _ (hh.compile d)

theorem work_compileBody (body : List Datum) : Work (compileBody h body) := by
  induction body with
  | nil => exact work_emitConstant _
  | cons d rest ih =>
    cases rest with
    | nil => exact hh.compile d
    | cons d' rest => exact (work_compileAside hh d).bind fun _ => work_popValue.bind fun _ => ih

theorem work_compileArgs (args : List Datum) : Work (compileArgs h args) :=
  work_withTail _ (work_forM fun d => hh.compile d)

theorem work_compileBoxed (d : Datum) : Work (compileBoxed h d) :=
  (work_compileAside hh d).bind fun _ => work_boxTop

theorem work_compileBoxedEach (items : List Datum) : Work (compileBoxedEach h items) := by
  induction items with
  | nil => exact work_pure _
  | cons d rest ih => exact (hh.compile d).bind fun _ => work_boxTop.bind fun _ => ih

theorem work_compileCollection (d : Datum) : Work (compileCollection h d) := by
  unfold compileCollection
  split
  · exact work_fail _
  · exact (work_withTail _ (work_compileBoxedEach hh _)).bind fun _ => work_emit _

end Parts

/-! ### Branches -/

section Branches

theorem work_closeArm (last : Label) : Work (closeArm last) :=
  work_topType?.bind fun _ => (work_onCode _).bind fun _ => (work_emit _).bind fun _ => work_pure _

theorem work_fillArm (target : Ty) (arm : Arm) : Work (fillArm target arm) := by
  unfold fillArm
  split
  · exact work_pure _
  · exact work_registry.bind fun _ => (work_ofExcept _).bind fun _ => work_modifyCode _

theorem work_joinArms (arms : List Arm) : Work (joinArms arms) := by
  refine work_registry.bind fun r => ?_
  dsimp only
  split
  · exact (work_forM (work_fillArm _)).bind fun _ => work_pure _
  · exact work_pure _

theorem work_startAt (base : List StackRecord) (l : Label) : Work (startAt base l) :=
  (work_modifyStack _).bind fun _ => work_modifyCode _

theorem work_emitTest : Work emitTest := by
  refine work_topType?.bind fun ty => ?_
  split
  · exact work_pure _
  · exact work_ite (work_pure _) ((work_emitAll _).bind fun _ => work_emit _)

theorem work_emitKeyTest (base : List StackRecord) (temp : Nat) (dispatch : Label) (key : CaseKey) :
    Work (emitKeyTest base temp dispatch key) := by
  refine (work_onCode _).bind fun next => (work_emit _).bind fun _ => (work_emit _).bind fun _ => ?_
  refine (work_emitAll _).bind fun _ => (work_emit _).bind fun _ => (work_emit _).bind fun _ => ?_
  exact (work_emit _).bind fun _ => (work_emit _).bind fun _ => work_startAt _ _

theorem work_emitBucket (base : List StackRecord) (temp : Nat) (dispatch fallback : Label) (bucket : Bucket)
    (l : Label) : Work (emitBucket base temp dispatch fallback bucket l) :=
  (work_startAt _ _).bind fun _ => (work_forM fun key => work_emitKeyTest _ _ _ key).bind fun _ =>
    work_emit _

theorem work_labelsFor (items : List α) : Work (labelsFor items) :=
  work_mapM fun _ => work_onCode _

theorem work_emitSwitch (base : List StackRecord) (temp : Nat) (fallback : Label) (branches : List Label)
    (keys : List CaseKey) : Work (emitSwitch base temp fallback branches keys) := by
  refine work_ite (work_pure _) ?_
  refine (work_labelsFor _).bind fun labels => (work_onCode _).bind fun dispatch => ?_
  refine (work_emit _).bind fun _ => (work_emit _).bind fun _ => (work_emit _).bind fun _ => ?_
  refine (work_forM fun _ => work_emitBucket _ _ _ _ _ _).bind fun _ => ?_
  exact (work_modifyStack _).bind fun _ => (work_modifyCode _).bind fun _ => work_emit _

theorem work_emitNoMatch (temp : Nat) (span : Span) : Work (emitNoMatch temp span) := by
  refine (work_emitConstant _).bind fun _ => (work_emit _).bind fun _ => ?_
  exact (work_emitCall _).bind fun _ => (work_emit _).bind fun _ => work_emit _

variable {h : Handlers} (hh : Working h)

include hh

theorem work_compileOptional (d : Option Datum) : Work (compileOptional h d) := by
  cases d with
  | some d => exact hh.compile d
  | none => exact work_emitConstant _

theorem work_compileIf (d : Datum) : Work (compileIf h d) := by
  refine (work_ofExcept _).bind fun (test, whenTrue, whenFalse) => ?_
  refine (work_compileAside hh _).bind fun _ => work_isUnreachable.bind fun _ => ?_
  refine work_ite (work_pure _) ?_
  refine work_emitTest.bind fun _ => (work_onCode _).bind fun otherwise => ?_
  refine (work_onCode _).bind fun last => (work_emit _).bind fun _ => work_stack.bind fun stack => ?_
  refine (hh.compile _).bind fun _ => (work_closeArm _).bind fun first => ?_
  refine (work_startAt _ _).bind fun _ => (work_compileOptional hh _).bind fun _ => ?_
  refine (work_closeArm _).bind fun second => (work_modifyCode _).bind fun _ => ?_
  exact (work_joinArms _).bind fun _ => work_settle _ _

theorem work_compileFallback (temp : Nat) (span : Span) (d : Option Datum) :
    Work (compileFallback h temp span d) := by
  cases d with
  | some d => exact hh.compile d
  | none => exact work_emitNoMatch _ _

theorem work_compileBranch (base : List StackRecord) (last : Label) (body : Datum) (l : Label) :
    Work (compileBranch h base last body l) :=
  (work_startAt _ _).bind fun _ => (hh.compile _).bind fun _ => work_closeArm _

theorem work_compileCase [Libraries] (d : Datum) : Work (compileCase h d) := by
  refine (work_ofExcept _).bind fun (subject, clauses) => ?_
  refine (work_compileAside hh _).bind fun _ => work_isUnreachable.bind fun _ => ?_
  refine work_ite (work_pure _) ?_
  refine work_boxTop.bind fun _ => (work_onCode _).bind fun temp => (work_emit _).bind fun _ => ?_
  refine work_stack.bind fun stack => (work_onCode _).bind fun fallback => ?_
  refine (work_onCode _).bind fun last => (work_labelsFor _).bind fun branches => ?_
  refine (work_emitSwitch _ _ _ _ _).bind fun _ => ?_
  refine (work_mapM fun _ => work_compileBranch hh _ _ _ _).bind fun arms => ?_
  refine (work_startAt _ _).bind fun _ => (work_compileFallback hh _ _ _).bind fun _ => ?_
  refine (work_closeArm _).bind fun arm => (work_modifyCode _).bind fun _ => ?_
  exact (work_modifyCode _).bind fun _ => (work_joinArms _).bind fun _ => work_settle _ _

end Branches

/-! ### Locals and loops -/

section Locals

theorem work_hintApplies (l : LocalInit) (hint : String) (hinted inferred : Ty) :
    Work (hintApplies l hint hinted inferred) := by
  refine work_world.bind fun w => work_ite (work_pure _) ?_
  exact work_ite ((work_warn _ _).bind fun _ => work_pure _) (work_pure _)

theorem work_localType (l : LocalInit) : Work (localType l) := by
  refine work_topType?.bind fun ty => ?_
  split
  · exact work_pure _
  · exact work_resolveHint _
  · exact work_pure _
  · refine (work_resolveHint _).bind fun hinted => (work_hintApplies _ _ _ _).bind fun _ => ?_
    exact work_ite ((work_coerceTop _).bind fun _ => work_pure _) (work_pure _)

theorem work_storeLocal (ty : Ty) : Work (storeLocal ty) :=
  (work_onCode _).bind fun _ => (work_emit _).bind fun _ => work_pure _

theorem work_describe (l : PlacedLocal) (last : Label) : Work (describe l last) :=
  work_modifyCode _

theorem work_recurTarget (d : Datum) (k : Nat) : Work (recurTarget d k) := by
  refine work_get.bind fun s => ?_
  split
  · exact work_fail _
  · refine work_ite (work_fail _) (work_ite (work_fail _) ?_)
    exact work_tryDepth.bind fun _ => work_ite (work_fail _) (work_pure _)

variable {h : Handlers} (hh : Working h)

include hh

theorem work_compileLocal (l : LocalInit) : Work (compileLocal h l) := by
  refine (work_compileAside hh _).bind fun _ => (work_localType _).bind fun ty => ?_
  refine (work_storeLocal _).bind fun slot => (work_onCode _).bind fun first => ?_
  exact (work_bindName _).bind fun _ => work_pure _

theorem work_compileLet (d : Datum) : Work (compileLet h d) := by
  refine (work_ofExcept _).bind fun (locals, body) => work_withScope _ ?_
  refine (work_mapM fun l => work_compileLocal hh l).bind fun placed => ?_
  refine (work_compileBody hh _).bind fun _ => (work_onCode _).bind fun last => ?_
  exact work_forM fun l => work_describe _ _

theorem work_compileLoopLocal (l : LocalInit) : Work (compileLoopLocal h l) := by
  refine (work_compileBoxed hh _).bind fun _ => (work_storeLocal _).bind fun slot => ?_
  exact (work_bindName _).bind fun _ => work_pure _

theorem work_compileLoop (d : Datum) : Work (compileLoop h d) := by
  refine (work_ofExcept _).bind fun (locals, body) => work_withScope _ ?_
  refine (work_mapM fun l => work_compileLoopLocal hh l).bind fun placed => ?_
  refine (work_onCode _).bind fun head => work_tryDepth.bind fun depth => ?_
  refine (work_withLoop _ (work_withTail _ (work_compileBody hh _))).bind fun _ => ?_
  exact (work_onCode _).bind fun last => work_forM fun l => work_describe _ _

theorem work_compileRecurArg (arg : Datum) (ty : Ty) : Work (compileRecurArg h arg ty) :=
  (hh.compile _).bind fun _ => work_ite work_boxTop (work_coerceTop _)

theorem work_compileRecur (d : Datum) : Work (compileRecur h d) := by
  refine (work_recurTarget _ _).bind fun target => ?_
  split
  · exact work_fail _
  · refine (work_withTail _ (work_forM fun _ => work_compileRecurArg hh _ _)).bind fun _ => ?_
    exact (work_forM fun _ => work_emit _).bind fun _ => work_emit _

end Locals

/-! ### Exceptions -/

section Exceptions

theorem work_storeResult (t : TryFrame) : Work (storeResult t) :=
  work_boxTop.bind fun _ => work_emit _

theorem work_startHandler (t : TryFrame) (ty : Ty) (l : Label) : Work (startHandler t ty l) :=
  (work_modifyStack _).bind fun _ => work_modifyCode _

variable {h : Handlers} (hh : Working h)

include hh

theorem work_compileThrow (d : Datum) : Work (compileThrow h d) :=
  (work_ofExcept _).bind fun _ => (work_compileBoxed hh _).bind fun _ => work_emit _

theorem work_compileFinally (body : Option (List Datum)) : Work (compileFinally h body) := by
  cases body with
  | none => exact work_pure _
  | some body => exact (work_withTail _ (work_compileBody hh _)).bind fun _ => work_popValue

theorem work_leaveTry (t : TryFrame) : Work (leaveTry h t) := by
  refine work_isUnreachable.bind fun _ => work_ite (work_pure _) ?_
  exact (work_compileFinally hh _).bind fun _ => (work_emit _).bind fun _ => work_pure _

theorem work_compileCatch (t : TryFrame) (range : Label × Label) (c : CatchClause) :
    Work (compileCatch h t range c) := by
  refine (work_onCode _).bind fun handler => (work_modifyCode _).bind fun _ => ?_
  refine (work_startHandler _ _ _).bind fun _ => ?_
  refine (work_withScope _ ?_).bind fun last => (work_leaveTry hh _).bind fun _ => work_pure _
  refine (work_storeLocal _).bind fun slot => (work_onCode _).bind fun first => ?_
  refine (work_bindName _).bind fun _ => (work_compileBody hh _).bind fun _ => ?_
  refine (work_storeResult _).bind fun _ => (work_onCode _).bind fun last => ?_
  exact (work_describe _ _).bind fun _ => work_pure _

theorem work_compilePending (t : TryFrame) (ranges : List (Label × Label)) :
    Work (compilePending h t ranges) := by
  refine work_ite ?_ (work_pure _)
  refine (work_onCode _).bind fun handler => (work_forM fun _ => work_modifyCode _).bind fun _ => ?_
  refine (work_startHandler _ _ _).bind fun _ => (work_storeLocal _).bind fun pending => ?_
  refine (work_compileFinally hh _).bind fun _ => (work_emit _).bind fun _ => ?_
  exact (work_emit _).bind fun _ => work_modifyCode _

theorem work_compileRegions (parts : TryParts) (t : TryFrame) : Work (compileRegions h parts t) := by
  refine (work_onCode _).bind fun first => (work_compileBody hh _).bind fun _ => ?_
  refine (work_storeResult _).bind fun _ => (work_onCode _).bind fun last => ?_
  refine (work_leaveTry hh _).bind fun through => ?_
  refine (work_mapM fun c => work_compileCatch hh _ _ _).bind fun caught => ?_
  exact (work_compilePending hh _ _).bind fun _ => work_pure _

theorem work_compileTry (d : Datum) : Work (compileTry h d) := by
  refine work_world.bind fun w => (work_ofExcept _).bind fun parts => ?_
  refine work_isUnreachable.bind fun _ => work_ite (work_pure _) ?_
  refine work_stack.bind fun stack => (work_onCode _).bind fun result => ?_
  refine (work_onCode _).bind fun after => ?_
  refine (work_withinTry (work_compileRegions hh _ _)).bind fun reachable => ?_
  refine (work_modifyStack _).bind fun _ => work_ite ?_ ?_
  · exact (work_modifyCode _).bind fun _ => (work_emit _).bind fun _ => work_modifyCode _
  · exact (work_modifyStack _).bind fun _ => work_modifyCode _

end Exceptions

/-! ### Templates -/

section Templates

theorem work_qualify (name : String) : Work (Template.qualify name) := by
  refine work_ite (Work.occurrence name) (work_ite (work_pure _) ?_)
  exact work_world.bind fun _ => work_pure _

mutual

theorem work_qualifyDatum : ∀ (d : Datum), Work (Template.qualifyDatum d)
  | .atom a _ => by
    cases a with
    | symbol name => exact (work_qualify _).bind fun _ => work_pure _
    | _ => exact work_pure _
  | .list items _ => (work_qualifyData items).bind fun _ => work_pure _
  | .vector items _ => (work_qualifyData items).bind fun _ => work_pure _
  | .set items _ => (work_qualifyData items).bind fun _ => work_pure _
  | .map entries _ => (work_qualifyEntries entries).bind fun _ => work_pure _

theorem work_qualifyData : ∀ (ds : List Datum), Work (Template.qualifyData ds)
  | [] => work_pure _
  | d :: ds => (work_qualifyDatum d).bind fun _ => (work_qualifyData ds).bind fun _ => work_pure _

theorem work_qualifyEntries : ∀ (es : List (Datum × Datum)),
    Work (Template.qualifyEntries es)
  | [] => work_pure _
  | (k, v) :: es => (work_qualifyDatum k).bind fun _ => (work_qualifyDatum v).bind fun _ =>
      (work_qualifyEntries es).bind fun _ => work_pure _

end

theorem work_constantElement (d : Datum) : Work (Template.constantElement d) := by
  unfold Template.constantElement
  split
  · exact (work_qualify _).bind fun _ => work_pure _
  · exact work_ofExcept _
  · exact (work_qualifyDatum _).bind fun _ => work_pure _

/-- An element that is kept as a constant. -/
theorem work_planConstant (d : Datum) :
    Work (do return (Template.Plan.constant (← Template.constantElement d), false)) :=
  (work_constantElement d).bind fun _ => work_pure _

mutual

theorem work_plan : ∀ (d : Datum), Work (Template.plan d)
  | .atom a i => work_planConstant (.atom a i)
  | .list items i => by
    unfold Template.plan
    split
    · exact work_pure _
    · exact work_ite ((work_planAll items).bind fun _ => work_pure _) (work_planConstant _)
  | .vector items i =>
    work_ite ((work_planAll items).bind fun _ => work_pure _) (work_planConstant _)
  | .set items i =>
    work_ite ((work_planAll items).bind fun _ => work_pure _) (work_planConstant _)
  | .map entries i =>
    work_ite ((work_planEntries entries).bind fun _ => work_ite (work_fail _) (work_pure _))
      (work_planConstant _)

theorem work_planAll : ∀ (ds : List Datum), Work (Template.planAll ds)
  | [] => work_pure _
  | d :: ds => (work_plan d).bind fun _ => (work_planAll ds).bind fun _ => work_pure _

theorem work_planEntries : ∀ (es : List (Datum × Datum)),
    Work (Template.planEntries es)
  | [] => work_pure _
  | (k, v) :: es => (work_plan k).bind fun _ => (work_plan v).bind fun _ =>
      (work_planEntries es).bind fun _ => work_pure _

end

mutual

theorem work_emitPlan {h : Handlers} (hh : Working h) :
    ∀ (d : Datum) (p : Template.Plan), Work (Template.emitPlan h d p)
  | d, .constant c => work_emitForm d (work_emitConstant c)
  | d, .compute inner => work_emitForm d (hh.compile inner)
  | d, .build _ items _ =>
    work_emitForm d <| (work_withTail _ (work_emitPlans hh items)).bind fun _ =>
      work_ite (work_emit _) (work_emit _)

theorem work_emitPlans {h : Handlers} (hh : Working h) :
    ∀ (ps : List (Datum × Template.Plan × Bool)),
      Work (Template.emitPlans h ps)
  | [] => work_pure _
  | (d, p, _) :: ps =>
    (work_emitPlan hh d p).bind fun _ => work_boxTop.bind fun _ => work_emitPlans hh ps

end

theorem work_compileTemplate {h : Handlers} (hh : Working h) (d : Datum) :
    Work (Template.compile h d) := by
  refine (work_ofExcept _).bind fun template => Work.template ?_
  refine (work_plan template).bind fun (p, splice) => ?_
  exact work_ite ((work_fail _).bind fun _ => work_emitPlan hh _ _) (work_emitPlan hh _ _)

end Templates

/-! ### Members -/

section Members

theorem work_classArg (d : Datum) : Work (classArg d) := by
  unfold classArg
  split
  · exact work_fail _
  · refine work_world.bind fun w => ?_
    split
    · exact work_pure _
    · refine (work_lookup _).bind fun r => ?_
      split
      · exact work_pure _
      · exact work_fail _

theorem work_emitSite (kind : SiteKind) (argTypes : List Ty) (ret : Ty) (d : Datum) :
    Work (emitSite kind argTypes ret d) :=
  work_emitCall _

theorem work_topTypes (k : Nat) : Work (topTypes k) := work_stack.bind fun _ => work_ofExcept _

theorem work_newParts (d : Datum) : Work (newParts d) := by
  unfold newParts
  split
  · exact work_fail _
  · exact (work_classArg _).bind fun _ => work_ite (work_fail _) (work_pure _)

theorem work_staticTarget? (target : Datum) : Work (staticTarget? target) := by
  unfold staticTarget?
  split
  · exact work_pure _
  · refine (work_lookup _).bind fun r => ?_
    split <;> exact work_pure _

theorem work_instanceTestParts (d : Datum) : Work (instanceTestParts d) := by
  unfold instanceTestParts
  split
  · exact (work_classArg _).bind fun _ => work_pure _
  · exact work_fail _

variable {h : Handlers} (hh : Working h)

include hh

theorem work_compileNew (d : Datum) : Work (compileNew h d) := by
  refine (work_newParts d).bind fun (c, args) => (work_compileArgs hh _).bind fun _ => ?_
  refine work_isUnreachable.bind fun _ => work_ite (work_pure _) ?_
  refine (work_topTypes _).bind fun argTypes => work_registry.bind fun r => ?_
  split
  · exact work_emit _
  · exact work_emitSite _ _ _ _
  · exact work_fail _

theorem work_compileStaticCall (d : Datum) (c : ClassInfo) (m : Member) :
    Work (compileStaticCall h d c m) := by
  refine work_registry.bind fun r => (work_compileArgs hh _).bind fun _ => ?_
  refine work_isUnreachable.bind fun _ => work_ite (work_pure _) ?_
  refine (work_topTypes _).bind fun argTypes => work_registry.bind fun r' => ?_
  split
  · exact work_emitSite _ _ _ _
  · exact work_emitSite _ _ _ _
  · exact (work_fail _).bind fun _ => work_emitSite _ _ _ _

theorem work_compileStaticMember (d : Datum) (c : ClassInfo) (m : Member) :
    Work (compileStaticMember h d c m) := by
  refine work_registry.bind fun r => ?_
  split
  · exact work_emit _
  · exact work_fail _
  · exact work_compileStaticCall hh _ _ _

theorem work_compileInstanceMember (d : Datum) (m : Member) : Work (compileInstanceMember h d m) := by
  refine (work_compileBoxed hh _).bind fun _ => work_topType?.bind fun receiver => ?_
  split
  · refine work_isUnreachable.bind fun _ => work_ite (work_pure _) ?_
    exact work_registry.bind fun _ => (work_topTypes _).bind fun _ => work_emitSite _ _ _ _
  · refine (work_compileArgs hh _).bind fun _ => ?_
    refine work_isUnreachable.bind fun _ => work_ite (work_pure _) ?_
    exact (work_topTypes _).bind fun _ => work_registry.bind fun _ => work_emitSite _ _ _ _

theorem work_compileDot (d : Datum) : Work (compileDot h d) := by
  refine (work_ofExcept _).bind fun m => (work_staticTarget? _).bind fun c => ?_
  split
  · exact work_compileStaticMember hh _ _ _
  · exact work_compileInstanceMember hh _ _

theorem work_compileInstanceTest (d : Datum) : Work (compileInstanceTest h d) :=
  (work_instanceTestParts d).bind fun _ => (work_compileBoxed hh _).bind fun _ => work_emit _

end Members

/-! ### Definitions and namespaces -/

section Definitions

theorem nameless_intern (w : World) (space name : String) : Nameless w (w.intern space name).2 := by
  rcases w.intern_cases space name with h | h <;> rw [h]
  · exact .refl w
  · exact nameless_of_eq rfl rfl rfl rfl

theorem work_intern (space name : String) : Work (FormM.lift (Action.change fun w => w.intern space name)) :=
  work_lift fun w => nameless_intern w space name

theorem work_internTarget (target : Datum) (name : String) : Work (internTarget target name) := by
  refine work_world.bind fun w => ?_
  split
  · exact (work_pure _).bind fun _ => work_intern _ _
  · refine work_ite ((work_pure _).bind fun _ => work_intern _ _) ?_
    exact (work_fail _).bind fun _ => work_intern _ _

theorem work_namedVar (d : Datum) : Work (namedVar d) := by
  unfold namedVar
  split
  · split
    · exact work_fail _
    · refine (work_lookup _).bind fun r => ?_
      split
      · exact work_pure _
      · exact work_fail _
  · exact work_fail _

theorem work_compileVar (d : Datum) : Work (compileVar d) :=
  (work_namedVar d).bind fun _ => work_emit _

theorem work_importAll (specs : List Datum) : Work (importAll specs) := by
  induction specs with
  | nil => exact work_pure _
  | cons spec rest ih =>
    refine (work_ofExcept _).bind fun names => ?_
    refine ((work_forM work_importClass).atSpan _).bind fun _ => ?_
    exact ih.bind fun _ => work_pure _

theorem work_emitImports (names : List String) : Work (emitImports names) := by
  induction names with
  | nil => exact work_emitConstant _
  | cons full rest ih =>
    cases rest with
    | nil => exact work_emit _
    | cons _ _ => exact (work_emit _).bind fun _ => work_popValue.bind fun _ => ih

theorem work_compileImport (d : Datum) : Work (compileImport d) :=
  (work_importAll _).bind fun _ => work_emitImports _

theorem work_enterSpace (name : String) : Work (enterSpace name) :=
  .machine (Machine.runs_modify fun _ => .enter name)

theorem work_compileInSpace (d : Datum) : Work (compileInSpace d) :=
  (work_ofExcept _).bind fun _ => (work_enterSpace _).bind fun _ => work_emit _

theorem work_require (d : Datum) (space : String) (target : String × Option String) :
    Work (require d space target) := by
  refine work_world.bind fun w => work_ite (work_fail _) ?_
  split
  · exact work_lift fun _ => nameless_of_eq rfl rfl rfl rfl
  · exact work_pure _

theorem work_enterForm (d : Datum) (form : SpaceForm) : Work (enterForm d form) :=
  (work_enterSpace _).bind fun _ => (work_forM fun _ => work_require _ _ _).bind fun _ => work_importAll _

theorem work_compileSpaceForm (d : Datum) : Work (compileSpaceForm d) := by
  refine (work_ofExcept _).bind fun form => (work_enterForm _ _).bind fun imported => ?_
  refine (work_emit _).bind fun _ => work_forM fun full => ?_
  exact (work_emit _).bind fun _ => work_popValue

variable {h : Handlers} (hh : Working h)

include hh

theorem work_compileDef (d : Datum) : Work (compileDef h d) := by
  refine (work_ofExcept _).bind fun p => (work_internTarget _ _).bind fun v => ?_
  split
  · exact (work_compileBoxed hh _).bind fun _ => work_emit _
  · exact work_emit _

theorem work_compileFieldAssignment (binding : Binding) (field : String) (value : Datum) :
    Work (compileFieldAssignment h binding field value) := by
  refine work_loadThis.bind fun owner => (work_compileAside hh _).bind fun _ => ?_
  refine ((work_coerceTop _).atSpan _).bind fun _ => (work_onCode _).bind fun temp => ?_
  refine (work_emit _).bind fun _ => (work_emit _).bind fun _ => (work_emit _).bind fun _ => ?_
  exact (work_emit _).bind fun _ => work_modifyCode _

theorem work_compileSet (d : Datum) : Work (compileSet h d) := by
  refine (work_ofExcept _).bind fun (target, name, value) => (work_resolve _).bind fun r => ?_
  split
  · refine work_world.bind fun w => (work_ofExcept _).bind fun _ => ?_
    exact (work_compileBoxed hh _).bind fun _ => work_emit _
  · refine work_ite ?_ (work_fail _)
    split
    · exact work_compileFieldAssignment hh _ _ _
    · exact work_fail _
  · exact work_fail _

end Definitions

/-! ### Methods -/

section Methods

theorem work_bindReceiver (cls : String) (p : MethodPlan) : Work (bindReceiver cls p) := by
  refine (work_forM fun f => work_bindName _).bind fun _ => ?_
  split
  · exact work_bindName _
  · exact work_pure _

theorem work_emitReturn (cls : String) (p : MethodPlan) : Work (emitReturn cls p) := by
  refine work_topType?.bind fun ty => ?_
  split
  · exact work_pure _
  · refine work_registry.bind fun r => ?_
    split
    · exact (work_emitAll _).bind fun _ => work_emit _
    · exact work_world.bind fun _ => work_fail _

theorem work_withMethodLoop (p : MethodPlan) (head : Label) {x : FormM α} (hx : Work x) :
    Work (withMethodLoop p head x) :=
  work_ite (work_withLoop _ hx) hx

theorem given_registerFile (file : ClassFile) (w : World) :
    (Machine.worldAfter (Machine.registerFile file w)).counter = w.counter ∧
      (Machine.worldAfter (Machine.registerFile file w)).given = w.given := by
  rw [Machine.registerFile, State.bind_of_ok (State.get_eq w)]
  cases w.registry.register (Machine.classInfo file w.sites.size) <;> exact ⟨rfl, rfl⟩

theorem nameless_defineImage [Libraries] (bytes : List UInt8) (w : World) :
    Nameless w (Machine.worldAfter (Machine.defineImage bytes w)) := by
  suffices h : (Machine.worldAfter (Machine.defineImage bytes w)).counter = w.counter ∧
      (Machine.worldAfter (Machine.defineImage bytes w)).given = w.given from
    ⟨h.1, h.2, World.records_defineImage bytes w⟩
  rw [Machine.defineImage]
  cases ClassFile.ofBytes bytes with
  | error e => exact ⟨rfl, rfl⟩
  | ok loaded =>
    rw [State.bind_of_ok (Action.ofExcept_ok loaded w), State.bind_of_ok (State.get_eq w)]
    split
    · cases Verifier.checkClass loaded with
      | error e => exact ⟨rfl, rfl⟩
      | ok u => exact given_registerFile loaded w
    · exact given_registerFile loaded w

theorem work_loadClass [Libraries] (file : ClassFile) : Work (loadClass file) :=
  work_lift fun w => nameless_defineImage file.toBytes w

theorem work_newFile (name superclass : String) : Work (newFile name superclass) :=
  work_world.bind fun _ => work_pure _

theorem work_spaceStem : Work spaceStem := work_world.bind fun _ => work_pure _

theorem work_typeName (name : Datum) : Work (typeName name) := by
  unfold typeName
  split
  · exact work_spaceStem.bind fun _ => work_pure _
  · exact work_fail _

theorem work_typeField (field : Datum) : Work (typeField field) := by
  unfold typeField
  split
  · exact (work_resolveHint _).bind fun _ => (work_ofExcept _).bind fun _ => work_pure _
  · exact (work_pure _).bind fun _ => (work_ofExcept _).bind fun _ => work_pure _

theorem work_announce (full : String) (interfaces : List String) (fields : List FieldBinding) :
    Work (announce full interfaces fields) := by
  refine .still fun s => ?_
  unfold announce
  rw [State.bind_of_ok (show FormM.registry s = .ok s.world.registry s from rfl)]
  cases hregister : s.world.registry.register (announcement full interfaces fields) with
  | error e => exact .refl s
  | ok made =>
    have hregistered : Nameless s.world { s.world with registry := made.2 } :=
      ⟨rfl, rfl, World.records_of_register hregister rfl rfl⟩
    have himport := (still_importClass full { s with world := { s.world with registry := made.2 } })
    exact ⟨hregistered.trans himport.world, himport.templates, himport.classes⟩

theorem work_loadCaptures (captures : List Capture) (span : Span) :
    Work (loadCaptures captures span) :=
  work_withTail _ (work_forM fun _ => work_compileName _ _)

variable {h : Handlers} (hh : Working h)

include hh

theorem work_compileMethodBody (cls : String) (p : MethodPlan) :
    Work (compileMethodBody h cls p) := by
  refine work_withScope _ ((work_bindReceiver _ _).bind fun _ => work_withScope _ ?_)
  refine (work_onCode _).bind fun first => (work_forM fun _ => work_bindName _).bind fun _ => ?_
  refine (work_withMethodLoop _ _ (work_withTail _ (work_compileBody hh _))).bind fun _ => ?_
  refine (work_emitReturn _ _).bind fun _ => (work_onCode _).bind fun last => ?_
  exact work_forM fun _ => work_describe _ _

theorem work_buildMethod (owner : Nat) (p : MethodPlan) : Work (buildMethod h owner p) := by
  refine work_get.bind fun s => ?_
  split
  · exact work_fail _
  · refine (work_withMethod _ (work_compileMethodBody hh _ _)).bind fun (_, context) => ?_
    refine (work_ofExcept _).bind fun code => ?_
    refine work_modify (still_modifyClasses (fun c => ?_) owner)
    rfl

theorem work_buildClass (file : ClassFile) (mode : ClassMode) (methods : List (Registry → MethodPlan))
    (plan : ConstructorPlan) : Work (buildClass h file mode methods plan) := by
  refine (work_withClass _ fun owner => ?_).bind fun (_, context) => ?_
  · exact work_forM fun m => work_registry.bind fun _ => work_buildMethod hh _ _
  · exact (work_ofExcept _).bind fun _ => work_pure _

/-! ### Functions, types and proxies -/

theorem work_buildFn (d : Datum) : Work (buildFn h d) := by
  refine (work_ofExcept _).bind fun (name, arities) => (Work.cls (.fn name)).bind fun _ => ?_
  exact (work_newFile _ _).bind fun file => work_buildClass hh _ _ _ _

theorem work_defineFn [Libraries] (d : Datum) : Work (defineFn h d) :=
  (work_buildFn hh d).bind fun _ => (work_loadClass _).bind fun _ => work_pure _

theorem work_compileFn [Libraries] (d : Datum) : Work (compileFn h d) :=
  (work_defineFn hh d).bind fun _ => (work_loadCaptures _ _).bind fun _ => work_emit _

theorem work_buildType (full : String) (interfaces : List String) (fields : List FieldBinding)
    (methods : List TypeMethod) : Work (buildType h full interfaces fields methods) := by
  refine ((work_newFile _ _).bind fun _ => work_pure _).bind fun file => ?_
  exact (work_buildClass hh _ _ _ _).bind fun _ => work_pure _

theorem work_defineType [Libraries] (d : Datum) : Work (defineType h d) := by
  unfold defineType
  split
  · refine (work_typeName _).bind fun full => ?_
    split
    · exact work_fail _
    · refine (work_mapM work_typeField).bind fun fields => work_world.bind fun w => ?_
      refine (work_ofExcept _).bind fun (interfaces, methods) => ?_
      refine .redefining full (work_announce _ _ _) ?_ fun cls => (work_importClass _).bind fun _ => work_pure _
      exact (work_buildType hh _ _ _ _).bind fun _ => work_loadClass _
  · exact work_fail _

theorem work_compileType [Libraries] (d : Datum) : Work (compileType h d) :=
  (work_defineType hh d).bind fun _ => work_emit _

theorem work_buildProxy (d : Datum) : Work (buildProxy h d) := by
  refine (work_ofExcept _).bind fun (classes, args, specs) => work_world.bind fun w => ?_
  refine (work_ofExcept _).bind fun (superclass, interfaces) => (work_ofExcept _).bind fun init => ?_
  refine (work_ofExcept _).bind fun methods => ?_
  refine (Work.cls .proxy).bind fun _ => (work_newFile _ _).bind fun file => ?_
  exact (work_buildClass hh _ _ _ _).bind fun _ => work_pure _

theorem work_defineProxy [Libraries] (d : Datum) : Work (defineProxy h d) :=
  (work_buildProxy hh d).bind fun _ => (work_loadClass _).bind fun _ => work_pure _

theorem work_compileFixedArgs (args : List (Datum × Ty)) : Work (compileFixedArgs h args) :=
  work_forM fun _ => (hh.compile _).bind fun _ => (work_coerceTop _).atSpan _

theorem work_compileSuperArgs (m : Method) (args : List Datum) :
    Work (compileSuperArgs h m args) := by
  refine work_withTail _ (work_ite ?_ (work_compileFixedArgs hh _))
  split
  · exact work_fail _
  · refine (work_compileFixedArgs hh _).bind fun _ => (work_compileBoxedEach hh _).bind fun _ => ?_
    refine work_isUnreachable.bind fun _ => work_ite (work_pure _) ?_
    refine work_stack.bind fun stack => (work_ofExcept _).bind fun types => ?_
    refine work_registry.bind fun r => ?_
    split
    · exact work_coerceTop _
    · exact work_emit _

theorem work_compileProxy [Libraries] (d : Datum) : Work (compileProxy h d) := by
  refine (work_defineProxy hh d).bind fun p => (work_compileSuperArgs hh _ _).bind fun _ => ?_
  exact (work_loadCaptures _ _).bind fun _ => work_emit _

end Methods

theorem nameless_defineDispatcher (w : World) (method : String) : Nameless w (defineDispatcher w method) := by
  have hcounted : Nameless w { w with dispatchers := w.dispatchers + 1 } := nameless_of_eq rfl rfl rfl rfl
  exact (hcounted.trans (nameless_intern _ _ _)).trans (nameless_of_eq rfl rfl rfl rfl)

theorem nameless_dispatchers (methods : List (String × List Nat)) (w : World) :
    Nameless w (methods.foldl (fun w m => defineDispatcher w m.1) w) := by
  induction methods generalizing w with
  | nil => exact .refl w
  | cons m rest ih => exact (nameless_defineDispatcher w m.1).trans (ih _)

theorem work_defineProtocol [Libraries] (d : Datum) : Work (defineProtocol d) := by
  unfold defineProtocol
  split
  · exact work_fail _
  · refine (work_typeName _).bind fun full => (work_ofExcept _).bind fun methods => ?_
    refine (work_newFile _ _).bind fun file => (work_loadClass _).bind fun cls => ?_
    refine (work_importClass _).bind fun _ => Work.bind (work_lift fun w => ?_) fun _ => work_pure _
    exact nameless_dispatchers methods w

/-! ### All forms -/

section Forms

variable {h : Handlers} (hh : Working h)

theorem work_calleeOf (head : Datum) : Work (calleeOf head) := by
  unfold calleeOf
  split
  · exact work_pure _
  · refine (work_lookup _).bind fun r => ?_
    split
    · refine work_world.bind fun w => ?_
      split <;> exact work_pure _
    · exact work_pure _
    · exact work_fail _

theorem work_analyseCall [Libraries] {call : Caller} (hcall : ∀ q, Machine.Runs (call q)) (head d : Datum) :
    Work (analyseCall call head d) := by
  refine (work_expand hcall d).bind fun (expansion, _) => work_ite (work_pure _) ?_
  refine (work_calleeOf head).bind fun callee => ?_
  split
  · exact (work_ofExcept _).bind fun _ => work_pure _
  · exact work_pure _
  · exact work_pure _
  · exact work_pure _

theorem work_analyse [Libraries] {call : Caller} (hcall : ∀ q, Machine.Runs (call q)) (d : Datum) : Work
    (analyse call d) := by
  refine Work.atSpan ?_ _
  split
  · exact work_pure _
  · exact (work_ofExcept _).bind fun _ => work_pure _
  · exact work_pure _
  · exact work_analyseCall hcall _ _
  · split <;> exact work_pure _

include hh

theorem work_compileSpecial [Libraries] (f : SpecialForm) (d : Datum) : Work (compileSpecial h f d) := by
  cases f with
  | quote => exact (work_ofExcept _).bind fun _ => work_emitConstant _
  | syntaxQuote => exact work_compileTemplate hh d
  | unquote => exact work_fail _
  | unquoteSplicing => exact work_fail _
  | ifForm => exact work_compileIf hh d
  | doForm => exact work_compileBody hh _
  | letForm => exact work_compileLet hh d
  | loopForm => exact work_compileLoop hh d
  | recurForm => exact work_compileRecur hh d
  | caseForm => exact work_compileCase hh d
  | throwForm => exact work_compileThrow hh d
  | tryForm => exact work_compileTry hh d
  | fnForm => exact work_compileFn hh d
  | typeForm => exact work_compileType hh d
  | protocolForm => exact (work_defineProtocol d).bind fun _ => work_emit _
  | proxyForm => exact work_compileProxy hh d
  | newForm => exact work_compileNew hh d
  | dotForm => exact work_compileDot hh d
  | instanceForm => exact work_compileInstanceTest hh d
  | defForm => exact work_compileDef hh d
  | defMacro => exact (work_ofExcept _).bind fun _ => hh.compile _
  | setForm => exact work_compileSet hh d
  | varForm => exact work_compileVar d
  | nsForm => exact work_compileSpaceForm d
  | inNsForm => exact work_compileInSpace d
  | importForm => exact work_compileImport d

theorem work_compileGlobalCall (d : Datum) (v : VarRef) : Work (compileGlobalCall h d v) := by
  refine (work_compileArgs hh _).bind fun _ => work_isUnreachable.bind fun _ => ?_
  refine work_ite (work_pure _) ((work_topTypes _).bind fun argTypes => ?_)
  exact work_world.bind fun _ => work_emitSite _ _ _ _

theorem work_compileCall (d : Datum) : Work (compileCall h d) := by
  refine (work_compileArgs hh _).bind fun _ => work_isUnreachable.bind fun _ => ?_
  exact work_ite (work_pure _) ((work_topTypes _).bind fun _ => work_emitCall _)

/-- Compiling a form is made up in the known ways if working on its parts is. -/
theorem work_compileForm [Libraries] (d : Datum) : Work (compileForm h d) := by
  refine (work_analyse hh.call d).bind fun a => work_emitForm d ?_
  split
  · exact work_emitConstant _
  · exact work_compileSymbol d
  · exact work_compileCollection hh d
  · exact hh.compile _
  · exact work_compileSpecial hh _ d
  · exact work_compileGlobalCall hh d _
  · exact work_compileCall hh d

end Forms

end LispMachine.Naming
