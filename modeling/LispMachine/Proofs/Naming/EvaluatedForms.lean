import LispMachine.Proofs.Naming.CompiledForms

/-! # Work on evaluated forms

Evaluation runs code wherever something is called, and the code may make up names of its own.  The class of a function
is made once for a form, however often the form is evaluated.  With this, work on any form, compiled or evaluated, is
made up in the known ways: `working_handlers`. -/

namespace LispMachine.Naming

open Form

/-! ### Forms in sequence -/

section Forms

theorem work_evaluateName (name : String) : Work (evaluateName name) := by
  refine (work_resolve name).bind fun r => ?_
  split
  · split
    · exact work_pure _
    · exact work_fail _
  · exact work_world.bind fun _ => (work_ofExcept _).bind fun _ => work_ofExcept _
  · exact work_pure _
  · exact work_pure _
  · split
    · exact work_pure _
    · exact work_fail _

theorem work_evaluateSymbol (d : Datum) : Work (evaluateSymbol d) := by
  unfold evaluateSymbol
  split
  · exact work_evaluateName _
  · exact work_fail _

theorem work_checkHint (l : LocalInit) : Work (checkHint l) := by
  unfold checkHint
  split
  · exact work_pure _
  · refine (work_resolveHint _).bind fun hinted => ?_
    split
    · exact (work_hintApplies _ _ _ _).bind fun _ => work_pure _
    · exact work_pure _

theorem work_captureValues (captures : List Capture) : Work (captureValues captures) :=
  work_mapM fun _ => work_evaluateName _

variable {h : Handlers} (hh : Working h)

include hh

theorem work_evaluateAside (d : Datum) : Work (FormM.withTail false (h.evaluate d)) :=
  work_withTail _ (hh.evaluate d)

theorem work_evaluateBody (body : List Datum) : Work (evaluateBody h body) := by
  induction body with
  | nil => exact work_pure _
  | cons d rest ih =>
    cases rest with
    | nil => exact hh.evaluate d
    | cons _ _ => exact (work_evaluateAside hh d).bind fun _ => ih

theorem work_evaluateEach (args : List Datum) : Work (evaluateEach h args) := by
  induction args with
  | nil => exact work_pure _
  | cons d rest ih =>
    exact (hh.evaluate d).bind fun _ => ih.bind fun _ => work_pure _

theorem work_evaluateArgs (args : List Datum) : Work (evaluateArgs h args) :=
  work_withTail _ (work_evaluateEach hh args)

theorem work_evaluateCollection (d : Datum) : Work (evaluateCollection h d) := by
  unfold evaluateCollection
  split
  · exact work_fail _
  · exact (work_evaluateArgs hh _).bind fun _ => work_ofExcept _

/-! ### Branches and locals -/

theorem work_evaluateIf (d : Datum) : Work (evaluateIf h d) := by
  refine (work_ofExcept _).bind fun (test, whenTrue, whenFalse) => ?_
  refine (work_evaluateAside hh _).bind fun v => work_ite (hh.evaluate _) ?_
  split
  · exact hh.evaluate _
  · exact work_pure _

theorem work_evaluateCase [Libraries] (d : Datum) : Work (evaluateCase h d) := by
  refine (work_ofExcept _).bind fun (subject, clauses) => (work_evaluateAside hh _).bind fun v => ?_
  dsimp only
  split
  · exact hh.evaluate _
  · exact work_world.bind fun _ => (Work.machine (Machine.runs_newInstance hh.call _ _ _)).bind fun _ => work_fail _

theorem work_evaluateLocal (l : LocalInit) : Work (evaluateLocal h l) :=
  (work_evaluateAside hh _).bind fun _ => work_bindName _

theorem work_evaluateLet (d : Datum) : Work (evaluateLet h d) := by
  refine (work_ofExcept _).bind fun (locals, body) => work_withScope _ ?_
  refine (work_forM fun l => ?_).bind fun _ => work_evaluateBody hh _
  exact (work_checkHint l).bind fun _ => work_evaluateLocal hh l

end Forms

/-! ### Loops -/

section Loops

theorem work_takeSignal : Work takeSignal := .still fun _ => ⟨.refl _, rfl, rfl⟩

theorem work_evaluateRounds {body : FormM Value} (hbody : Work body) (rounds : Nat) :
    Work (evaluateRounds body rounds) := by
  induction rounds with
  | zero => exact work_outOfFuel
  | succ rounds ih =>
    refine (work_withTail true hbody).bind fun v => work_takeSignal.bind fun signal => ?_
    split
    · exact work_pure _
    · refine work_get.bind fun s => (work_ofExcept _).bind fun scopes => ?_
      refine Work.bind (work_modify fun _ => ?_) fun _ => ih
      exact ⟨.refl _, rfl, rfl⟩

variable {h : Handlers} (hh : Working h)

include hh

theorem work_evaluateLoop (d : Datum) : Work (evaluateLoop h d) := by
  refine (work_ofExcept _).bind fun (locals, body) => work_withScope _ ?_
  refine (work_forM fun l => work_evaluateLocal hh l).bind fun _ => ?_
  refine work_tryDepth.bind fun depth => ?_
  have hrounds := work_withLoop (.evaluated locals.length depth)
    (work_evaluateRounds (work_evaluateBody hh body) h.rounds)
  exact work_enclosed id (fun _ t => { t with recurSignal := none }) (fun _ => rfl) (fun _ => hrounds)
    (fun s => .refl s) fun _ _ => ⟨.refl _, rfl, rfl⟩

theorem work_evaluateRecur (d : Datum) : Work (evaluateRecur h d) := by
  refine (work_recurTarget d _).bind fun _ => (work_evaluateArgs hh _).bind fun values => ?_
  refine Work.bind (work_modify fun _ => ?_) fun _ => work_pure _
  exact ⟨.refl _, rfl, rfl⟩

end Loops

/-! ### Exceptions -/

section Exceptions

variable {h : Handlers} (hh : Working h)

include hh

theorem work_evaluateThrow (d : Datum) : Work (evaluateThrow h d) := by
  refine (work_ofExcept _).bind fun value => ?_
  refine (work_evaluateAside hh value).bind fun v => ?_
  split
  · exact work_fail _
  · exact work_fail _

theorem work_evaluateProtected (parts : TryParts) : Work (evaluateProtected h parts) := by
  refine (work_attempt (work_evaluateBody hh _)).bind fun outcome => ?_
  split
  · exact work_pure _
  · refine work_ite ?_ (work_fail _)
    refine (Work.machine (Machine.runs_exceptionOf hh.call _)).bind fun exception => work_registry.bind fun r => ?_
    split
    · exact work_fail _
    · exact work_withScope _ ((work_bindName _).bind fun _ => work_evaluateBody hh _)

theorem work_evaluateTry (d : Datum) : Work (evaluateTry h d) := by
  refine work_world.bind fun w => (work_ofExcept _).bind fun parts => ?_
  refine Work.bind (work_modify fun _ => ?_) fun _ => ?_
  · exact ⟨.refl _, rfl, rfl⟩
  refine (work_attempt (work_evaluateProtected hh parts)).bind fun outcome => ?_
  refine Work.bind (work_modify fun _ => ?_) fun _ => ?_
  · exact ⟨.refl _, rfl, rfl⟩
  split
  · exact (work_withTail _ (work_evaluateBody hh _)).bind fun _ => work_ofExcept _
  · exact work_ofExcept _

end Exceptions

/-! ### Templates -/

section Templates

mutual

theorem work_evaluateElement [Libraries] {h : Handlers} (hh : Working h) :
    ∀ d : Datum, Work (Template.evaluateElement h d)
  | .atom a i => by
    cases a with
    | symbol name => exact (work_qualify name).bind fun _ => work_pure _
    | _ => exact work_pure _
  | .list items i => by
    unfold Template.evaluateElement
    split
    · exact (work_evaluateAside hh _).bind fun _ => work_pure _
    · exact (work_evaluateItems hh items).bind fun _ => work_pure _
  | .vector items _ => (work_evaluateItems hh items).bind fun _ => work_pure _
  | .set items _ => (work_evaluateItems hh items).bind fun _ => work_pure _
  | .map entries _ => (work_evaluateEntries hh _ entries).bind fun _ => work_pure _

theorem work_evaluateItems [Libraries] {h : Handlers} (hh : Working h) :
    ∀ ds : List Datum, Work (Template.evaluateItems h ds)
  | [] => work_pure _
  | d :: ds => by
    refine (work_evaluateElement hh d).bind fun (v, splice) => ?_
    have hrest : ∀ vs, Work (do return vs ++ (← Template.evaluateItems h ds)) :=
      fun vs => (work_evaluateItems hh ds).bind fun _ => work_pure _
    refine work_ite ?_ (hrest _)
    split
    · exact hrest _
    · exact (work_fail _).bind fun vs => hrest vs

theorem work_evaluateEntries [Libraries] {h : Handlers} (hh : Working h)
    (misplaced : Error) :
    ∀ es : List (Datum × Datum), Work (Template.evaluateEntries h misplaced es)
  | [] => work_pure _
  | (k, v) :: es => by
    refine (work_evaluateElement hh k).bind fun (key, keySplice) => ?_
    refine (work_evaluateElement hh v).bind fun (value, valueSplice) => ?_
    have hrest : Work
        (do return (key, value) :: (← Template.evaluateEntries h misplaced es)) :=
      (work_evaluateEntries hh misplaced es).bind fun _ => work_pure _
    exact work_ite ((work_fail _).bind fun _ => hrest) hrest

end

theorem work_evaluateTemplate [Libraries] {h : Handlers} (hh : Working h)
    (d : Datum) : Work (Template.evaluate h d) := by
  refine (work_ofExcept _).bind fun template => Work.template ?_
  refine (work_evaluateElement hh template).bind fun (v, splice) => ?_
  exact work_ite ((work_fail _).bind fun _ => work_pure _) (work_pure _)

end Templates

/-! ### Functions, types and definitions -/

section Definitions

theorem work_evaluateProtocol [Libraries] (d : Datum) : Work (evaluateProtocol d) :=
  (work_defineProtocol d).bind fun _ => work_pure _

theorem work_evaluateInSpace (d : Datum) : Work (evaluateInSpace d) :=
  (work_ofExcept _).bind fun _ => (work_enterSpace _).bind fun _ => work_pure _

theorem work_evaluateImport (d : Datum) : Work (evaluateImport d) := by
  refine (work_importAll _).bind fun names => ?_
  split <;> exact work_pure _

theorem work_evaluateSpaceForm (d : Datum) : Work (evaluateSpaceForm d) :=
  (work_ofExcept _).bind fun form => (work_enterForm d form).bind fun _ => work_pure _

variable {h : Handlers} (hh : Working h)

include hh

theorem work_interpretedFn [Libraries] (d : Datum) : Work (interpretedFn h d) := by
  refine work_world.bind fun w => work_get.bind fun s => work_get.bind fun s' => ?_
  split
  · exact work_pure _
  · refine (work_defineFn hh d).bind fun (cls, captures) => ?_
    refine Work.bind (work_modify fun _ => ?_) fun _ => work_pure _
    exact ⟨.refl _, rfl, rfl⟩

theorem work_evaluateFn [Libraries] (d : Datum) : Work (evaluateFn h d) :=
  (work_interpretedFn hh d).bind fun _ => (work_captureValues _).bind fun _ =>
    .machine (Machine.runs_newInstance hh.call _ _ _)

theorem work_evaluateType [Libraries] (d : Datum) : Work (evaluateType h d) :=
  (work_defineType hh d).bind fun _ => work_pure _

theorem work_evaluateProxy [Libraries] (d : Datum) : Work (evaluateProxy h d) := by
  refine (work_defineProxy hh d).bind fun p => ?_
  refine (work_evaluateArgs hh _).bind fun values => ?_
  exact work_registry.bind fun _ => (work_captureValues _).bind fun _ =>
    .machine (Machine.runs_newInstance hh.call _ _ _)

theorem work_evaluateDef (d : Datum) : Work (evaluateDef h d) := by
  refine (work_ofExcept _).bind fun p => ?_
  refine (work_internTarget _ _).bind fun v => ?_
  have hrest : ∀ value, Work (do
      FormM.lift (modify fun w => w.define v value (.ofFlags p.target.flags))
      return Value.var v) :=
    fun value => (Work.machine (Machine.runs_modify fun _ => .define v value _)).bind fun _ => work_pure _
  split
  · exact ((work_evaluateAside hh _).map some).bind fun value => hrest value
  · exact hrest none

theorem work_evaluateSet (d : Datum) : Work (evaluateSet h d) := by
  refine (work_ofExcept _).bind fun (target, name, value) => ?_
  refine (work_resolve name).bind fun r => ?_
  split
  · refine work_world.bind fun w => (work_ofExcept _).bind fun _ => ?_
    refine (work_evaluateAside hh value).bind fun result => ?_
    exact (Work.machine (Machine.runs_modify fun _ => .bind _ result)).bind fun _ => work_pure _
  · exact work_fail _

/-! ### Members -/

omit hh in
theorem runs_instantiate {call : Caller} (hcall : ∀ q, Machine.Runs (call q)) (c : ClassInfo) (args : List Value) :
    Machine.Runs (Machine.instantiate call c args) :=
  Machine.runs_bind Machine.runs_get fun _ => Machine.runs_bind (Machine.runs_ofExcept _) fun _ =>
    Machine.runs_newInstance hcall _ _ _

omit hh in
theorem runs_callStatic {call : Caller} (hcall : ∀ q, Machine.Runs (call q)) (cls name : String) (args : List Value) :
    Machine.Runs (Machine.callStatic call cls name args) :=
  Machine.runs_bind Machine.runs_get fun _ => Machine.runs_bind (Machine.runs_ofExcept _) fun _ => hcall _

theorem work_evaluateNew (d : Datum) : Work (evaluateNew h d) :=
  (work_newParts d).bind fun (_, _) =>
    (work_evaluateArgs hh _).bind fun _ => .machine (runs_instantiate hh.call _ _)

theorem work_evaluateStaticMember (d : Datum) (c : ClassInfo) (m : Member) :
    Work (evaluateStaticMember h d c m) := by
  refine work_registry.bind fun r => ?_
  split
  · split
    · exact work_pure _
    · exact work_fail _
  · exact work_fail _
  · exact (work_evaluateArgs hh _).bind fun _ => .machine (runs_callStatic hh.call _ _ _)

theorem work_evaluateInstanceMember (m : Member) : Work (evaluateInstanceMember h m) := by
  refine (work_evaluateAside hh _).bind fun receiver => ?_
  split
  · split
    · exact .machine (Machine.runs_read _)
    · exact work_fail _
  · exact (work_evaluateArgs hh _).bind fun _ => .machine (Machine.runs_callInstance hh.call _ _ _)

theorem work_evaluateDot (d : Datum) : Work (evaluateDot h d) := by
  refine (work_ofExcept _).bind fun m => (work_staticTarget? _).bind fun target => ?_
  split
  · exact work_evaluateStaticMember hh d _ m
  · exact work_evaluateInstanceMember hh m

theorem work_evaluateInstanceTest (d : Datum) : Work (evaluateInstanceTest h d) := by
  refine (work_instanceTestParts d).bind fun (c, value) => ?_
  refine (work_evaluateAside hh value).bind fun v => ?_
  exact work_registry.bind fun _ => work_pure _

end Definitions

/-! ### All forms -/

section AllForms

variable {h : Handlers} (hh : Working h)

include hh

theorem work_evaluateSpecial [Libraries] (f : SpecialForm) (d : Datum) : Work (evaluateSpecial h f d) := by
  cases f with
  | quote => exact (work_ofExcept _).bind fun _ => work_pure _
  | syntaxQuote => exact work_evaluateTemplate hh d
  | unquote => exact work_fail _
  | unquoteSplicing => exact work_fail _
  | ifForm => exact work_evaluateIf hh d
  | doForm => exact work_evaluateBody hh _
  | letForm => exact work_evaluateLet hh d
  | loopForm => exact work_evaluateLoop hh d
  | recurForm => exact work_evaluateRecur hh d
  | caseForm => exact work_evaluateCase hh d
  | throwForm => exact work_evaluateThrow hh d
  | tryForm => exact work_evaluateTry hh d
  | fnForm => exact work_evaluateFn hh d
  | typeForm => exact work_evaluateType hh d
  | protocolForm => exact work_evaluateProtocol d
  | proxyForm => exact work_evaluateProxy hh d
  | newForm => exact work_evaluateNew hh d
  | dotForm => exact work_evaluateDot hh d
  | instanceForm => exact work_evaluateInstanceTest hh d
  | defForm => exact work_evaluateDef hh d
  | defMacro => exact (work_ofExcept _).bind fun _ => hh.evaluate _
  | setForm => exact work_evaluateSet hh d
  | varForm => exact (work_namedVar d).bind fun _ => work_pure _
  | nsForm => exact work_evaluateSpaceForm d
  | inNsForm => exact work_evaluateInSpace d
  | importForm => exact work_evaluateImport d

theorem work_evaluateCall [Libraries] (head : Datum) (args : List Datum) (d : Datum) :
    Work (evaluateCall h head args d) := by
  refine (work_expand hh.call d).bind fun (expansion, _) => work_ite (hh.evaluate _) ?_
  refine (work_calleeOf head).bind fun callee => ?_
  split
  · exact work_evaluateSpecial hh _ d
  · refine work_world.bind fun w => (work_ofExcept _).bind fun _ => (work_ofExcept _).bind fun callee => ?_
    exact (work_evaluateArgs hh args).bind fun _ => .machine (hh.call _)
  · refine (work_evaluateAside hh head).bind fun callee => ?_
    exact (work_evaluateArgs hh args).bind fun _ => .machine (hh.call _)

/-- Evaluating a form is made up in the known ways if working on its parts is. -/
theorem work_evaluateForm [Libraries] (d : Datum) : Work (evaluateForm h d) := by
  refine Work.atSpan ?_ _
  split
  · exact work_evaluateSymbol _
  · exact work_pure _
  · exact work_pure _
  · exact work_evaluateCall hh _ _ _
  · exact work_evaluateCollection hh _

end AllForms

/-! ### All depths -/

/-- All work on forms is made up in the known ways. -/
theorem working_handlers [Libraries] (fuel : Nat) : Working (handlers fuel) := by
  induction fuel with
  | zero => exact ⟨fun _ => Machine.runs_throw _, fun _ => work_outOfFuel, fun _ => work_outOfFuel⟩
  | succ fuel ih => exact ⟨Machine.call_course fuel, work_compileForm ih, work_evaluateForm ih⟩

end LispMachine.Naming
