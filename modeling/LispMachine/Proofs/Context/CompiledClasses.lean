import LispMachine.Proofs.Context.CompiledForms

/-! # Compiling classes and what is left

Members of classes, definitions and namespaces, then methods, functions, types and proxies, whose bodies are
compiled in classes and methods of their own.  With these every special form is covered, and so is every form
that is compiled: `keeps_compileForm`. -/

namespace LispMachine.Keeping

open Form

variable {α : Type} {b n : Bool} {g : Signal}

/-! ### Members -/

section Members

theorem keeps_classArg (d : Datum) : Keeps b n g (classArg d) := by
  unfold classArg
  split
  · exact keeps_fail _
  · refine keeps_world.bind fun w => ?_
    split
    · exact keeps_pure _
    · refine (keeps_lookup _).bind fun r => ?_
      split
      · exact keeps_pure _
      · exact keeps_fail _

theorem keeps_emitSite (kind : SiteKind) (argTypes : List Ty) (ret : Ty) (d : Datum) :
    Keeps b n g (emitSite kind argTypes ret d) :=
  keeps_emitCall _

theorem keeps_topTypes (k : Nat) : Keeps b n g (topTypes k) := keeps_stack.bind fun _ => keeps_ofExcept _

theorem keeps_newParts (d : Datum) : Keeps b n g (newParts d) := by
  unfold newParts
  split
  · exact keeps_fail _
  · exact (keeps_classArg _).bind fun _ => keeps_ite (keeps_fail _) (keeps_pure _)

theorem keeps_staticTarget? (target : Datum) : Keeps b n g (staticTarget? target) := by
  unfold staticTarget?
  split
  · exact keeps_pure _
  · refine (keeps_lookup _).bind fun r => ?_
    split <;> exact keeps_pure _

theorem keeps_instanceTestParts (d : Datum) : Keeps b n g (instanceTestParts d) := by
  unfold instanceTestParts
  split
  · exact (keeps_classArg _).bind fun _ => keeps_pure _
  · exact keeps_fail _

variable {h : Handlers} (hc : ∀ d, Keeps false false .fixed (h.compile d))

include hc

theorem keeps_compileNew (d : Datum) : Keeps b n g (compileNew h d) := by
  refine (keeps_newParts d).bind fun (c, args) => (keeps_compileArgs hc _).bind fun _ => ?_
  refine keeps_isUnreachable.bind fun _ => keeps_ite (keeps_pure _) ?_
  refine (keeps_topTypes _).bind fun argTypes => keeps_registry.bind fun r => ?_
  split
  · exact keeps_emit _
  · exact keeps_emitSite _ _ _ _
  · exact keeps_fail _

theorem keeps_compileStaticCall (d : Datum) (c : ClassInfo) (m : Member) :
    Keeps b n g (compileStaticCall h d c m) := by
  refine keeps_registry.bind fun r => (keeps_compileArgs hc _).bind fun _ => ?_
  refine keeps_isUnreachable.bind fun _ => keeps_ite (keeps_pure _) ?_
  refine (keeps_topTypes _).bind fun argTypes => keeps_registry.bind fun r' => ?_
  split
  · exact keeps_emitSite _ _ _ _
  · exact keeps_emitSite _ _ _ _
  · exact (keeps_fail _).bind fun _ => keeps_emitSite _ _ _ _

theorem keeps_compileStaticMember (d : Datum) (c : ClassInfo) (m : Member) :
    Keeps b n g (compileStaticMember h d c m) := by
  refine keeps_registry.bind fun r => ?_
  split
  · exact keeps_emit _
  · exact keeps_fail _
  · exact keeps_compileStaticCall hc _ _ _

theorem keeps_compileInstanceMember (d : Datum) (m : Member) : Keeps b n g (compileInstanceMember h d m) := by
  refine (keeps_compileBoxed hc _).bind fun _ => keeps_topType?.bind fun receiver => ?_
  split
  · refine keeps_isUnreachable.bind fun _ => keeps_ite (keeps_pure _) ?_
    exact keeps_registry.bind fun _ => (keeps_topTypes _).bind fun _ => keeps_emitSite _ _ _ _
  · refine (keeps_compileArgs hc _).bind fun _ => ?_
    refine keeps_isUnreachable.bind fun _ => keeps_ite (keeps_pure _) ?_
    exact (keeps_topTypes _).bind fun _ => keeps_registry.bind fun _ => keeps_emitSite _ _ _ _

theorem keeps_compileDot (d : Datum) : Keeps b n g (compileDot h d) := by
  refine (keeps_ofExcept _).bind fun m => (keeps_staticTarget? _).bind fun c => ?_
  split
  · exact keeps_compileStaticMember hc _ _ _
  · exact keeps_compileInstanceMember hc _ _

theorem keeps_compileInstanceTest (d : Datum) : Keeps b n g (compileInstanceTest h d) :=
  (keeps_instanceTestParts d).bind fun _ => (keeps_compileBoxed hc _).bind fun _ => keeps_emit _

end Members

/-! ### Definitions and namespaces -/

section Definitions

theorem keeps_internTarget (target : Datum) (name : String) : Keeps b n g (internTarget target name) := by
  refine keeps_world.bind fun w => ?_
  split
  · exact (keeps_pure _).bind fun _ => keeps_lift _
  · refine keeps_ite ((keeps_pure _).bind fun _ => keeps_lift _) ?_
    exact (keeps_fail _).bind fun _ => keeps_lift _

theorem keeps_namedVar (d : Datum) : Keeps b n g (namedVar d) := by
  unfold namedVar
  split
  · split
    · exact keeps_fail _
    · refine (keeps_lookup _).bind fun r => ?_
      split
      · exact keeps_pure _
      · exact keeps_fail _
  · exact keeps_fail _

theorem keeps_compileVar (d : Datum) : Keeps b n g (compileVar d) :=
  (keeps_namedVar d).bind fun _ => keeps_emit _

theorem keeps_importAll (specs : List Datum) : Keeps b n g (importAll specs) := by
  induction specs generalizing g with
  | nil => exact keeps_pure _
  | cons spec rest ih =>
    refine (keeps_ofExcept _).bind fun names => ?_
    refine ((keeps_forM keeps_importClass).atSpan _).bind fun _ => ?_
    exact ih.bind fun _ => keeps_pure _

theorem keeps_emitImports (names : List String) : Keeps b n g (emitImports names) := by
  induction names with
  | nil => exact keeps_emitConstant _
  | cons full rest ih =>
    cases rest with
    | nil => exact keeps_emit _
    | cons _ _ => exact (keeps_emit _).bind fun _ => keeps_popValue.bind fun _ => ih

theorem keeps_compileImport (d : Datum) : Keeps b n g (compileImport d) :=
  (keeps_importAll _).bind fun _ => keeps_emitImports _

theorem keeps_compileInSpace (d : Datum) : Keeps b n g (compileInSpace d) :=
  (keeps_ofExcept _).bind fun _ => (keeps_lift _).bind fun _ => keeps_emit _

theorem keeps_require (d : Datum) (space : String) (target : String × Option String) :
    Keeps b n g (require d space target) := by
  refine keeps_world.bind fun w => keeps_ite (keeps_fail _) ?_
  split
  · exact keeps_lift _
  · exact keeps_pure _

theorem keeps_enterForm (d : Datum) (form : SpaceForm) : Keeps b n g (enterForm d form) :=
  (keeps_lift _).bind fun _ => (keeps_forM fun _ => keeps_require _ _ _).bind fun _ => keeps_importAll _

theorem keeps_compileSpaceForm (d : Datum) : Keeps b n g (compileSpaceForm d) := by
  refine (keeps_ofExcept _).bind fun form => (keeps_enterForm _ _).bind fun imported => ?_
  refine (keeps_emit _).bind fun _ => keeps_forM fun full => ?_
  exact (keeps_emit _).bind fun _ => keeps_popValue

variable {h : Handlers} (hc : ∀ d, Keeps false false .fixed (h.compile d))

include hc

theorem keeps_compileDef (d : Datum) : Keeps b n g (compileDef h d) := by
  refine (keeps_ofExcept _).bind fun p => (keeps_internTarget _ _).bind fun v => ?_
  split
  · exact (keeps_compileBoxed hc _).bind fun _ => keeps_emit _
  · exact keeps_emit _

theorem keeps_compileFieldAssignment (binding : Binding) (field : String) (value : Datum) :
    Keeps b n g (compileFieldAssignment h binding field value) := by
  refine keeps_loadThis.bind fun owner => (keeps_compileAside hc _).bind fun _ => ?_
  refine ((keeps_coerceTop _).atSpan _).bind fun _ => (keeps_onCode _).bind fun temp => ?_
  refine (keeps_emit _).bind fun _ => (keeps_emit _).bind fun _ => (keeps_emit _).bind fun _ => ?_
  exact (keeps_emit _).bind fun _ => keeps_modifyCode _

theorem keeps_compileSet (d : Datum) : Keeps b n g (compileSet h d) := by
  refine (keeps_ofExcept _).bind fun (target, name, value) => (keeps_resolve _).bind fun r => ?_
  split
  · refine keeps_world.bind fun w => (keeps_ofExcept _).bind fun _ => ?_
    exact (keeps_compileBoxed hc _).bind fun _ => keeps_emit _
  · refine keeps_ite ?_ (keeps_fail _)
    split
    · exact keeps_compileFieldAssignment hc _ _ _
    · exact keeps_fail _
  · exact keeps_fail _

end Definitions

/-! ### Methods -/

section Methods

theorem keeps_bindReceiver (cls : String) (p : MethodPlan) : Keeps true n g (bindReceiver cls p) := by
  refine (keeps_forM fun f => keeps_bindName _).bind fun _ => ?_
  split
  · exact keeps_bindName _
  · exact keeps_pure _

theorem keeps_emitReturn (cls : String) (p : MethodPlan) : Keeps b n g (emitReturn cls p) := by
  refine keeps_topType?.bind fun ty => ?_
  split
  · exact keeps_pure _
  · refine keeps_registry.bind fun r => ?_
    split
    · exact (keeps_emitAll _).bind fun _ => keeps_emit _
    · exact keeps_world.bind fun _ => keeps_fail _

theorem keeps_withMethodLoop (p : MethodPlan) (head : Label) {x : FormM α} (hx : Keeps b n .fixed x) :
    Keeps b n .fixed (withMethodLoop p head x) :=
  keeps_ite (keeps_withLoop _ hx) hx

theorem keeps_loadClass [Libraries] (file : ClassFile) : Keeps b n g (loadClass file) := keeps_lift _

theorem keeps_newFile (name superclass : String) : Keeps b n g (newFile name superclass) :=
  keeps_world.bind fun _ => keeps_pure _

theorem keeps_spaceStem : Keeps b n g spaceStem := keeps_world.bind fun _ => keeps_pure _

theorem keeps_generatedName (use : ClassUse) : Keeps b n g (generatedName use) :=
  keeps_spaceStem.bind fun _ => (keeps_lift _).bind fun _ => (keeps_lift _).bind fun _ => keeps_pure _

theorem keeps_typeName (name : Datum) : Keeps b n g (typeName name) := by
  unfold typeName
  split
  · exact keeps_spaceStem.bind fun _ => keeps_pure _
  · exact keeps_fail _

theorem keeps_typeField (field : Datum) : Keeps b n g (typeField field) := by
  unfold typeField
  split
  · exact (keeps_resolveHint _).bind fun _ => (keeps_ofExcept _).bind fun _ => keeps_pure _
  · exact (keeps_pure _).bind fun _ => (keeps_ofExcept _).bind fun _ => keeps_pure _

theorem keeps_announce (full : String) (interfaces : List String) (fields : List FieldBinding) :
    Keeps b n g (announce full interfaces fields) := by
  refine keeps_registry.bind fun r => (keeps_ofExcept _).bind fun _ => ?_
  exact (keeps_lift _).bind fun _ => keeps_importClass _

/-- Only the classes are put back after a failure. -/
theorem keeps_orReinstate (full : String) (previous : Option ClassInfo) {x : FormM α}
    (hx : Keeps b n .fixed x) : Keeps b n g (orReinstate full previous x) := by
  intro s
  have hends := hx s
  unfold orReinstate
  match x s, hends with
  | .ok _ t, hkept => exact ⟨hkept.context, .of_fixed hkept.signal g⟩
  | .error (.error _) t, hkept => exact ⟨hkept.context, .of_fixed (by exact hkept.signal) g⟩
  | .error .outOfFuel _, _ => trivial

theorem keeps_loadCaptures (captures : List Capture) (span : Span) :
    Keeps b n g (loadCaptures captures span) :=
  keeps_withTail false (keeps_forM fun _ => keeps_compileName _ _)

variable {h : Handlers} (hc : ∀ d, Keeps false false .fixed (h.compile d))

include hc

theorem keeps_compileMethodBody (cls : String) (p : MethodPlan) :
    Keeps b n .fixed (compileMethodBody h cls p) := by
  refine keeps_withScope _ ((keeps_bindReceiver _ _).bind fun _ => keeps_withScope _ ?_)
  refine (keeps_onCode _).bind fun first => (keeps_forM fun _ => keeps_bindName _).bind fun _ => ?_
  refine (keeps_withMethodLoop _ _ (keeps_withTail true (keeps_compileBody hc _))).bind fun _ => ?_
  refine (keeps_emitReturn _ _).bind fun _ => (keeps_onCode _).bind fun last => ?_
  exact keeps_forM fun _ => keeps_describe _ _

theorem keeps_buildMethod (owner : Nat) (p : MethodPlan) : Keeps b n g (buildMethod h owner p) := by
  refine keeps_get.bind fun s => ?_
  split
  · exact keeps_fail _
  · refine (keeps_withMethod _ (keeps_compileMethodBody hc _ _)).bind fun (_, context) => ?_
    refine (keeps_ofExcept _).bind fun code => ?_
    exact keeps_modify (fun s => by simp [FormState.context]) fun _ => rfl

theorem keeps_buildClass (file : ClassFile) (mode : ClassMode) (methods : List (Registry → MethodPlan))
    (plan : ConstructorPlan) : Keeps b n g (buildClass h file mode methods plan) := by
  refine (keeps_withClass _ fun owner => ?_).bind fun (_, context) => ?_
  · exact keeps_forM fun m => keeps_registry.bind fun _ => keeps_buildMethod hc _ _
  · exact (keeps_ofExcept _).bind fun _ => keeps_pure _

/-! ### Functions, types and proxies -/

theorem keeps_buildFn (d : Datum) : Keeps b n g (buildFn h d) := by
  refine (keeps_ofExcept _).bind fun (name, arities) => (keeps_generatedName _).bind fun className => ?_
  refine (keeps_newFile _ _).bind fun file => ?_
  exact keeps_buildClass hc _ _ _ _

theorem keeps_defineFn [Libraries] (d : Datum) : Keeps b n g (defineFn h d) :=
  (keeps_buildFn hc d).bind fun _ => (keeps_loadClass _).bind fun _ => keeps_pure _

theorem keeps_compileFn [Libraries] (d : Datum) : Keeps b n g (compileFn h d) :=
  (keeps_defineFn hc d).bind fun _ => (keeps_loadCaptures _ _).bind fun _ => keeps_emit _

theorem keeps_buildType (full : String) (interfaces : List String) (fields : List FieldBinding)
    (methods : List TypeMethod) : Keeps b n g (buildType h full interfaces fields methods) := by
  refine ((keeps_newFile _ _).bind fun _ => keeps_pure _).bind fun file => ?_
  exact (keeps_buildClass hc _ _ _ _).bind fun _ => keeps_pure _

theorem keeps_defineType [Libraries] (d : Datum) : Keeps b n g (defineType h d) := by
  unfold defineType
  split
  · refine (keeps_typeName _).bind fun full => ?_
    split
    · exact keeps_fail _
    · refine (keeps_mapM keeps_typeField).bind fun fields => keeps_world.bind fun w => ?_
      refine (keeps_ofExcept _).bind fun (interfaces, methods) => keeps_registry.bind fun r => ?_
      refine (keeps_announce _ _ _).bind fun _ => ?_
      refine (keeps_orReinstate _ _ ?_).bind fun cls => (keeps_importClass _).bind fun _ => keeps_pure _
      exact (keeps_buildType hc _ _ _ _).bind fun _ => keeps_loadClass _
  · exact keeps_fail _

theorem keeps_compileType [Libraries] (d : Datum) : Keeps b n g (compileType h d) :=
  (keeps_defineType hc d).bind fun _ => keeps_emit _

theorem keeps_buildProxy (d : Datum) : Keeps b n g (buildProxy h d) := by
  refine (keeps_ofExcept _).bind fun (classes, args, specs) => keeps_world.bind fun w => ?_
  refine (keeps_ofExcept _).bind fun (superclass, interfaces) => (keeps_ofExcept _).bind fun init => ?_
  refine (keeps_ofExcept _).bind fun methods => (keeps_generatedName _).bind fun className => ?_
  refine (keeps_newFile _ _).bind fun file => ?_
  exact (keeps_buildClass hc _ _ _ _).bind fun _ => keeps_pure _

theorem keeps_defineProxy [Libraries] (d : Datum) : Keeps b n g (defineProxy h d) :=
  (keeps_buildProxy hc d).bind fun _ => (keeps_loadClass _).bind fun _ => keeps_pure _

theorem keeps_compileFixedArgs (args : List (Datum × Ty)) : Keeps b n g (compileFixedArgs h args) :=
  keeps_forM fun _ => (keeps_compile hc _).bind fun _ => (keeps_coerceTop _).atSpan _

theorem keeps_compileSuperArgs (m : Method) (args : List Datum) :
    Keeps b n g (compileSuperArgs h m args) := by
  refine keeps_withTail false (keeps_ite ?_ (keeps_compileFixedArgs hc _))
  split
  · exact keeps_fail _
  · refine (keeps_compileFixedArgs hc _).bind fun _ => (keeps_compileBoxedEach hc _).bind fun _ => ?_
    refine keeps_isUnreachable.bind fun _ => keeps_ite (keeps_pure _) ?_
    refine keeps_stack.bind fun stack => (keeps_ofExcept _).bind fun types => ?_
    refine keeps_registry.bind fun r => ?_
    split
    · exact keeps_coerceTop _
    · exact keeps_emit _

theorem keeps_compileProxy [Libraries] (d : Datum) : Keeps b n g (compileProxy h d) := by
  refine (keeps_defineProxy hc d).bind fun p => (keeps_compileSuperArgs hc _ _).bind fun _ => ?_
  exact (keeps_loadCaptures _ _).bind fun _ => keeps_emit _

end Methods

theorem keeps_defineProtocol [Libraries] (d : Datum) : Keeps b n g (defineProtocol d) := by
  unfold defineProtocol
  split
  · exact keeps_fail _
  · refine (keeps_typeName _).bind fun full => (keeps_ofExcept _).bind fun methods => ?_
    refine (keeps_newFile _ _).bind fun file => (keeps_loadClass _).bind fun cls => ?_
    exact (keeps_importClass _).bind fun _ => (keeps_lift _).bind fun _ => keeps_pure _

/-! ### All forms -/

section Forms

variable {h : Handlers} (hc : ∀ d, Keeps false false .fixed (h.compile d))

theorem keeps_calleeOf (head : Datum) : Keeps b n g (calleeOf head) := by
  unfold calleeOf
  split
  · exact keeps_pure _
  · refine (keeps_lookup _).bind fun r => ?_
    split
    · refine keeps_world.bind fun w => ?_
      split <;> exact keeps_pure _
    · exact keeps_pure _
    · exact keeps_fail _

theorem keeps_analyseCall [Libraries] (call : Caller) (head d : Datum) : Keeps b n g (analyseCall call head d) := by
  refine (keeps_expand call d).bind fun (expansion, _) => keeps_ite (keeps_pure _) ?_
  refine (keeps_calleeOf head).bind fun callee => ?_
  split
  · exact (keeps_ofExcept _).bind fun _ => keeps_pure _
  · exact keeps_pure _
  · exact keeps_pure _
  · exact keeps_pure _

theorem keeps_analyse [Libraries] (call : Caller) (d : Datum) : Keeps b n g (analyse call d) := by
  refine Keeps.atSpan ?_ _
  split
  · exact keeps_pure _
  · exact (keeps_ofExcept _).bind fun _ => keeps_pure _
  · exact keeps_pure _
  · exact keeps_analyseCall _ _ _
  · split <;> exact keeps_pure _

include hc

theorem keeps_compileSpecial [Libraries] (f : SpecialForm) (d : Datum) : Keeps b n g (compileSpecial h f d) := by
  cases f with
  | quote => exact (keeps_ofExcept _).bind fun _ => keeps_emitConstant _
  | syntaxQuote => exact keeps_compileTemplate hc d
  | unquote => exact keeps_fail _
  | unquoteSplicing => exact keeps_fail _
  | ifForm => exact keeps_compileIf hc d
  | doForm => exact keeps_compileBody hc _
  | letForm => exact keeps_compileLet hc d
  | loopForm => exact keeps_compileLoop hc d
  | recurForm => exact keeps_compileRecur hc d
  | caseForm => exact keeps_compileCase hc d
  | throwForm => exact keeps_compileThrow hc d
  | tryForm => exact keeps_compileTry hc d
  | fnForm => exact keeps_compileFn hc d
  | typeForm => exact keeps_compileType hc d
  | protocolForm => exact (keeps_defineProtocol d).bind fun _ => keeps_emit _
  | proxyForm => exact keeps_compileProxy hc d
  | newForm => exact keeps_compileNew hc d
  | dotForm => exact keeps_compileDot hc d
  | instanceForm => exact keeps_compileInstanceTest hc d
  | defForm => exact keeps_compileDef hc d
  | defMacro => exact (keeps_ofExcept _).bind fun _ => keeps_compile hc _
  | setForm => exact keeps_compileSet hc d
  | varForm => exact keeps_compileVar d
  | nsForm => exact keeps_compileSpaceForm d
  | inNsForm => exact keeps_compileInSpace d
  | importForm => exact keeps_compileImport d

theorem keeps_compileGlobalCall (d : Datum) (v : VarRef) : Keeps b n g (compileGlobalCall h d v) := by
  refine (keeps_compileArgs hc _).bind fun _ => keeps_isUnreachable.bind fun _ => ?_
  refine keeps_ite (keeps_pure _) ((keeps_topTypes _).bind fun argTypes => ?_)
  exact keeps_world.bind fun _ => keeps_emitSite _ _ _ _

theorem keeps_compileCall (d : Datum) : Keeps b n g (compileCall h d) := by
  refine (keeps_compileArgs hc _).bind fun _ => keeps_isUnreachable.bind fun _ => ?_
  exact keeps_ite (keeps_pure _) ((keeps_topTypes _).bind fun _ => keeps_emitCall _)

/-- Compiling a form puts back its surroundings if compiling its parts does. -/
theorem keeps_compileForm [Libraries] (d : Datum) : Keeps b n g (compileForm h d) := by
  refine (keeps_analyse _ d).bind fun a => keeps_emitForm d ?_
  split
  · exact keeps_emitConstant _
  · exact keeps_compileSymbol d
  · exact keeps_compileCollection hc d
  · exact keeps_compile hc _
  · exact keeps_compileSpecial hc _ d
  · exact keeps_compileGlobalCall hc d _
  · exact keeps_compileCall hc d

end Forms

end LispMachine.Keeping
