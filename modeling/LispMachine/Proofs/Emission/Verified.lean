import LispMachine.Proofs.ClassFile.Loading
import LispMachine.Proofs.Emission.Branches
import LispMachine.Proofs.Emission.Classes
import LispMachine.Proofs.Emission.Exceptions
import LispMachine.Proofs.Emission.Instances
import LispMachine.Proofs.Emission.Templates
import LispMachine.Session

/-! # Emitted classes are verified

Every form, however deep, leaves its value on top of what was there (`compiles_handlers`): one case for each
kind of form, by induction on how deep forms nest.  So every method ends where control does not get, and the
verifier accepts each class that a top-level form, a function, a type or a proxy is compiled into
(`built_class_verified`).

Whatever is compiled for its methods, a class keeps the name and the parents it was started with, and has one method
for each plan, in order, with the constructor behind them (`buildClass_outline`).  What is registered once the class is
loaded is this class up to the code of its methods (`loadClass_outlined`). -/

namespace LispMachine.Emission

open Form Machine

section Compiles

variable {s t : FormState} {u : Unit} {h : Handlers}

theorem Compiled.leaves {v t : View} (hcompiled : Compiled v t) : Leaves v t := by
  obtain ⟨w, g, hw⟩ := hcompiled
  exact ⟨w, g, .inr hw.top⟩

theorem compileDo_leaves (hc : Compiles h) {body : List Datum} (hv : Valid (view s))
    (hrun : compileBody h body s = .ok u t) : Leaves (view s) (view t) := by
  obtain ⟨w, g, htop⟩ := compileBody_grown hc hv hrun
  exact ⟨w, g, .inr htop⟩

theorem compileSpecial_leaves [Libraries] (hc : Compiles h) {f : SpecialForm} {d : Datum} (hv : Valid (view s))
    (hrun : compileSpecial h f d s = .ok u t) : Leaves (view s) (view t) := by
  cases f with
  | quote =>
      obtain ⟨c, s₁, h₁, hrun⟩ := State.ok_of_bind hrun
      obtain ⟨-, rfl⟩ := ofExcept_ok h₁
      exact .constant hv hrun
  | syntaxQuote => exact compileTemplate_leaves hc hv hrun
  | unquote => cases hrun
  | unquoteSplicing => cases hrun
  | ifForm => exact compileIf_leaves hc hv hrun
  | doForm => exact compileDo_leaves hc hv hrun
  | letForm => exact compileLet_leaves hc hv hrun
  | loopForm => exact compileLoop_leaves hc hv hrun
  | recurForm => exact compileRecur_leaves hc hv hrun
  | caseForm => exact compileCase_leaves hc hv hrun
  | fnForm => exact compileFn_leaves hc hv hrun
  | defForm => exact compileDef_leaves hc hv hrun
  | defMacro =>
      obtain ⟨definition, s₁, h₁, hrun⟩ := State.ok_of_bind hrun
      obtain ⟨-, rfl⟩ := ofExcept_ok h₁
      exact (hc hv hrun).leaves
  | setForm => exact compileSet_leaves hc hv hrun
  | varForm => exact compileVar_leaves hv hrun
  | typeForm => exact compileType_leaves hc hv hrun
  | protocolForm => exact compileProtocol_leaves hv hrun
  | proxyForm => exact compileProxy_leaves hc hv hrun
  | newForm => exact compileNew_leaves hc hv hrun
  | dotForm => exact compileDot_leaves hc hv hrun
  | throwForm => exact compileThrow_leaves hc hv hrun
  | tryForm => exact compileTry_leaves hc hv hrun
  | nsForm => exact compileSpaceForm_leaves hv hrun
  | inNsForm => exact compileInSpace_leaves hv hrun
  | importForm => exact compileImport_leaves hv hrun
  | instanceForm => exact compileInstanceTest_leaves hc hv hrun

theorem emitAnalysed_compiled [Libraries] (hc : Compiles h) {d : Datum} {a : Analysis} (hv : Valid (view s))
    (hrun : emitAnalysed h d a s = .ok u t) : Compiled (view s) (view t) := by
  refine compiled_of_emitForm hrun fun u hrun => ?_
  cases a with
  | constant c => exact .constant hv hrun
  | name => exact compileSymbol_leaves hv hrun
  | collection => exact compileCollection_leaves hc hv hrun
  | expanded e => exact (hc hv hrun).leaves
  | special f => exact compileSpecial_leaves hc hv hrun
  | globalCall v => exact compileGlobalCall_leaves hc hv hrun
  | call => exact compileCall_leaves hc hv hrun

theorem compileForm_compiled [Libraries] (hc : Compiles h) {d : Datum} (hv : Valid (view s))
    (hrun : compileForm h d s = .ok u t) : Compiled (view s) (view t) := by
  obtain ⟨a, s₁, h₁, hrun⟩ := State.ok_of_bind hrun
  rw [← aside_analyse h.call d h₁] at hv ⊢
  exact emitAnalysed_compiled hc hv hrun

/-- Forms of every depth leave their values. -/
theorem compiles_handlers [Libraries] : ∀ fuel, Compiles (handlers fuel)
  | 0 => fun _ _ _ _ _ hrun => by cases hrun
  | fuel + 1 => fun _ _ _ _ hv hrun => compileForm_compiled (compiles_handlers fuel) hv hrun

end Compiles

/-! ### Classes -/

section Classes

variable {s t : FormState} {h : Handlers}

/-- The method of a top-level form has no receiver, and needs none without scopes around it. -/
theorem buildTop_builds {d : Datum} {file : ClassFile} (hframes : s.scopes.frames = [])
    (hrun : Session.buildTop h d s = .ok file t) : Builds h (view s) file t := by
  obtain ⟨className, s₂, h₂, hrun⟩ := State.ok_of_bind hrun
  obtain ⟨fresh, s₃, h₃, hrun⟩ := State.ok_of_bind hrun
  obtain ⟨⟨built, captures⟩, s₄, h₄, hrun⟩ := State.ok_of_bind hrun
  cases hrun
  obtain ⟨rfl, hempty⟩ := newFile_ok h₃
  have hview : view s₂ = view s := aside_generatedName _ h₂
  refine ⟨_, _, _, _, captures, s₂, hview, ?_, fun m hm r => ?_, h₄⟩
  · exact hempty
  · obtain rfl := List.mem_singleton.1 hm
    exact .inr ⟨hframes, rfl, rfl⟩

/-- Without scopes all of them belong to open methods. -/
theorem levelled_nil (hframes : s.scopes.frames = []) : Levelled (view s) := by
  intro f hf
  have hf : f ∈ s.scopes.frames := hf
  rw [hframes] at hf
  cases hf

theorem buildTop_ok (hc : Compiles h) {d : Datum} {file : ClassFile} (hframes : s.scopes.frames = [])
    (hrun : Session.buildTop h d s = .ok file t) : Verifier.checkClass file = .ok () :=
  ((buildTop_builds hframes hrun).ok hc (levelled_nil hframes)).2

/-- Whatever class a form is compiled into, the verifier accepts all its methods.  The scopes around the
form belong to methods that are open; around a top-level form there are none. -/
theorem built_class_verified [Libraries] (fuel : Nat) (d : Datum) (s : FormState)
    (hlevels : ∀ f ∈ s.scopes.frames, f.level ≤ s.methods.length) :
    (∀ file t, s.scopes.frames = [] → Session.buildTop (handlers fuel) d s = .ok file t →
      Verifier.checkClass file = .ok ()) ∧
    (∀ file captures t, buildFn (handlers fuel) d s = .ok (file, captures) t →
      Verifier.checkClass file = .ok ()) ∧
    (∀ full interfaces fields methods file t,
      buildType (handlers fuel) full interfaces fields methods s = .ok file t →
      Verifier.checkClass file = .ok ()) ∧
    ∀ file m captures t, buildProxy (handlers fuel) d s = .ok (file, m, captures) t →
      Verifier.checkClass file = .ok () := by
  have hc := compiles_handlers fuel
  refine ⟨?_, ?_, ?_, ?_⟩
  · intro file t hframes hrun
    exact buildTop_ok hc hframes hrun
  · intro file captures t hrun
    exact (buildFn_ok hc hlevels hrun).2
  · intro full interfaces fields methods file t hrun
    exact (buildType_ok hc hlevels hrun).2
  · intro file m captures t hrun
    exact (buildProxy_ok hc hlevels hrun).2.1

/-- The methods of a small type: one that passes a field to a call, drops the result, and puts the field into
a vector twice. -/
def pairingMethods : List TypeMethod :=
  let x : Datum := .symbol "x" default
  [{ name := "pair", this := "this", params := []
     body := [.ofList [.ofAtom (.keyword "a") default, x] default, .ofVector [x, x] default] }]

theorem wide_field_verified :
    ∃ file t, buildType (handlers 4) "T" [] [⟨"x", .long, false⟩] pairingMethods { world := {} } = .ok file t ∧
      Verifier.checkClass file = .ok () := by
  obtain ⟨file, t, hrun, -⟩ := State.exists_answer
    (r := buildType (handlers 4) "T" [] [⟨"x", .long, false⟩] pairingMethods { world := {} })
    (p := fun _ => true) (by decide +kernel)
  have hverified := (built_class_verified 4 default { world := {} } (by simp)).2.2.1
  exact ⟨file, t, hrun, hverified _ _ _ _ file t hrun⟩

end Classes

/-! ### What is in a built class -/

section Built

variable {s t : FormState} {h : Handlers} {p : MethodPlan} {owner : Nat} {c : ClassContext} {u : Unit}

/-- The method is what compiling a plan gives. -/
def Implements (h : Handlers) (p : MethodPlan) (m : MethodDef) : Prop :=
  ∃ cls owner s context t code,
    FormM.withMethod (freshContext owner p) (compileMethodBody h cls p) s = .ok ((), context) t ∧
      context.code.finish context.stack.max = .ok code ∧ m = p.definition code

/-- A method is added behind those that are there. -/
theorem buildMethod_adds (hc : Compiles h) (hlevels : Levelled (view s)) (hself : SelfContained (view s) p)
    (hclass : (view s).classes[owner]? = some c) (hrun : buildMethod h owner p s = .ok u t) :
    Beside owner (view s) (view t) ∧ ∃ c' m, (view t).classes[owner]? = some c' ∧ Implements h p m ∧
      c'.file = { c.file with sites := c'.file.sites, methods := c.file.methods ++ [m] } := by
  obtain ⟨s', s₁, h₁, hrun⟩ := State.ok_of_bind hrun
  cases h₁
  have hclass' : s.classes[owner]? = some c := hclass
  rw [hclass'] at hrun
  obtain ⟨⟨⟨⟩, context⟩, s₁, h₁, hrun⟩ := State.ok_of_bind hrun
  obtain ⟨hbeside, c', hc', hwidened, -⟩ := withMethod_body hc hlevels hself hclass h₁
  obtain ⟨code, s₂, h₂, hrun⟩ := State.ok_of_bind hrun
  obtain ⟨hfinish, rfl⟩ := ofExcept_ok h₂
  cases hrun
  refine ⟨hbeside.trans ⟨rfl, Array.size_modify .., ?_⟩, c'.addMethod (p.definition code), p.definition code, ?_,
    ⟨_, owner, s, context, s₁, code, h₁, hfinish, rfl⟩, ?_⟩
  · intro i hi
    exact (Array.getElem?_modify ..).trans (if_neg (Ne.symm hi))
  · refine (Array.getElem?_modify ..).trans ?_
    rw [if_pos rfl]
    exact congrArg (Option.map _) hc'
  · rw [ClassContext.addMethod, hwidened.file]

/-- Methods are added in the order of their plans, each of which may look at the registry first. -/
theorem buildMethods_add (hc : Compiles h) {methods : List (Registry → MethodPlan)} (hlevels : Levelled (view s))
    (hself : ∀ m ∈ methods, ∀ r, SelfContained (view s) (m r)) (hclass : (view s).classes[owner]? = some c)
    (hrun : (methods.forM fun m => do buildMethod h owner (m (← FormM.registry))) s = .ok u t) :
    ∃ c' built, (view t).classes[owner]? = some c' ∧
      List.Forall₂ (fun m d => ∃ r, Implements h (m r) d) methods built ∧
      c'.file = { c.file with sites := c'.file.sites, methods := c.file.methods ++ built } := by
  induction methods generalizing s c with
  | nil =>
    cases hrun
    exact ⟨c, [], hclass, .nil, by rw [List.append_nil]⟩
  | cons m rest ih =>
    obtain ⟨⟨⟩, s₁, h₁, hrun⟩ := State.ok_of_bind hrun
    obtain ⟨r, s₂, h₂, h₁⟩ := State.ok_of_bind h₁
    cases h₂
    obtain ⟨hbeside, c₁, d, hclass₁, hd, hfile₁⟩ :=
      buildMethod_adds hc hlevels (hself m List.mem_cons_self _) hclass h₁
    obtain ⟨c', built, hclass', hbuilt, hfile'⟩ := ih (hbeside.levelled hlevels)
      (fun m' hm' r => hbeside.selfContained (hself m' (List.mem_cons_of_mem _ hm') r)) hclass₁ hrun
    refine ⟨c', d :: built, hclass', .cons ⟨_, hd⟩ hbuilt, ?_⟩
    rw [hfile', hfile₁]
    simp

/-- The constructor of a class is called like one. -/
theorem name_of_constructorOf {plan : ConstructorPlan} {init : Option MethodDef}
    (h : constructorOf c plan = .ok init) : ∀ d ∈ init, d.name = Names.constructor := by
  unfold constructorOf at h
  split at h
  · cases h
    exact nofun
  · obtain ⟨code, -, h⟩ := bind_ok h
    cases h
    rintro d ⟨⟩
    rfl

/-- A built class is the class that was started, with a method for each plan and then the constructor. -/
theorem buildClass_outline (hc : Compiles h) {file file' : ClassFile} {mode : ClassMode}
    {methods : List (Registry → MethodPlan)} {plan : ConstructorPlan} {captures : List Capture}
    (hlevels : Levelled (view s)) (hself : ∀ m ∈ methods, ∀ r, SelfContained (view s) (m r))
    (hempty : file.methods = []) (hrun : buildClass h file mode methods plan s = .ok (file', captures) t) :
    file'.name = file.name ∧ file'.superclass = file.superclass ∧ file'.interfaces = file.interfaces ∧
      ∃ (built : List MethodDef) (init : Option MethodDef), file'.methods = built ++ init.toList ∧
        List.Forall₂ (fun m d => ∃ r, Implements h (m r) d) methods built ∧
        ∀ d ∈ init, d.name = Names.constructor := by
  obtain ⟨⟨⟨⟩, c⟩, s₁, h₁, hrun⟩ := State.ok_of_bind hrun
  obtain ⟨finished, s₂, h₂, hrun⟩ := State.ok_of_bind hrun
  obtain ⟨hfinished, rfl⟩ := ofExcept_ok h₂
  cases hrun
  obtain ⟨s₂, t₂, hs₂, hbuilt, hclass, -⟩ := withClass_ok h₁
  have hstart : (view s₂).classes[(view s).classes.size]? = some { file, mode } := by simp [hs₂]
  obtain ⟨c', built, hc', hmethods, hfile⟩ := buildMethods_add hc (hs₂ ▸ hlevels) (hs₂ ▸ hself) hstart hbuilt
  obtain rfl := Option.some.inj (hclass.symm.trans hc')
  obtain ⟨init, hinit, hfinished⟩ := bind_ok hfinished
  cases hfinished
  refine ⟨by rw [hfile], by rw [hfile], by rw [hfile], built, init, ?_, hmethods, name_of_constructorOf hinit⟩
  rw [hfile, hempty, List.nil_append]

/-- A class that is loaded is registered as a class of the same outline. -/
theorem loadClass_outlined [Libraries] {file : ClassFile} {cls : ClassInfo} (hrun : loadClass file s = .ok cls t) :
    ∃ loaded, file.Outlined loaded ∧ Registered loaded cls s.world t.world := by
  obtain ⟨loaded, hread, hregistered⟩ := loadClass_loads hrun
  exact ⟨loaded, ClassFile.outlined_of_ofBytes hread, hregistered⟩

end Built

end LispMachine.Emission
