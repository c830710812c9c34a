import LispMachine.Proofs.World.Resolution

/-! # Types that failed

A type is announced before its methods are compiled: it is registered under its full name and imported by
its simple one.  If the methods fail, what stood under the full name before is put back, but the import
stays.  So every name goes on standing for the class it stood for, the simple name of the type apart: that
one now stands for what is known under the full name, or else under the simple name itself
(`failed_type_resolution`).  An import that the announcement displaced is lost (`failed_type_hides_import`). -/

namespace LispMachine.Form

open World

section Types

variable {h : Handlers} {d : Datum} {s t : FormState} {fault : Fault}

/-- The forms in the methods of a type. -/
def methodForms (d : Datum) : List Datum :=
  ((argsOf d).drop 2).flatMap fun spec => ((typeMethod spec).toOption.map TypeMethod.body).getD []

/-- The full name of the type that a form declares. -/
def declaredName? (w : World) (d : Datum) : Option String :=
  ((argsOf d).head?.bind Datum.symbol?).map fun simple => munge w.current ++ "." ++ simple

/-- The methods of a class body are made from its items. -/
theorem methods_of_items {w : World} {specs : List Datum} {found : List ClassInfo × List TypeMethod}
    {interfaces : List ClassInfo} {methods : List TypeMethod}
    (hfold : specs.foldlM (classItem w) found = .ok (interfaces, methods)) :
    ∀ m ∈ methods, m ∈ found.2 ∨ ∃ spec ∈ specs, typeMethod spec = .ok m := by
  induction specs generalizing found with
  | nil =>
    cases hfold
    exact fun m hm => .inl hm
  | cons spec rest ih =>
    rw [List.foldlM_cons] at hfold
    obtain ⟨found', hitem, hfold⟩ := bind_ok hfold
    intro m hm
    rcases ih hfold m hm with hfound | ⟨spec', hspec', hmade⟩
    · unfold classItem at hitem
      split at hitem
      · obtain ⟨m', hmade, hitem⟩ := bind_ok hitem
        cases hitem
        rcases List.mem_append.mp hfound with hfound | hfound
        · exact .inl hfound
        · rw [List.mem_singleton.mp hfound]
          exact .inr ⟨spec, List.mem_cons_self, hmade⟩
      · split at hitem
        · cases hitem
        · split at hitem
          · cases hitem
            exact .inl hfound
          · split at hitem
            · cases hitem
              exact .inl hfound
            · cases hitem
    · exact .inr ⟨spec', List.mem_cons_of_mem _ hspec', hmade⟩

theorem typeName_ok {name : Datum} {full : String} (hrun : typeName name s = .ok full t) :
    t = s ∧ (name.symbol?.map fun simple => munge s.world.current ++ "." ++ simple) = some full := by
  unfold typeName at hrun
  cases hsimple : name.symbol?.filter fun n => !n.contains '/' && !n.contains '.' with
  | none =>
    rw [hsimple] at hrun
    cases hrun
  | some simple =>
    rw [hsimple] at hrun
    cases hrun
    have hsymbol : name.symbol? = some simple := (Option.filter_eq_some_iff.mp hsimple).1
    exact ⟨rfl, by rw [hsymbol]; rfl⟩

theorem along_typeName (name : Datum) : Along Eq (typeName name) := by
  unfold typeName
  split
  · exact (along_world.bind fun _ => along_pure _).bind fun _ => along_pure _
  · exact along_fail _

theorem along_typeField (field : Datum) : Along Eq (typeField field) := by
  have hhint : ∀ hint, Along Eq (resolveHint hint) := by
    intro hint
    unfold resolveHint
    split
    · exact along_pure _
    · refine along_world.bind fun w => ?_
      split
      · exact along_pure _
      · exact along_fail _
  unfold typeField
  split
  · exact (hhint _).bind fun _ => (along_ofExcept _).bind fun _ => along_pure _
  · exact (along_pure _).bind fun _ => (along_ofExcept _).bind fun _ => along_pure _

theorem importClass_run (full : String) (s : FormState) :
    FormM.importClass full s = match s.world.importClass full with
      | .ok w => .ok () { s with world := w }
      | .error e => .error (.error e) s := by
  unfold FormM.importClass
  rw [State.bind_of_ok (State.get_eq s)]
  cases s.world.importClass full <;> rfl

/-- The world after an announcement: the name is taken in the registry and among the imports. -/
structure Announced (full : String) (w w' : World) : Prop where
  current : w'.current = w.current
  classes : ∀ name, full ≠ name → w'.registry.find? name = w.registry.find? name
  imports : ∀ name, w'.here.imports.find? name
    = if simpleClassName full = name then some full else w.here.imports.find? name

/-- An announcement is made as a whole or not at all. -/
theorem announce_run (full : String) (interfaces : List String) (fields : List FieldBinding) (s : FormState) :
    (∃ e, announce full interfaces fields s = .error (.error e) s) ∨
      ∃ t, announce full interfaces fields s = .ok () t ∧ Announced full s.world t.world := by
  cases hregister : s.world.registry.register (announcement full interfaces fields) with
  | error e =>
    refine .inl ⟨e, ?_⟩
    simp only [announce, FormM.registry, bind_assoc, State.bind_of_ok (State.get_eq s), pure_bind, hregister]
    rfl
  | ok made =>
    obtain ⟨c, r⟩ := made
    obtain ⟨-, hfind⟩ := Registry.register_ok hregister
    have hcontains : r.contains full = true := Registry.contains_of_find? ((hfind full).trans (if_pos rfl))
    obtain ⟨w, himport⟩ : ∃ w, { s.world with registry := r }.importClass full = .ok w := ⟨_, if_pos hcontains⟩
    obtain ⟨hcurrent, hregistry, himports⟩ := importClass_ok himport
    refine .inr ⟨{ s with world := w }, ?_, hcurrent, fun name hname => ?_, himports⟩
    · simp only [announce, FormM.registry, bind_assoc, State.bind_of_ok (State.get_eq s), pure_bind, hregister]
      change FormM.importClass full { s with world := { s.world with registry := r } } = _
      rw [importClass_run, himport]
    · change w.registry.find? name = _
      rw [hregistry, hfind name]
      exact if_neg hname

/-- After an announcement and quiet work, putting the registry back leaves every name what it stood for,
the simple name of the type apart. -/
theorem resolveClass?_reinstated {w w₁ w₂ : World} {full name : String} {c : ClassInfo}
    (hannounced : Announced full w w₁) (hquiet : Undisturbed w₁ w₂) (hname : w.resolveClass? name = some c)
    (hkept : name = simpleClassName full → (w.registry.find? full <|> w.registry.find? name) = some c) :
    { w₂ with registry := w₂.registry.reinstate full (w.registry.find? full) }.resolveClass? name = some c := by
  have himports : ∀ n, w₂.here.imports.find? n
      = if simpleClassName full = n then some full else w.here.imports.find? n :=
    fun n => (hquiet.imports n).trans (hannounced.imports n)
  have hclasses : ∀ n c', w.registry.find? n = some c' →
      (w₂.registry.reinstate full (w.registry.find? full)).find? n = some c' := by
    intro n c' hn
    rw [Registry.find?_reinstate]
    split
    · rename_i heq
      rw [heq, hn]
    · rename_i hne
      have hn₁ := (hannounced.classes n hne).trans hn
      exact (hquiet.classes n (.inl (Registry.contains_of_find? hn₁))).trans hn₁
  by_cases hsimple : simpleClassName full = name
  · have hafter := hkept hsimple.symm
    unfold World.resolveClass?
    change ((w₂.here.imports.find? name).bind _ <|> _) = _
    rw [himports, if_pos hsimple, Option.bind_some, Registry.find?_reinstate, if_pos rfl]
    cases hfull : w.registry.find? full with
    | some c' =>
      rw [hfull] at hafter
      exact hafter
    | none =>
      have hclass := hclasses name c (by rwa [hfull] at hafter)
      rwa [hfull] at hclass
  · refine World.resolveClass?_of_same ?_ (fun f hf => ?_) (hclasses name c) hname
    · exact (himports name).trans (if_neg hsimple)
    · change (w₂.registry.reinstate full (w.registry.find? full)).find? f = _
      rw [Registry.find?_reinstate]
      split
      · rename_i heq
        rw [heq]
      · rename_i hne
        have hf₁ : w₁.here.imports.find? name = some f := by rw [hannounced.imports, if_neg hsimple, hf]
        exact (hquiet.classes f (.inr ⟨name, hf₁⟩)).trans (hannounced.classes f hne)

/-- Makes the class of a type that has been announced. -/
def defineAnnounced [Libraries] (h : Handlers) (full : String) (interfaces : List String) (fields : List FieldBinding)
    (methods : List TypeMethod) (previous : Option ClassInfo) : FormM ClassInfo := do
  let cls ← orReinstate full previous do
    loadClass (← buildType h full interfaces fields methods)
  FormM.importClass cls.name
  return cls

/-- Announces a type with its name and its fields known, and makes its class. -/
def defineNamed [Libraries] (h : Handlers) (full : String) (fields : List FieldBinding) (specs : List Datum) :
    FormM ClassInfo := do
  let (interfaces, methods) ← FormM.ofExcept (specs.foldlM (classItem (← FormM.world)) ([], []))
  let interfaces := interfaces.map ClassInfo.name
  let previous := (← FormM.registry).find? full
  announce full interfaces fields
  defineAnnounced h full interfaces fields methods previous

/-- Loading a class changes nothing if it fails, and the class is there if it does not. -/
theorem loadClass_run [Libraries] (file : ClassFile) (s : FormState) :
    (∃ e, loadClass file s = .error (.error e) s) ∨
      ∃ cls t, loadClass file s = .ok cls t ∧ t.world.registry.contains cls.name = true := by
  have hregister : ∀ (f : ClassFile) (w : World),
      (∃ e, Machine.registerFile f w = .error (.error e) w) ∨
        ∃ cls w', Machine.registerFile f w = .ok cls w' ∧ w'.registry.contains cls.name = true := by
    intro f w
    unfold Machine.registerFile
    rw [State.bind_of_ok (State.get_eq w)]
    cases hmade : w.registry.register (Machine.classInfo f w.sites.size) with
    | error e => exact .inl ⟨e, rfl⟩
    | ok made =>
      obtain ⟨cls, r⟩ := made
      obtain ⟨hsame, hfind⟩ := Registry.register_ok hmade
      refine .inr ⟨cls, _, rfl, Registry.contains_of_find? (c := cls) ?_⟩
      exact (hfind cls.name).trans (if_pos hsame.symm)
  have hdefine : (∃ e, Machine.defineClass file s.world = .error (.error e) s.world) ∨
      ∃ cls w', Machine.defineClass file s.world = .ok cls w' ∧ w'.registry.contains cls.name = true := by
    unfold Machine.defineClass Machine.defineImage
    cases ClassFile.ofBytes file.toBytes with
    | error e => exact .inl ⟨e, rfl⟩
    | ok f =>
      rw [State.bind_of_ok (Action.ofExcept_ok f s.world), State.bind_of_ok (State.get_eq s.world)]
      split
      · cases hcheck : Verifier.checkClass f with
        | error e => exact .inl ⟨e, rfl⟩
        | ok u => exact hregister f s.world
      · exact hregister f s.world
  rcases hdefine with ⟨e, he⟩ | ⟨cls, w', hok, hthere⟩
  · exact .inl ⟨e, by simp only [loadClass, FormM.lift, he]⟩
  · exact .inr ⟨cls, { s with world := w' }, by simp only [loadClass, FormM.lift, hok], hthere⟩

/-- A type that fails is taken out of the registry again. -/
theorem defineAnnounced_error [Libraries] {full : String} {interfaces : List String} {fields : List FieldBinding}
    {methods : List TypeMethod} {previous : Option ClassInfo}
    (hquiet : ∀ m ∈ methods, ∀ form ∈ m.body, Along Undisturbed (h.compile form))
    (hrun : defineAnnounced h full interfaces fields methods previous s = .error fault t) :
    ∃ w, Undisturbed s.world w ∧ t.world = { w with registry := w.registry.reinstate full previous } := by
  rcases State.error_of_bind hrun with hfail | ⟨cls, u, hload, hrun⟩
  · unfold orReinstate at hfail
    have hbuilt := along_buildType full interfaces fields hquiet s
    split at hfail
    · rename_i e u hinside
      cases hfail
      refine ⟨u.world, ?_, rfl⟩
      rcases State.error_of_bind hinside with hbuild | ⟨file, v, hbuild, hload⟩
      · simpa only [hbuild, endWorld] using hbuilt
      · rcases loadClass_run file v with ⟨e', he'⟩ | ⟨cls, v', hok, -⟩
        · rw [he'] at hload
          cases hload
          simpa only [hbuild, endWorld] using hbuilt
        · rw [hok] at hload
          cases hload
    · rename_i hok
      exact absurd hfail (hok _ _)
  · -- A class that has been loaded can be imported.
    have hthere : u.world.registry.contains cls.name = true := by
      unfold orReinstate at hload
      split at hload
      · cases hload
      · obtain ⟨file, v, -, hload⟩ := State.ok_of_bind hload
        rcases loadClass_run file v with ⟨e', he'⟩ | ⟨cls', v', hok, hthere⟩
        · rw [he'] at hload
          cases hload
        · rw [hok] at hload
          cases hload
          exact hthere
    rcases State.error_of_bind hrun with hfail | ⟨_, v, -, hdone⟩
    · rw [importClass_run, World.importClass, if_pos hthere] at hfail
      cases hfail
    · cases hdone

theorem defineNamed_of_items [Libraries] {full : String} {fields : List FieldBinding} {specs : List Datum}
    {interfaces : List ClassInfo} {methods : List TypeMethod}
    (hitems : specs.foldlM (classItem s.world) ([], []) = .ok (interfaces, methods)) :
    defineNamed h full fields specs s = (do
      announce full (interfaces.map ClassInfo.name) fields
      defineAnnounced h full (interfaces.map ClassInfo.name) fields methods
        (s.world.registry.find? full)) s := by
  simp only [defineNamed, FormM.world, FormM.registry, bind_assoc, State.bind_of_ok (State.get_eq s),
    pure_bind, hitems]
  rfl

theorem defineNamed_error [Libraries] {full name : String} {specs : List Datum} {fields : List FieldBinding}
    {c : ClassInfo}
    (hquiet : ∀ spec ∈ specs, ∀ m, typeMethod spec = .ok m → ∀ form ∈ m.body, Along Undisturbed (h.compile form))
    (hrun : defineNamed h full fields specs s = .error fault t)
    (hname : s.world.resolveClass? name = some c)
    (hkept : name = simpleClassName full →
      (s.world.registry.find? full <|> s.world.registry.find? name) = some c) :
    t.world.resolveClass? name = some c := by
  cases hitems : specs.foldlM (classItem s.world) ([], []) with
  | error e =>
    simp only [defineNamed, FormM.world, bind_assoc, State.bind_of_ok (State.get_eq s), pure_bind, hitems] at hrun
    cases hrun
    exact hname
  | ok parts =>
    obtain ⟨interfaces, methods⟩ := parts
    rw [defineNamed_of_items hitems] at hrun
    rcases announce_run full (interfaces.map ClassInfo.name) fields s with ⟨e, he⟩ | ⟨u, hu, hannounced⟩
    · rw [State.bind_of_error he] at hrun
      cases hrun
      exact hname
    · rw [State.bind_of_ok hu] at hrun
      have hbodies : ∀ m ∈ methods, ∀ form ∈ m.body, Along Undisturbed (h.compile form) := by
        intro m hm
        rcases methods_of_items hitems m hm with hnone | ⟨spec, hspec, hmade⟩
        · cases hnone
        · exact hquiet spec hspec m hmade
      obtain ⟨w, hdisturbed, hworld⟩ := defineAnnounced_error hbodies hrun
      rw [hworld]
      exact resolveClass?_reinstated hannounced hdisturbed hname hkept

theorem defineType_error [Libraries] (hquiet : ∀ form ∈ methodForms d, Along Undisturbed (h.compile form))
    (hrun : defineType h d s = .error fault t) {name : String} {c : ClassInfo}
    (hname : s.world.resolveClass? name = some c)
    (hkept : ∀ full, declaredName? s.world d = some full → name = simpleClassName full →
      (s.world.registry.find? full <|> s.world.registry.find? name) = some c) :
    t.world.resolveClass? name = some c := by
  have hmethods : ∀ spec ∈ (argsOf d).drop 2, ∀ m, typeMethod spec = .ok m → ∀ form ∈ m.body,
      Along Undisturbed (h.compile form) := by
    intro spec hspec m hm form hform
    exact hquiet form (List.mem_flatMap.mpr ⟨spec, hspec, by rw [hm]; exact hform⟩)
  unfold defineType at hrun
  rcases hargs : argsOf d with _ | ⟨typeDatum, _ | ⟨fieldVector, specs⟩⟩ <;> rw [hargs] at hrun
  · cases hrun
    exact hname
  · cases hrun
    exact hname
  · rw [hargs] at hmethods
    rcases State.error_of_bind hrun with hfail | ⟨full, s', hfull, hrest⟩
    · have hsame : s.world = t.world := by simpa only [hfail, endWorld] using along_typeName typeDatum s
      rwa [← hsame]
    · obtain ⟨rfl, hdeclared⟩ := typeName_ok hfull
      replace hkept := hkept full (by simpa only [declaredName?, hargs, List.head?_cons, Option.bind_some])
      cases hitems : fieldVector.vector? with
      | none =>
        rw [hitems] at hrest
        cases hrest
        exact hname
      | some items =>
        rw [hitems] at hrest
        have hall : Along Eq (items.mapM typeField) := along_mapM fun f _ => along_typeField f
        have hfields := hall s'
        rcases State.error_of_bind hrest with hfail | ⟨fields, u, hok, hrest⟩
        · have hsame : s'.world = t.world := by simpa only [hfail, endWorld] using hfields
          rwa [← hsame]
        · have hsame : s'.world = u.world := by simpa only [hok, endWorld] using hfields
          rw [hsame] at hname hkept
          exact defineNamed_error hmethods hrest hname hkept

theorem modifyMethod_run {m : MethodContext} {rest : List MethodContext} (hmethods : s.methods = m :: rest)
    (f : MethodContext → MethodContext) :
    FormM.modifyMethod f s = .ok () { s with methods := f m :: rest } := by
  simp only [FormM.modifyMethod, State.bind_of_ok (State.get_eq s), hmethods]
  rfl

/-- With a method open, the import of a type can always be emitted. -/
theorem emit_importClass_run {full : String} (hopen : s.methods ≠ []) :
    ∃ t, FormM.emit (.importClass full) s = .ok () t := by
  obtain ⟨m, rest, hmethods⟩ := List.exists_cons_of_ne_nil hopen
  cases hlive : m.stack.isUnreachable with
  | true => exact ⟨s, by simp [FormM.emit, State.bind_of_ok (State.get_eq s), hmethods, hlive]⟩
  | false =>
    have hpush : m.stack.apply (.ops [] (some (.cls Names.cls)))
        = (.ok (), m.stack.push (.cls Names.cls) false) := by
      simp [TypeStack.apply, hlive, TypeStack.popAll]
    simp only [FormM.emit, State.bind_of_ok (State.get_eq s), hmethods, hlive, Instruction.effect,
      Instruction.endsBlock, FormM.ofExcept, pure_bind, hpush, Bool.false_eq_true, if_false]
    exact ⟨_, (State.bind_of_ok (modifyMethod_run hmethods _)).trans
      (State.bind_of_ok (modifyMethod_run rfl _))⟩

/-- Evaluating or compiling a type that fails, the compiling done inside a method: where the methods of the
type leave the classes alone, every name goes on standing for the class it stood for, unless it is the simple
name of the type and stood for neither what the full name nor what the simple name itself is registered as. -/
theorem failed_type_resolution [Libraries] {fuel : Nat}
    (hquiet : ∀ form ∈ methodForms d, Along Undisturbed ((handlers fuel).compile form))
    (hrun : evaluateType (handlers fuel) d s = .error fault t ∨
      s.methods ≠ [] ∧ compileType (handlers fuel) d s = .error fault t)
    {name : String} {c : ClassInfo} (hname : s.world.resolveClass? name = some c)
    (hkept : ∀ full, declaredName? s.world d = some full → name = simpleClassName full →
      (s.world.registry.find? full <|> s.world.registry.find? name) = some c) :
    t.world.resolveClass? name = some c := by
  have hdefine : defineType (handlers fuel) d s = .error fault t := by
    rcases hrun with hrun | ⟨hopen, hrun⟩
    · rcases State.error_of_bind hrun with hfail | ⟨cls, u, -, hdone⟩
      · exact hfail
      · cases hdone
    · rcases State.error_of_bind hrun with hfail | ⟨cls, u, hok, hemit⟩
      · exact hfail
      · -- The method is still open behind the definition, so that emitting the import does not fail.
        have hkeeps := (Keeping.keeps_defineType (b := false) (n := false) (g := .fixed)
          (Keeping.keeps_handlers fuel).1 d).ok hok
        have hdepths : u.methods.map MethodContext.tryDepth = s.methods.map MethodContext.tryDepth :=
          congrArg Context.tryDepths hkeeps.context
        have hopen' : u.methods ≠ [] := by
          intro hnil
          rw [hnil] at hdepths
          exact hopen (List.map_eq_nil_iff.mp hdepths.symm)
        obtain ⟨v, hv⟩ : ∃ v, FormM.emit (.importClass cls.name) u = .ok () v := emit_importClass_run hopen'
        rw [hv] at hemit
        cases hemit
  exact defineType_error hquiet hdefine hname hkept

/-- The form `(deftype Exception [] (m [this] nope))`. -/
def brokenException : Datum :=
  .ofList [.symbol "deftype" default, .symbol "Exception" default, .ofVector [] default,
    .ofList [.symbol "m" default, .ofVector [.symbol "this" default] default, .symbol "nope" default] default]
    default

/-- The method of the type. -/
def brokenMethod : TypeMethod :=
  { name := "m", this := "this", params := [], body := [.symbol "nope" default] }

theorem defineType_broken [Libraries] (s : FormState) (hspace : s.world.current = Names.userSpace) :
    defineType h brokenException s = (do
      announce "user.Exception" [] []
      defineAnnounced h "user.Exception" [] [] [brokenMethod] (s.world.registry.find? "user.Exception")) s := by
  have hname : typeName (.symbol "Exception" default) s = .ok "user.Exception" s := by
    have hsimple : (Datum.symbol "Exception" default).symbol?.filter
        (fun n => !n.contains '/' && !n.contains '.') = some "Exception" := by cbv
    have hfull : munge Names.userSpace ++ "." ++ "Exception" = "user.Exception" := by decide
    rw [← hfull, ← hspace, typeName, hsimple]
    rfl
  have hitems : ((argsOf brokenException).drop 2).foldlM (classItem s.world) ([], [])
      = .ok ([], [brokenMethod]) := by
    have hmethod : typeMethod ((argsOf brokenException).getD 2 default) = .ok brokenMethod := by cbv
    have hitem : classItem s.world ([], []) ((argsOf brokenException).getD 2 default)
        = (do return ([], [] ++ [← typeMethod ((argsOf brokenException).getD 2 default)])) := rfl
    rw [hmethod] at hitem
    change (classItem s.world ([], []) ((argsOf brokenException).getD 2 default) >>= pure) = _
    rw [hitem]
    rfl
  exact (State.bind_of_ok hname).trans (defineNamed_of_items hitems)

/-- What a failure leaves of a name. -/
def afterFailure? (name : String) : EStateM.Result Fault FormState ClassInfo → Option (Option String)
  | .error (.error _) t => some ((t.world.resolveClass? name).map ClassInfo.name)
  | _ => none

theorem exists_failure {name : String} {found : Option String} {r : EStateM.Result Fault FormState ClassInfo}
    (hfailure : afterFailure? name r = some found) :
    ∃ e t, r = .error (.error e) t ∧ (t.world.resolveClass? name).map ClassInfo.name = found := by
  unfold afterFailure? at hfailure
  split at hfailure
  · rename_i e t
    exact ⟨e, t, rfl, Option.some.inj hfailure⟩
  · cases hfailure

/-- A world of two classes, the second of which is imported. -/
def withException : World where
  registry := { classes := ⟨[(Names.object, { name := Names.object, superclass := none }),
    ("user.Exception", announcement "user.Exception" [] [])]⟩ }
  spaces := ⟨[(Names.userSpace, { imports := ⟨[("Exception", "user.Exception")]⟩ })]⟩

/-- The class that a type would have replaced is still known by its simple name. -/
theorem failed_type_resolution_again :
    ∃ e t c, evaluateType (handlers 4) brokenException { world := withException } = .error (.error e) t ∧
      withException.resolveClass? "Exception" = some c ∧ t.world.resolveClass? "Exception" = some c := by
  have hfailure : (afterFailure? "Exception" ((do
        announce "user.Exception" [] []
        defineAnnounced (handlers 4) "user.Exception" [] [] [brokenMethod]
          (withException.registry.find? "user.Exception")) { world := withException }))
      = some (some "user.Exception") := by
    decide +kernel
  rw [← defineType_broken { world := withException } rfl] at hfailure
  obtain ⟨e, t, hfail, -⟩ := exists_failure hfailure
  have hrun : evaluateType (handlers 4) brokenException { world := withException } = .error (.error e) t :=
    State.bind_of_error hfail
  refine ⟨e, t, announcement "user.Exception" [] [], hrun, rfl, ?_⟩
  refine failed_type_resolution (fun form hform => ?_) (.inl hrun) rfl fun full hfull _ => ?_
  · have hforms : methodForms brokenException = [.symbol "nope" default] := by cbv
    rw [hforms] at hform
    rw [List.mem_singleton.mp hform]
    exact along_compile_atom 3 _ _
  · have hname : declaredName? withException brokenException = some "user.Exception" := by decide
    rw [show full = "user.Exception" from Option.some.inj (hfull.symm.trans hname)]
    rfl

/-- A type called like a class that is imported to begin with. -/
theorem failed_type_hides_import :
    ((World.start {}).resolveClass? "Exception").isSome = true ∧
      ∃ e t, evaluateType (handlers 4) brokenException { world := World.start {} } = .error (.error e) t ∧
        t.world.resolveClass? "Exception" = none := by
  have hrun : (World.start {}).current = Names.userSpace ∧
      ((World.start {}).registry.find? "user.Exception").isNone = true ∧
      ((World.start {}).resolveClass? "Exception").isSome = true ∧
      afterFailure? "Exception" ((do
        announce "user.Exception" [] []
        defineAnnounced (handlers 4) "user.Exception" [] [] [brokenMethod] none)
          { world := World.start {} }) = some none := by
    rw [World.start_eq]
    decide +kernel
  obtain ⟨hspace, hnew, himported, hfailure⟩ := hrun
  rw [← Option.isNone_iff_eq_none.mp hnew, ← defineType_broken { world := World.start {} } hspace] at hfailure
  obtain ⟨e, t, hfail, hnone⟩ := exists_failure hfailure
  exact ⟨himported, e, t, State.bind_of_error hfail, Option.map_eq_none_iff.mp hnone⟩

end Types

end LispMachine.Form
