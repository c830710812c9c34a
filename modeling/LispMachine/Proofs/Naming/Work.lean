import LispMachine.Form.Analysis
import LispMachine.Proofs.Context.Keeping
import LispMachine.Proofs.Machine.Onward
import LispMachine.Proofs.Naming.Hygiene
import LispMachine.Proofs.World.Registrations

/-! # How work on forms is made up

`Work` says how work on forms is put together from what makes up names, templates that are begun and left again,
classes that are emitted, code that is run, and parts that do none of this.  Whatever each of these ways preserves,
all work on forms preserves: the names of the classes that are emitted (`Work.classNames`), and that it is a run,
after which the same templates are open as before (`Work.leads`).  The combinators here are for the state, for emission
and for what surrounds a form; what goes through a form is in the modules that follow. -/

namespace LispMachine.Naming

open Form

/-- The state some work ends in, well or not. -/
def stateAfter {α : Type} : EStateM.Result Fault FormState α → FormState
  | .ok _ t => t
  | .error _ t => t

/-- The names of the classes that are emitted. -/
def classNames (s : FormState) : Array String := s.classes.map fun c => c.file.name

/-- No number has been drawn and no name put on record, and all registrations are in the book. -/
structure Nameless (w w' : World) : Prop where
  counter : w'.counter = w.counter
  given : w'.given = w.given
  records : w.Records w'

theorem Nameless.refl (w : World) : Nameless w w := ⟨rfl, rfl, .refl w⟩

theorem Nameless.trans {w w' w'' : World} (h : Nameless w w') (h' : Nameless w' w'') : Nameless w w'' :=
  ⟨h'.counter.trans h.counter, h'.given.trans h.given, h.records.trans h'.records⟩

/-- Classes and objects are left alone. -/
theorem nameless_of_eq {w w' : World} (hcounter : w'.counter = w.counter) (hgiven : w'.given = w.given)
    (hregistry : w'.registry = w.registry) (hobjects : w'.objects = w.objects) : Nameless w w' :=
  ⟨hcounter, hgiven, World.records_of_eq hregistry hobjects⟩

/-- No name has been made up, no table of a template has changed, and the same classes are emitted. -/
structure Still (s t : FormState) : Prop where
  world : Nameless s.world t.world
  templates : t.templates = s.templates
  classes : classNames t = classNames s

theorem Still.refl (s : FormState) : Still s s := ⟨.refl _, rfl, rfl⟩

theorem Still.trans {s t u : FormState} (h : Still s t) (h' : Still t u) : Still s u :=
  ⟨h.world.trans h'.world, h'.templates.trans h.templates, h'.classes.trans h.classes⟩

theorem Still.aside {s t : FormState} (h : Still s t) : Aside s t := ⟨h.world.counter, h.world.given, h.templates⟩

/-- The ways in which work on forms is made up. -/
inductive Work : {α : Type} → FormM α → Prop
  /-- No name is made up, and templates and classes are not touched. -/
  | still {α : Type} {x : FormM α} (h : ∀ s, Still s (stateAfter (x s))) : Work x
  | bind {α β : Type} {x : FormM α} {f : α → FormM β} (hx : Work x) (hf : ∀ a, Work (f a)) : Work (x >>= f)
  /-- Something is done before and after the work, however it ends. -/
  | within {α β : Type} {x : FormState → FormM α} {y : FormM β} (enter : FormState → FormState)
    (henter : ∀ s, Still s (enter s)) (hx : ∀ s, Work (x s))
    (hend : ∀ s, Still (stateAfter (x s (enter s))) (stateAfter (y s))) : Work y
  /-- Code is run. -/
  | machine {α : Type} {a : Action α} (h : Machine.Runs a) : Work (FormM.lift a)
  | gensym (stem : String) : Work (Expansion.gensym stem)
  | occurrence (x : String) : Work (Template.templateName x)
  | template {α : Type} {x : FormM α} (hx : Work x) : Work (Template.withNames x)
  /-- A class is named. -/
  | cls (use : ClassUse) : Work (generatedName use)
  /-- A class is emitted. -/
  | emitting {α : Type} (context : ClassContext) {x : Nat → FormM α} (hx : ∀ i, Work (x i)) :
    Work (Keeping.insideClass context x)
  /-- What a name stood for is put back if the work fails. -/
  | redefining {α β : Type} (full : String) {first : FormM Unit} {x : FormM α} {f : α → FormM β}
    (hfirst : Work first) (hx : Work x) (hf : ∀ a, Work (f a)) :
    Work (do
      let r ← FormM.registry
      first
      let a ← orReinstate full (r.find? full) x
      f a)

/-! ### Sequences -/

section Sequences

variable {α β : Type} {x : FormM α}

theorem work_pure (a : α) : Work (pure a : FormM α) := .still fun s => .refl s

theorem work_fail (e : Error) : Work (FormM.fail e : FormM α) := .still fun s => .refl s

theorem work_outOfFuel : Work (throw .outOfFuel : FormM α) := .still fun s => .refl s

theorem work_ofExcept (e : Except Error α) : Work (FormM.ofExcept e) := by
  cases e with
  | ok a => exact work_pure a
  | error e => exact work_fail e

theorem work_get : Work (get : FormM FormState) := .still fun s => .refl s

theorem work_modify {change : FormState → FormState} (h : ∀ s, Still s (change s)) :
    Work (modify change : FormM PUnit) := .still h

theorem work_ite {c : Prop} [Decidable c] {x y : FormM α} (hx : Work x) (hy : Work y) :
    Work (if c then x else y) := by
  split
  · exact hx
  · exact hy

theorem Work.map (hx : Work x) (f : α → β) : Work (f <$> x) := by
  rw [map_eq_pure_bind]
  exact hx.bind fun a => work_pure (f a)

theorem work_forM {xs : List α} {f : α → FormM PUnit} (h : ∀ a, Work (f a)) : Work (xs.forM f) := by
  induction xs with
  | nil => exact work_pure _
  | cons a rest ih => exact (h a).bind fun _ => ih

theorem work_mapM {xs : List α} {f : α → FormM β} (h : ∀ a, Work (f a)) : Work (xs.mapM f) := by
  induction xs with
  | nil =>
    rw [List.mapM_nil]
    exact work_pure _
  | cons a rest ih =>
    rw [List.mapM_cons]
    exact (h a).bind fun _ => ih.bind fun _ => work_pure _

/-- What is made of the end of some work. -/
theorem Work.ending {y : FormM β} (hx : Work x) (h : ∀ s, Still (stateAfter (x s)) (stateAfter (y s))) : Work y :=
  .within id (fun s => .refl s) (fun _ => hx) h

/-- Giving errors a place changes nothing else. -/
theorem Work.atSpan (hx : Work x) (span : Span) : Work (x.atSpan span) := by
  refine hx.ending fun s => ?_
  unfold FormM.atSpan
  match x s with
  | .ok _ t => exact .refl t
  | .error (.error _) t => exact .refl t
  | .error .outOfFuel t => exact .refl t

theorem work_attempt (hx : Work x) : Work (attempt x) := by
  refine hx.ending fun s => ?_
  unfold attempt
  match x s with
  | .ok _ t => exact .refl t
  | .error (.error _) t => exact .refl t
  | .error .outOfFuel t => exact .refl t

/-- Work in changed surroundings that are left again at every end. -/
theorem work_enclosed {x : FormState → FormM α} {y : FormM α} (enter : FormState → FormState)
    (leave : FormState → FormState → FormState) (hrun : ∀ s, y s = (x s).andFinally (leave s) (enter s))
    (hx : ∀ s, Work (x s)) (henter : ∀ s, Still s (enter s)) (hleave : ∀ s t, Still t (leave s t)) : Work y := by
  refine .within enter henter hx fun s => ?_
  rw [hrun, FormM.andFinally]
  cases x s (enter s) with
  | ok _ t => exact hleave s t
  | error _ t => exact hleave s t

end Sequences

/-! ### The world, the current method and the current class -/

section State

variable {α : Type}

theorem stateAfter_lift (a : Action α) (s : FormState) :
    stateAfter (FormM.lift a s) = { s with world := Machine.worldAfter (a s.world) } := by
  unfold FormM.lift
  dsimp only
  cases a s.world <;> rfl

/-- An action on the world that makes up no name. -/
theorem work_lift {a : Action α} (h : ∀ w, Nameless w (Machine.worldAfter (a w))) : Work (FormM.lift a) := by
  refine .still fun s => ?_
  rw [stateAfter_lift]
  exact ⟨h s.world, rfl, rfl⟩

theorem work_world : Work FormM.world := work_get.bind fun _ => work_pure _

theorem work_registry : Work FormM.registry := work_get.bind fun _ => work_pure _

theorem work_tryDepth : Work FormM.tryDepth := work_get.bind fun _ => work_pure _

theorem work_lookup (name : String) : Work (FormM.lookup name) := work_get.bind fun _ => work_ofExcept _

theorem nameless_importClass {w w' : World} {full : String} (h : w.importClass full = .ok w') : Nameless w w' := by
  unfold World.importClass at h
  split at h
  · cases h
    exact nameless_of_eq rfl rfl rfl rfl
  · cases h

theorem still_importClass (full : String) (s : FormState) : Still s (stateAfter (FormM.importClass full s)) := by
  unfold FormM.importClass
  rw [State.bind_of_ok (State.get_eq s)]
  cases himport : s.world.importClass full with
  | ok w => exact ⟨nameless_importClass himport, rfl, rfl⟩
  | error e => exact .refl s

theorem work_importClass (full : String) : Work (FormM.importClass full) := .still (still_importClass full)

theorem work_method : Work FormM.method := by
  refine work_get.bind fun s => ?_
  split
  · exact work_pure _
  · exact work_fail _

theorem work_stack : Work FormM.stack := work_method.bind fun _ => work_pure _

theorem work_modifyMethod (f : MethodContext → MethodContext) : Work (FormM.modifyMethod f) := by
  refine work_get.bind fun s => ?_
  split
  · exact work_modify fun _ => ⟨.refl _, rfl, rfl⟩
  · exact work_fail _

theorem work_modifyStack (f : TypeStack → TypeStack) : Work (FormM.modifyStack f) := work_modifyMethod _

theorem work_modifyCode (f : CodeBuffer → CodeBuffer) : Work (FormM.modifyCode f) := work_modifyMethod _

theorem work_onCode (f : CodeBuffer → α × CodeBuffer) : Work (FormM.onCode f) :=
  work_method.bind fun _ => (work_modifyCode _).bind fun _ => work_pure _

theorem work_isUnreachable : Work FormM.isUnreachable := by
  refine work_get.bind fun s => ?_
  split <;> exact work_pure _

theorem work_topType? : Work FormM.topType? := work_stack.bind fun _ => work_pure _

theorem work_ownerIndex : Work FormM.ownerIndex := by
  refine work_get.bind fun s => ?_
  split
  · exact work_pure _
  · exact work_ite (work_fail _) (work_pure _)

theorem work_currentClass : Work FormM.currentClass := by
  refine work_get.bind fun s => work_ownerIndex.bind fun i => ?_
  split
  · exact work_pure _
  · exact work_fail _

/-- Classes are changed, but keep their names. -/
theorem still_modifyClasses {f : ClassContext → ClassContext} (hf : ∀ c, (f c).file.name = c.file.name) (i : Nat)
    (s : FormState) : Still s { s with classes := s.classes.modify i f } := by
  refine ⟨.refl _, rfl, Array.ext (by simp [classNames]) fun j _ _ => ?_⟩
  simp only [classNames, Array.getElem_map, Array.getElem_modify]
  split
  · exact hf _
  · rfl

theorem work_modifyClass {f : ClassContext → ClassContext} (hf : ∀ c, (f c).file.name = c.file.name) :
    Work (FormM.modifyClass f) :=
  work_ownerIndex.bind fun i => work_modify (still_modifyClasses hf i)

/-! ### Emitting -/

theorem work_emit (i : Instruction) : Work (FormM.emit i) := by
  unfold FormM.emit
  refine work_get.bind fun s => ?_
  split
  · exact work_fail _
  · refine work_ite (work_pure _) ?_
    refine (work_ofExcept _).bind fun effect => ?_
    refine (work_modifyStack _).bind fun _ => (work_ofExcept _).bind fun _ => ?_
    exact (work_modifyCode _).bind fun _ => work_ite (work_modifyStack _) (work_pure _)

theorem work_emitAll (code : List Instruction) : Work (FormM.emitAll code) := work_forM work_emit

theorem work_emitConstant (c : Constant) : Work (FormM.emitConstant c) :=
  (work_emit _).bind fun _ => work_modifyStack _

theorem work_emitCall (spec : SiteSpec) : Work (FormM.emitCall spec) := by
  refine work_currentClass.bind fun _ => Work.bind (work_modifyClass fun c => ?_) fun _ => work_emit _
  rfl

theorem work_boxTop : Work FormM.boxTop := by
  refine work_topType?.bind fun ty => ?_
  split
  · exact work_emitAll _
  · exact work_pure _

theorem work_popValue : Work FormM.popValue := by
  refine work_topType?.bind fun ty => ?_
  split
  · exact work_emit _
  · exact work_emit _
  · exact work_pure _

theorem work_coerceTop (target : Ty) : Work (FormM.coerceTop target) := by
  refine work_topType?.bind fun ty => ?_
  split
  · exact work_registry.bind fun _ => (work_ofExcept _).bind fun _ => work_emitAll _
  · exact work_pure _

theorem work_settle (base : List StackRecord) (result : Option Ty) : Work (FormM.settle base result) := by
  refine (work_modifyStack _).bind fun _ => work_ite (work_pure _) ?_
  split
  · exact work_modifyStack _
  · exact work_modifyStack _

theorem work_capture (name : String) (ty : Ty) : Work (FormM.capture name ty) := by
  refine work_currentClass.bind fun c => work_ite (work_fail _) ?_
  split
  · exact work_pure _
  · refine Work.bind (work_modifyClass fun c => ?_) fun _ => work_pure _
    rfl

theorem work_warn (span : Option Span) (message : String) : Work (FormM.warn span message) :=
  work_lift fun _ => nameless_of_eq rfl rfl rfl rfl

end State

/-! ### Nesting -/

section Nesting

variable {α : Type} {x : FormM α}

theorem work_withTail (tail : Bool) (hx : Work x) : Work (FormM.withTail tail x) :=
  work_enclosed (fun s => { s with tail }) (fun s t => { t with tail := s.tail }) (fun _ => rfl) (fun _ => hx)
    (fun _ => ⟨.refl _, rfl, rfl⟩) fun _ _ => ⟨.refl _, rfl, rfl⟩

theorem work_withLoop (target : LoopTarget) (hx : Work x) : Work (withLoop target x) :=
  work_enclosed (fun s => { s with loops := target :: s.loops }) (fun s t => { t with loops := s.loops })
    (fun _ => rfl) (fun _ => hx) (fun _ => ⟨.refl _, rfl, rfl⟩) fun _ _ => ⟨.refl _, rfl, rfl⟩

theorem still_releaseSlots (frames : List ScopeFrame) (level : Nat) (s : FormState) :
    Still s (FormM.releaseSlots frames level s) := by
  unfold FormM.releaseSlots
  split
  · split <;> exact ⟨.refl _, rfl, rfl⟩
  · exact .refl s

theorem work_withScope (kind : ScopeKind) (hx : Work x) : Work (FormM.withScope kind x) :=
  work_enclosed (fun s => { s with scopes := s.scopes.push kind s.methods.length })
    (fun s t => FormM.releaseSlots (t.scopes.truncate s.scopes.depth).1 s.methods.length
      { t with scopes := (t.scopes.truncate s.scopes.depth).2 })
    (fun _ => rfl) (fun _ => hx) (fun _ => ⟨.refl _, rfl, rfl⟩)
    fun s t => (show Still t { t with scopes := (t.scopes.truncate s.scopes.depth).2 } from ⟨.refl _, rfl, rfl⟩).trans
      (still_releaseSlots _ _ _)

theorem work_bindName (b : Binding) : Work (FormM.bindName b) :=
  work_get.bind fun _ => (work_ofExcept _).bind fun _ => work_modify fun _ => ⟨.refl _, rfl, rfl⟩

theorem work_withMethod (context : MethodContext) (hx : Work x) : Work (FormM.withMethod context x) := by
  rw [Keeping.withMethod_eq]
  refine (work_enclosed (fun s => { s with methods := context :: s.methods, loops := [] })
    (fun s t => { t with
      loops := s.loops, tail := s.tail, methods := t.methods.drop (t.methods.length - s.methods.length) })
    (fun _ => rfl) (fun _ => hx.bind fun _ => work_get.bind fun _ => work_pure _) (fun _ => ⟨.refl _, rfl, rfl⟩)
    fun _ _ => ⟨.refl _, rfl, rfl⟩).bind fun (a, made) => ?_
  cases made with
  | some made => exact work_pure _
  | none => exact work_fail _

theorem work_withClass (context : ClassContext) {x : Nat → FormM α} (hx : ∀ i, Work (x i)) :
    Work (FormM.withClass context x) := by
  rw [Keeping.withClass_eq]
  refine (Work.emitting context hx).bind fun (a, made) => ?_
  cases made with
  | some made => exact work_pure _
  | none => exact work_fail _

/-- One more `try` is open in the current method, for as long as the work lasts. -/
theorem work_withinTry (hx : Work x) : Work (withinTry x) := by
  refine (work_modifyMethod _).bind fun _ => hx.ending fun s => ?_
  unfold FormM.andFinally
  cases x s with
  | ok _ t | error _ t =>
    dsimp only [stateAfter]
    split
    · exact ⟨.refl _, rfl, rfl⟩
    · exact .refl t

end Nesting

/-! ### Classes that are emitted -/

section Classes

variable {α : Type} {x : FormM α} {context c : ClassContext} {s t : FormState} {a : α}

theorem classNames_templateName (name : String) (s : FormState) :
    classNames (stateAfter (Template.templateName name s)) = classNames s := by
  cases hrun : Template.templateName name s with
  | ok made t =>
    rw [stateAfter, (Template.templateName_run hrun).1]
    rfl
  | error e t =>
    rw [stateAfter, templateName_error hrun]
    rfl

/-- How work on a class goes, and that only the classes around it are left. -/
theorem stateAfter_insideClass (context : ClassContext) (x : Nat → FormM α) (s : FormState) :
    stateAfter (Keeping.insideClass context x s) =
      let t := stateAfter (x s.classes.size { s with classes := s.classes.push context })
      { t with classes := t.classes.take s.classes.size } := by
  unfold Keeping.insideClass FormM.andFinally
  rw [State.bind_eq]
  cases x s.classes.size { s with classes := s.classes.push context } <;> rfl

theorem size_classNames (s : FormState) : (classNames s).size = s.classes.size := Array.size_map

/-- What is left of the classes when one that was added is gone. -/
theorem classNames_take (name : String) (h : classNames t = (classNames s).push name) :
    classNames { t with classes := t.classes.take s.classes.size } = classNames s := by
  have htake : (classNames t).take s.classes.size = classNames s := by
    rw [h, ← size_classNames]
    simp
  rw [← htake]
  simp [classNames, Array.take]

/-- How work ends after which what a name stood for is put back if it fails. -/
inductive Redefined {α β : Type} (full : String) (first : FormM Unit) (x : FormM α) (f : α → FormM β) (s : FormState) :
    FormState → Prop
  | refused {e : Fault} {t : FormState} (h : first s = .error e t) : Redefined full first x f s t
  | failed {e : Fault} {t u : FormState} (hfirst : first s = .ok () t) (hx : x t = .error e u) :
    Redefined full first x f s
      { u with world :=
        { u.world with registry := u.world.registry.reinstate full (s.world.registry.find? full) } }
  | done {a : α} {t u : FormState} (hfirst : first s = .ok () t) (hx : x t = .ok a u) :
    Redefined full first x f s (stateAfter (f a u))

theorem redefined {α β : Type} (full : String) (first : FormM Unit) (x : FormM α) (f : α → FormM β) (s : FormState) :
    Redefined full first x f s (stateAfter ((do
      let r ← FormM.registry
      first
      let a ← orReinstate full (r.find? full) x
      f a) s)) := by
  rw [State.bind_of_ok (show FormM.registry s = .ok s.world.registry s from rfl)]
  cases hfirst : first s with
  | error e t =>
    rw [State.bind_of_error hfirst]
    exact .refused hfirst
  | ok _ t =>
    rw [State.bind_of_ok hfirst]
    cases hx : x t with
    | ok a u =>
      rw [State.bind_of_ok (show orReinstate full (s.world.registry.find? full) x t = .ok a u by
        rw [orReinstate, hx])]
      exact .done hfirst hx
    | error e u =>
      rw [State.bind_of_error (show orReinstate full (s.world.registry.find? full) x t = .error e _ by
        rw [orReinstate, hx])]
      exact .failed hfirst hx

/-- However work ends, the classes that are emitted have the names they had. -/
theorem Work.classNames (hx : Work x) (s : FormState) : classNames (stateAfter (x s)) = Naming.classNames s := by
  induction hx generalizing s with
  | still h => exact (h s).classes
  | @bind α β x f _ _ ihx ihf =>
    rw [State.bind_eq]
    have hfirst := ihx s
    cases hrun : x s with
    | ok a t =>
      rw [hrun] at hfirst
      exact (ihf a t).trans hfirst
    | error e t =>
      rw [hrun] at hfirst
      exact hfirst
  | within enter henter _ hend ih => exact (hend s).classes.trans ((ih s (enter s)).trans (henter s).classes)
  | machine _ =>
    rw [stateAfter_lift]
    rfl
  | gensym stem => rfl
  | occurrence name => exact classNames_templateName name s
  | @template α x _ ih =>
    have hinside := ih { s with templates := {} :: s.templates }
    change Naming.classNames (stateAfter (x.andFinally _ _)) = _
    unfold FormM.andFinally
    cases hrun : x { s with templates := {} :: s.templates } <;> rw [hrun] at hinside <;> exact hinside
  | cls use => rfl
  | @emitting α context x _ ih =>
    rw [stateAfter_insideClass]
    refine classNames_take context.file.name ((ih s.classes.size _).trans ?_)
    simp [Naming.classNames]
  | @redefining α β full first x f _ _ _ ihfirst ihx ihf =>
    have hend := redefined full first x f s
    generalize stateAfter _ = v at hend ⊢
    have hbegun := ihfirst s
    cases hend with
    | refused h =>
      rw [h] at hbegun
      exact hbegun
    | @failed e t u hfirst hfail =>
      have hworked := ihx t
      rw [hfirst] at hbegun
      rw [hfail] at hworked
      exact hworked.trans hbegun
    | @done a t u hfirst hdone =>
      have hworked := ihx t
      rw [hfirst] at hbegun
      rw [hdone] at hworked
      exact (ihf a u).trans (hworked.trans hbegun)

/-- However work ends, all registrations are in the book: classes are registered in it, and what is put back was
registered before. -/
theorem Work.records (hx : Work x) (s : FormState) : s.world.Records (stateAfter (x s)).world := by
  induction hx generalizing s with
  | still h => exact (h s).world.records
  | @bind α β x f _ _ ihx ihf =>
    rw [State.bind_eq]
    have hfirst := ihx s
    cases hrun : x s with
    | ok a t =>
      rw [hrun] at hfirst
      exact hfirst.trans (ihf a t)
    | error e t =>
      rw [hrun] at hfirst
      exact hfirst
  | within enter henter _ hend ih =>
    exact ((henter s).world.records.trans (ih s (enter s))).trans (hend s).world.records
  | machine h =>
    rw [stateAfter_lift]
    exact World.records_course (h s.world)
  | gensym stem => exact World.records_of_eq rfl rfl
  | occurrence name =>
    cases hrun : Template.templateName name s with
    | ok made t =>
      rw [stateAfter, (Template.templateName_run hrun).1]
      exact World.records_of_eq rfl rfl
    | error e t =>
      rw [stateAfter, templateName_error hrun]
      exact World.records_of_eq rfl rfl
  | @template α x _ ih =>
    have hinside := ih { s with templates := {} :: s.templates }
    change s.world.Records (stateAfter (x.andFinally _ _)).world
    unfold FormM.andFinally
    cases hrun : x { s with templates := {} :: s.templates } <;> rw [hrun] at hinside <;> exact hinside
  | cls use => exact World.records_of_eq rfl rfl
  | @emitting α context x _ ih =>
    rw [stateAfter_insideClass]
    exact ih s.classes.size { s with classes := s.classes.push context }
  | @redefining α β full first x f _ _ _ ihfirst ihx ihf =>
    have hend := redefined full first x f s
    generalize stateAfter _ = v at hend ⊢
    have hbegun := ihfirst s
    cases hend with
    | refused h =>
      rw [h] at hbegun
      exact hbegun
    | @done a t u hfirst hdone =>
      have hworked := ihx t
      rw [hfirst] at hbegun
      rw [hdone] at hworked
      exact (hbegun.trans hworked).trans (ihf a u)
    | @failed e t u hfirst hfail =>
      have hworked := ihx t
      rw [hfirst] at hbegun
      rw [hfail] at hworked
      intro book hbook
      obtain ⟨more, hmore⟩ := hbegun.trans hworked book hbook
      -- What stood under the name was in the book at the start, and books only grow.
      exact ⟨more, hmore.reinstate full fun c hc =>
        getElem?_append_of_some (hbook.registry.classes full c hc) more⟩

end Classes

/-! ### Tables of open templates -/

section Scenes

variable {S T : Scene} {log : List Given}

theorem Step.balanced (h : Step S log T) (hS : S.Balanced) : T.Balanced := by
  cases h with
  | aside h =>
    unfold Scene.Balanced
    rw [h.templates]
    exact hS
  | symbol => exact hS
  | cls => exact hS
  | enter => exact congrArg (· + 1) hS
  | occurrence h =>
    obtain ⟨-, -, names, rest, hs, ⟨-, ht⟩ | ⟨-, -, ht⟩⟩ := templateName_ok h
    · unfold Scene.Balanced
      rw [ht]
      exact hS
    · unfold Scene.Balanced at hS ⊢
      rw [hs] at hS
      rw [ht]
      exact hS
  | refused h =>
    obtain rfl := templateName_error h
    exact hS
  | leave s i opened begun =>
    have hlength : opened.length + 1 = s.templates.length := hS
    change opened.length = (s.templates.drop 1).length
    rw [List.length_drop, ← hlength, Nat.add_sub_cancel]

theorem Run.balanced (h : Run S log T) (hS : S.Balanced) : T.Balanced := by
  induction h with
  | refl => exact hS
  | tail _ hstep ih => exact hstep.balanced ih

/-- There is a run to the state, after which the same templates are open. -/
def Scene.Leads (S : Scene) (t : FormState) : Prop := ∃ log begun, Run S log ⟨t, S.opened, begun⟩

theorem Scene.leads_aside {t : FormState} (h : Aside S.state t) : S.Leads t :=
  ⟨[], S.begun, .single (.aside h)⟩

/-! ### Work as a run -/

/-- A change makes up one name or none. -/
theorem given_change {w w' : World} (h : Machine.Change w w') :
    w'.counter = w.counter ∧ w'.given = w.given ∨ ∃ stem, w' = (w.gensym stem).2 := by
  cases h with
  | link index args => exact .inl (by rw [Machine.linked_eq]; exact ⟨rfl, rfl⟩)
  | bind v value => exact .inl ⟨rfl, rfl⟩
  | define v value flags => exact .inl ⟨rfl, rfl⟩
  | intern space name =>
    left
    rcases (w.ensureSpace space).intern_cases space name with heq | heq <;> rw [heq, w.ensureSpace_eq] <;>
      exact ⟨rfl, rfl⟩
  | enter name =>
    left
    rw [w.enter_eq]
    exact ⟨rfl, rfl⟩
  | importClass name h => exact .inl ⟨(nameless_importClass h).counter, (nameless_importClass h).given⟩
  | allocate cls => exact .inl ⟨rfl, rfl⟩
  | store o slot value => exact .inl ⟨rfl, rfl⟩
  | print text => exact .inl ⟨rfl, rfl⟩
  | draw stem => exact .inr ⟨stem, rfl⟩

/-- A run with the world of a scene, beside all else that is in it. -/
theorem exists_run_course (s : FormState) (opened : List Nat) (begun : Nat) {w w' : World}
    (h : Machine.Course w w') :
    ∃ log, Run ⟨{ s with world := w }, opened, begun⟩ log ⟨{ s with world := w' }, opened, begun⟩ := by
  induction h with
  | refl => exact ⟨[], .refl _⟩
  | @tail m w' _ hchange ih =>
    obtain ⟨log, hrun⟩ := ih
    rcases given_change hchange with ⟨hcounter, hgiven⟩ | ⟨stem, rfl⟩
    · exact ⟨_, hrun.tail (.aside ⟨hcounter, hgiven, rfl⟩)⟩
    · exact ⟨_, hrun.tail (.symbol { s with world := m } opened begun stem)⟩

/-- An action on the world that runs code. -/
theorem leads_runs {α : Type} {a : Action α} (ha : Machine.Runs a) (S : Scene) :
    S.Leads (stateAfter (FormM.lift a S.state)) := by
  rw [stateAfter_lift]
  obtain ⟨log, hrun⟩ := exists_run_course S.state S.opened S.begun (ha S.state.world)
  exact ⟨log, S.begun, hrun⟩

/-- A symbol is met. -/
theorem leads_templateName (x : String) (hS : S.Balanced) :
    S.Leads (stateAfter (Template.templateName x S.state)) := by
  obtain ⟨s, opened, begun⟩ := S
  cases hrun : Template.templateName x s with
  | error e t => exact ⟨_, _, .single (.refused hrun)⟩
  | ok name t =>
    cases opened with
    | nil =>
      obtain ⟨-, -, names, rest, hs, -⟩ := templateName_ok hrun
      have hlength : 0 = s.templates.length := hS
      rw [hs] at hlength
      cases hlength
    | cons i opened => exact ⟨_, _, .single (.occurrence hrun)⟩

/-- The state after work in a template of its own. -/
theorem stateAfter_withNames {α : Type} (x : FormM α) (s : FormState) :
    stateAfter (Template.withNames x s) =
      let t := stateAfter (x { s with templates := {} :: s.templates })
      { t with templates := t.templates.drop 1 } := by
  change stateAfter (x.andFinally _ _) = _
  unfold FormM.andFinally
  cases x { s with templates := {} :: s.templates } <;> rfl

/-- All work on forms is a run, after which the same templates are open as before. -/
theorem Work.leads {α : Type} {x : FormM α} (hx : Work x) (S : Scene) (hS : S.Balanced) :
    S.Leads (stateAfter (x S.state)) := by
  induction hx generalizing S with
  | still h => exact S.leads_aside (h S.state).aside
  | @bind α β x f _ _ ihx ihf =>
    obtain ⟨log, begun, hrun⟩ := ihx S hS
    rw [State.bind_eq]
    cases hresult : x S.state with
    | error e t =>
      rw [hresult] at hrun
      exact ⟨log, begun, hrun⟩
    | ok a t =>
      rw [hresult] at hrun
      obtain ⟨log', begun', hrun'⟩ := ihf a ⟨t, S.opened, begun⟩ (hrun.balanced hS)
      exact ⟨log ++ log', begun', hrun.trans hrun'⟩
  | within enter henter _ hend ih =>
    have hentered : Run S [] ⟨enter S.state, S.opened, S.begun⟩ := .single (.aside (henter S.state).aside)
    obtain ⟨log, begun, hrun⟩ := ih S.state ⟨enter S.state, S.opened, S.begun⟩ (hentered.balanced hS)
    exact ⟨_, begun, (hentered.trans hrun).tail (.aside (hend S.state).aside)⟩
  | machine h => exact leads_runs h S
  | gensym stem => exact ⟨_, S.begun, .single (.symbol S.state S.opened S.begun stem)⟩
  | occurrence x => exact leads_templateName x hS
  | template _ ih =>
    rw [stateAfter_withNames]
    have hentered := Run.single (.enter S.state S.opened S.begun)
    obtain ⟨log, begun, hrun⟩ := ih _ (hentered.balanced hS)
    exact ⟨_, begun, (hentered.trans hrun).tail (.leave _ S.begun S.opened begun)⟩
  | cls use => exact ⟨_, S.begun, .single (.cls S.state S.opened S.begun use)⟩
  | emitting context _ ih =>
    rw [stateAfter_insideClass]
    have hentered : Run S [] ⟨{ S.state with classes := S.state.classes.push context }, S.opened, S.begun⟩ :=
      .single (.aside ⟨rfl, rfl, rfl⟩)
    obtain ⟨log, begun, hrun⟩ := ih S.state.classes.size _ (hentered.balanced hS)
    exact ⟨_, begun, (hentered.trans hrun).tail (.aside ⟨rfl, rfl, rfl⟩)⟩
  | @redefining α β full first x f _ _ _ ihfirst ihx ihf =>
    have hend := redefined full first x f S.state
    generalize stateAfter _ = v at hend ⊢
    obtain ⟨log, begun, hbegun⟩ := ihfirst S hS
    cases hend with
    | refused h =>
      rw [h] at hbegun
      exact ⟨log, begun, hbegun⟩
    | @failed e t u hfirst hfail =>
      rw [hfirst] at hbegun
      obtain ⟨log', begun', hworked⟩ := ihx ⟨t, S.opened, begun⟩ (hbegun.balanced hS)
      rw [hfail] at hworked
      exact ⟨_, begun', (hbegun.trans hworked).tail (.aside ⟨rfl, rfl, rfl⟩)⟩
    | @done a t u hfirst hdone =>
      rw [hfirst] at hbegun
      obtain ⟨log', begun', hworked⟩ := ihx ⟨t, S.opened, begun⟩ (hbegun.balanced hS)
      rw [hdone] at hworked
      have hsofar := hbegun.trans hworked
      obtain ⟨log'', begun'', hrest⟩ := ihf a ⟨u, S.opened, begun'⟩ (hsofar.balanced hS)
      exact ⟨_, begun'', hsofar.trans hrest⟩

end Scenes

end LispMachine.Naming
