import LispMachine.Form.State
import LispMachine.Proofs.Emission.Stack
import LispMachine.Proofs.Sequencing

/-! # What emission works on

Of all that working on a form can see, emission changes little: the methods and classes being emitted,
and what surrounds the form.  `View` is that part of the state.  Most steps leave it alone (`Aside`); the
others change the method at work, and the lemmas here say how. -/

namespace LispMachine.Emission

/-- The part of the state that emission works on. -/
structure View where
  methods : List MethodContext
  classes : Array ClassContext
  scopes : Scopes
  loops : List LoopTarget
  tail : Bool

def view (s : FormState) : View := ⟨s.methods, s.classes, s.scopes, s.loops, s.tail⟩

namespace View

variable (v : View) (m : MethodContext)

/-- The method at work. -/
def work : MethodContext := v.methods.headD default

/-- Puts another method in place of the one at work. -/
def update : View := { v with methods := m :: v.methods.tail }

def code : CodeBuffer := v.work.code

def stack : TypeStack := v.work.stack

/-- The call sites of the class that owns the method at work. -/
def sites : List SiteSpec := ((v.classes[v.work.owner]?).map fun c => c.file.sites).getD []

/-- The depth of the operand stack, if control gets here. -/
def reach : Option Nat := Emission.reach v.stack

def widths : List Nat := Emission.widths v.stack

@[simp] theorem work_update : (v.update m).work = m := rfl
@[simp] theorem code_update : (v.update m).code = m.code := rfl
@[simp] theorem stack_update : (v.update m).stack = m.stack := rfl
@[simp] theorem reach_update : (v.update m).reach = Emission.reach m.stack := rfl
@[simp] theorem widths_update : (v.update m).widths = Emission.widths m.stack := rfl
@[simp] theorem methods_update : (v.update m).methods = m :: v.methods.tail := rfl
@[simp] theorem classes_update : (v.update m).classes = v.classes := rfl
@[simp] theorem scopes_update : (v.update m).scopes = v.scopes := rfl
@[simp] theorem loops_update : (v.update m).loops = v.loops := rfl
@[simp] theorem tail_update : (v.update m).tail = v.tail := rfl

@[simp] theorem update_update (m' : MethodContext) : (v.update m).update m' = v.update m' := rfl

theorem methods_eq {v : View} (h : v.methods ≠ []) : v.methods = v.work :: v.methods.tail := by
  obtain ⟨m, rest, hm⟩ := List.exists_cons_of_ne_nil h
  simp [work, hm]

end View

/-! ### Steps that leave the view alone -/

/-- An action that, if it ends well, has left the view alone. -/
def Aside {α : Type} (x : FormM α) : Prop := ∀ ⦃s a t⦄, x s = .ok a t → view t = view s

namespace Aside

variable {α β : Type}

theorem pure (a : α) : Aside (Pure.pure a : FormM α) := by
  intro s b t h
  cases h
  rfl

theorem fail (e : Error) : Aside (FormM.fail e : FormM α) := by
  intro s a t h
  cases h

theorem bind {x : FormM α} {f : α → FormM β} (hx : Aside x) (hf : ∀ a, Aside (f a)) :
    Aside (x >>= f) := by
  intro s b t h
  obtain ⟨a, u, hu, h⟩ := State.ok_of_bind h
  rw [hf a h, hx hu]

theorem get : Aside (MonadState.get : FormM FormState) := by
  intro s a t h
  cases h
  rfl

theorem changed {f : FormState → FormState} (hf : ∀ s, view (f s) = view s) :
    Aside (modify f : FormM Unit) := by
  intro s a t h
  cases h
  exact hf s

theorem ofExcept (x : Except Error α) : Aside (FormM.ofExcept x) := by
  cases x with
  | ok a => exact pure a
  | error e => exact fail e

theorem lift (x : Action α) : Aside (FormM.lift x) := by
  intro s a t h
  unfold FormM.lift at h
  simp only at h
  split at h
  · cases h
    rfl
  · cases h

theorem atSpan {x : FormM α} (hx : Aside x) (span : Span) : Aside (x.atSpan span) := by
  intro s a t h
  unfold FormM.atSpan at h
  split at h
  · cases h
  · exact hx h

theorem ite {c : Prop} [Decidable c] {x y : FormM α} (hx : Aside x) (hy : Aside y) :
    Aside (if c then x else y) := by
  split
  · exact hx
  · exact hy

theorem mapM {f : α → FormM β} (hf : ∀ a, Aside (f a)) (xs : List α) : Aside (xs.mapM f) := by
  induction xs with
  | nil => exact pure []
  | cons x xs ih =>
      rw [List.mapM_cons]
      exact (hf x).bind fun _ => ih.bind fun _ => pure _

theorem forM {f : α → FormM Unit} (hf : ∀ a, Aside (f a)) (xs : List α) : Aside (xs.forM f) := by
  induction xs with
  | nil => exact pure ()
  | cons x xs ih => exact (hf x).bind fun _ => ih

end Aside

/-! ### Steps that change the method at work -/

section Work

variable {α : Type} {s t : FormState} {a : α}

theorem andFinally_ok {m : FormM α} {after : FormState → FormState}
    (h : m.andFinally after s = .ok a t) : ∃ u, m s = .ok a u ∧ t = after u := by
  unfold FormM.andFinally at h
  split at h
  · rename_i b u hu
    cases h
    exact ⟨u, hu, rfl⟩
  · cases h

theorem atSpan_ok {m : FormM α} {span : Span} (h : m.atSpan span s = .ok a t) : m s = .ok a t := by
  unfold FormM.atSpan at h
  split at h
  · cases h
  · exact h

theorem ofExcept_ok {x : Except Error α} (h : FormM.ofExcept x s = .ok a t) : x = .ok a ∧ s = t := by
  cases x with
  | ok b =>
      cases h
      exact ⟨rfl, rfl⟩
  | error e => cases h

theorem method_ok {m : MethodContext} (h : FormM.method s = .ok m t) :
    s = t ∧ m = (view s).work ∧ (view s).methods ≠ [] := by
  obtain ⟨u, s', hu, h⟩ := State.ok_of_bind h
  cases hu
  cases hm : s.methods with
  | nil =>
      rw [hm] at h
      cases h
  | cons m' rest =>
      rw [hm] at h
      cases h
      exact ⟨rfl, by simp [view, View.work, hm], by simp [view, hm]⟩

theorem stack_ok {stack : TypeStack} (h : FormM.stack s = .ok stack t) :
    s = t ∧ stack = (view s).stack ∧ (view s).methods ≠ [] := by
  obtain ⟨m, u, hm, h⟩ := State.ok_of_bind h
  obtain ⟨rfl, rfl, hne⟩ := method_ok hm
  cases h
  exact ⟨rfl, rfl, hne⟩

theorem topType_ok {ty : Option Ty} (h : FormM.topType? s = .ok ty t) :
    s = t ∧ ty = (view s).stack.topType? := by
  obtain ⟨stack, u, hstack, h⟩ := State.ok_of_bind h
  obtain ⟨rfl, rfl, -⟩ := stack_ok hstack
  cases h
  exact ⟨rfl, rfl⟩

theorem isUnreachable_ok {dead : Bool} (h : FormM.isUnreachable s = .ok dead t)
    (hne : (view s).methods ≠ []) : s = t ∧ dead = (view s).stack.isUnreachable := by
  obtain ⟨u, s', hu, h⟩ := State.ok_of_bind h
  cases hu
  cases hm : s.methods with
  | nil => exact absurd hm hne
  | cons m rest =>
      rw [hm] at h
      cases h
      exact ⟨rfl, by simp [view, View.stack, View.work, hm]⟩

theorem modifyMethod_ok {f : MethodContext → MethodContext} {u : Unit}
    (h : FormM.modifyMethod f s = .ok u t) :
    (view s).methods ≠ [] ∧ view t = (view s).update (f (view s).work) := by
  obtain ⟨s', u', hu, h⟩ := State.ok_of_bind h
  cases hu
  cases hm : s.methods with
  | nil =>
      rw [hm] at h
      cases h
  | cons m rest =>
      rw [hm] at h
      cases h
      exact ⟨by simp [view, hm], by simp [view, View.update, View.work, hm]⟩

theorem modifyStack_ok {f : TypeStack → TypeStack} {u : Unit} (h : FormM.modifyStack f s = .ok u t) :
    view t = (view s).update { (view s).work with stack := f (view s).stack } := (modifyMethod_ok h).2

theorem modifyCode_ok {f : CodeBuffer → CodeBuffer} {u : Unit} (h : FormM.modifyCode f s = .ok u t) :
    view t = (view s).update { (view s).work with code := f (view s).code } := (modifyMethod_ok h).2

theorem onCode_ok {f : CodeBuffer → α × CodeBuffer} (h : FormM.onCode f s = .ok a t) :
    a = (f (view s).code).1 ∧
      view t = (view s).update { (view s).work with code := (f (view s).code).2 } := by
  obtain ⟨m, u, hm, h⟩ := State.ok_of_bind h
  obtain ⟨rfl, rfl, -⟩ := method_ok hm
  obtain ⟨⟨⟩, u', hu', h⟩ := State.ok_of_bind h
  cases h
  exact ⟨rfl, modifyCode_ok hu'⟩

/-! ### Emitting -/

/-- What an instruction makes of the method it is appended to. -/
def View.emitted (v : View) (i : Instruction) (stack : TypeStack) : View :=
  v.update { v.work with
    code := v.code.push i
    stack := if i.endsBlock then stack.pushUnreachable else stack }

/-- Emitting does nothing where control does not get; elsewhere the effect of the instruction is applied. -/
theorem emit_run {i : Instruction} {u : Unit} (h : FormM.emit i s = .ok u t) :
    ((view s).stack.isUnreachable = true ∧ view t = view s) ∨
      (view s).stack.isUnreachable = false ∧ ∃ e stack, i.effect (view s).sites = .ok e ∧
        (view s).stack.apply e = (.ok (), stack) ∧ view t = (view s).emitted i stack := by
  obtain ⟨s', u', hu, h⟩ := State.ok_of_bind h
  cases hu
  cases hm : s.methods with
  | nil =>
      rw [hm] at h
      cases h
  | cons m rest =>
      have hwork : (view s).work = m := by simp [view, View.work, hm]
      rw [hm] at h
      simp only at h
      split at h
      · rename_i hdead
        cases h
        exact .inl ⟨by rw [View.stack, hwork, hdead], rfl⟩
      · rename_i hlive
        rw [Bool.not_eq_true] at hlive
        obtain ⟨e, s₁, he, h⟩ := State.ok_of_bind h
        obtain ⟨heffect, rfl⟩ := ofExcept_ok he
        obtain ⟨⟨⟩, s₁, h₁, h⟩ := State.ok_of_bind h
        obtain ⟨⟨⟩, s₂, h₂, h⟩ := State.ok_of_bind h
        obtain ⟨hresult, rfl⟩ := ofExcept_ok h₂
        obtain ⟨⟨⟩, s₃, h₃, h⟩ := State.ok_of_bind h
        have hview₁ := modifyStack_ok h₁
        have hview₃ := modifyCode_ok h₃
        rw [hview₁] at hview₃
        have happly : m.stack.apply e = (.ok (), (m.stack.apply e).2) := by rw [← hresult]
        refine .inr ⟨by rw [View.stack, hwork, hlive], e, (m.stack.apply e).2, ?_, ?_, ?_⟩
        · rw [View.sites, hwork]
          exact heffect
        · rw [View.stack, hwork]
          exact happly
        · split at h
          · rename_i hends
            have hview := modifyStack_ok h
            rw [hview₃] at hview
            rw [hview, View.emitted, hends]
            rfl
          · rename_i hends
            cases h
            rw [hview₃, View.emitted, if_neg hends]
            rfl

/-- What an instruction does to widths, where control gets. -/
theorem emit_ok {i : Instruction} {u : Unit} (h : FormM.emit i s = .ok u t) :
    ((view s).stack.isUnreachable = true ∧ view t = view s) ∨
      (view s).stack.isUnreachable = false ∧ ∃ e stack, i.effect (view s).sites = .ok e ∧
        Applied (view s).stack e stack ∧ view t = (view s).emitted i stack := by
  obtain hdead | ⟨hlive, e, stack, he, happly, hview⟩ := emit_run h
  · exact .inl hdead
  · exact .inr ⟨hlive, e, stack, he, apply_ok hlive happly, hview⟩

end Work

/-! ### Steps that change the class at work -/

section Classes

variable {s t : FormState}

/-- Changes the class that owns the method at work. -/
def View.onClass (v : View) (f : ClassContext → ClassContext) : View :=
  { v with classes := v.classes.modify v.work.owner f }

theorem ownerIndex_ok {i : Nat} (hne : (view s).methods ≠ []) (h : FormM.ownerIndex s = .ok i t) :
    s = t ∧ i = (view s).work.owner := by
  obtain ⟨s', u, hu, h⟩ := State.ok_of_bind h
  cases hu
  cases hm : s.methods with
  | nil => exact absurd hm hne
  | cons m rest =>
      rw [hm] at h
      cases h
      exact ⟨rfl, by simp [view, View.work, hm]⟩

theorem currentClass_ok {c : ClassContext} (hne : (view s).methods ≠ [])
    (h : FormM.currentClass s = .ok c t) :
    s = t ∧ (view s).classes[(view s).work.owner]? = some c := by
  obtain ⟨s', u, hu, h⟩ := State.ok_of_bind h
  cases hu
  obtain ⟨i, u, hi, h⟩ := State.ok_of_bind h
  obtain ⟨rfl, rfl⟩ := ownerIndex_ok hne hi
  cases hc : s.classes[(view s).work.owner]? with
  | none =>
      simp only [hc] at h
      cases h
  | some c' =>
      simp only [hc] at h
      cases h
      exact ⟨rfl, hc⟩

theorem modifyClass_ok {f : ClassContext → ClassContext} {u : Unit} (hne : (view s).methods ≠ [])
    (h : FormM.modifyClass f s = .ok u t) : view t = (view s).onClass f := by
  obtain ⟨i, s', hi, h⟩ := State.ok_of_bind h
  obtain ⟨rfl, rfl⟩ := ownerIndex_ok hne hi
  cases h
  rfl

/-- Adds a call site to the class at work. -/
def View.addSite (v : View) (spec : SiteSpec) : View :=
  v.onClass fun c => { c with file := { c.file with sites := c.file.sites ++ [spec] } }

theorem View.sites_eq {v : View} {c : ClassContext} (hc : v.classes[v.work.owner]? = some c) :
    v.sites = c.file.sites := by
  simp [View.sites, hc]

theorem View.getElem?_onClass {v : View} {c : ClassContext} (hc : v.classes[v.work.owner]? = some c)
    (f : ClassContext → ClassContext) : (v.onClass f).classes[v.work.owner]? = some (f c) := by
  simp only [View.onClass]
  rw [Array.getElem?_modify, if_pos rfl, hc]
  rfl

theorem View.sites_addSite {v : View} {c : ClassContext} (hc : v.classes[v.work.owner]? = some c)
    (spec : SiteSpec) : (v.addSite spec).sites = v.sites ++ [spec] := by
  rw [View.sites_eq hc]
  exact View.sites_eq (View.getElem?_onClass hc _)

theorem emitCall_ok {spec : SiteSpec} {u : Unit} (hne : (view s).methods ≠ [])
    (h : FormM.emitCall spec s = .ok u t) :
    ∃ s₁, view s₁ = (view s).addSite spec ∧ (view s₁).sites = (view s).sites ++ [spec] ∧
      FormM.emit (.invokeDynamic (view s).sites.length) s₁ = .ok u t := by
  obtain ⟨c, s', hcurrent, h⟩ := State.ok_of_bind h
  obtain ⟨rfl, hc⟩ := currentClass_ok hne hcurrent
  obtain ⟨⟨⟩, s₁, h₁, h⟩ := State.ok_of_bind h
  have hview : view s₁ = (view s).addSite spec := modifyClass_ok hne h₁
  refine ⟨s₁, hview, ?_, ?_⟩
  · rw [hview, View.sites_addSite hc]
  · rwa [View.sites_eq hc]

theorem className_ok {name : String} (hne : (view s).methods ≠ [])
    (h : FormM.className s = .ok name t) : s = t := by
  obtain ⟨c, s', hc, h⟩ := State.ok_of_bind h
  obtain ⟨rfl, -⟩ := currentClass_ok hne hc
  cases h
  rfl

theorem capture_ok {name : String} {ty : Ty} {r : Capture} (hne : (view s).methods ≠ [])
    (h : FormM.capture name ty s = .ok r t) :
    view t = view s ∨
      view t = (view s).onClass fun c => { c with captures := c.captures ++ [r] } := by
  obtain ⟨c, s', hc, h⟩ := State.ok_of_bind h
  obtain ⟨rfl, -⟩ := currentClass_ok hne hc
  dsimp only at h
  split at h
  · cases h
  · cases hfind : c.captures.find? fun r => r.name == name with
    | some r' =>
        simp only [hfind] at h
        cases h
        exact .inl rfl
    | none =>
        simp only [hfind] at h
        obtain ⟨⟨⟩, s₁, h₁, h⟩ := State.ok_of_bind h
        cases h
        exact .inr (modifyClass_ok hne h₁)

end Classes

/-! ### Steps inside others -/

section Nesting

variable {α : Type} {s t : FormState} {a : α} {m : FormM α}

theorem withTail_ok {tail : Bool} (h : FormM.withTail tail m s = .ok a t) :
    ∃ s₁ t₁, view s₁ = { view s with tail } ∧ m s₁ = .ok a t₁ ∧
      view t = { view t₁ with tail := (view s).tail } := by
  obtain ⟨s', u, hu, h⟩ := State.ok_of_bind h
  cases hu
  obtain ⟨⟨⟩, s₁, h₁, h⟩ := State.ok_of_bind h
  cases h₁
  obtain ⟨t₁, hm, rfl⟩ := andFinally_ok h
  exact ⟨_, t₁, rfl, hm, rfl⟩

theorem bindName_ok {b : Binding} {u : Unit} (h : FormM.bindName b s = .ok u t) :
    ∃ scopes, (view s).scopes.bind b = .ok scopes ∧ view t = { view s with scopes } := by
  obtain ⟨s', u', hu, h⟩ := State.ok_of_bind h
  cases hu
  obtain ⟨scopes, u', hscopes, h⟩ := State.ok_of_bind h
  obtain ⟨hbind, rfl⟩ := ofExcept_ok hscopes
  cases h
  exact ⟨scopes, hbind, rfl⟩

/-- Gives back the slots of bindings. -/
def freeAll (code : CodeBuffer) (bindings : List Binding) : CodeBuffer :=
  bindings.foldl (fun (code : CodeBuffer) b =>
    match b.slot with
    | .local slot => code.freeSlot slot
    | _ => code) code

/-- Behind a scope its frame is gone, and slots of the frames that were dropped may have been given back. -/
theorem withScope_run {kind : ScopeKind} (h : FormM.withScope kind m s = .ok a t) :
    ∃ s₁ t₁, view s₁ = { view s with scopes := (view s).scopes.push kind (view s).methods.length } ∧
      m s₁ = .ok a t₁ ∧
      (let v₁ := { view t₁ with scopes := ((view t₁).scopes.truncate (view s).scopes.depth).2 }
       view t = v₁ ∨ ∃ bindings,
        (∀ b ∈ bindings, ∃ f ∈ (view t₁).scopes.frames.take ((view t₁).scopes.depth - (view s).scopes.depth),
          b ∈ f.bindings ∧ f.level = (view s).methods.length ∧ f.kind = .methodLet) ∧
        (view t₁).methods.length = (view s).methods.length ∧ (view t₁).methods ≠ [] ∧
        view t = v₁.update { v₁.work with code := freeAll v₁.code bindings }) := by
  obtain ⟨s', u, hu, h⟩ := State.ok_of_bind h
  cases hu
  obtain ⟨⟨⟩, s₁, h₁, h⟩ := State.ok_of_bind h
  cases h₁
  obtain ⟨t₁, hm, rfl⟩ := andFinally_ok h
  refine ⟨_, t₁, rfl, hm, ?_⟩
  simp only [FormM.releaseSlots]
  cases hmethods : t₁.methods with
  | nil => exact .inl (by simp [view, hmethods])
  | cons c rest =>
      simp only
      split
      · rename_i hlen
        let dropped := (t₁.scopes.truncate s.scopes.depth).1
        refine .inr ⟨(dropped.filter fun f => f.kind == .methodLet && f.level == s.methods.length).flatMap
          fun f => f.bindings.reverse, ?_, ?_, by simp [view, hmethods], ?_⟩
        rotate_left
        · simpa [view, hmethods] using hlen
        · simp only [view, View.update, View.work, View.code, hmethods, freeAll, List.headD_cons,
            List.tail_cons]
          rfl
        · intro b hb
          obtain ⟨f, hf, hb⟩ := List.mem_flatMap.1 hb
          obtain ⟨hf, hkind⟩ := List.mem_filter.1 hf
          simp only [Bool.and_eq_true, beq_iff_eq] at hkind
          exact ⟨f, List.mem_reverse.1 hf, List.mem_reverse.1 hb, hkind.2, hkind.1⟩
      · exact .inl (by simp [view, hmethods])

theorem withScope_ok {kind : ScopeKind} (h : FormM.withScope kind m s = .ok a t) :
    ∃ s₁ t₁, view s₁ = { view s with scopes := (view s).scopes.push kind (view s).methods.length } ∧
      m s₁ = .ok a t₁ ∧
      (let v₁ := { view t₁ with scopes := ((view t₁).scopes.truncate (view s).scopes.depth).2 }
       view t = v₁ ∨ ∃ bindings,
        (∀ b ∈ bindings, ∃ f ∈ (view t₁).scopes.frames, b ∈ f.bindings ∧ f.level = (view s).methods.length ∧
          f.kind = .methodLet) ∧
        (view t₁).methods.length = (view s).methods.length ∧ (view t₁).methods ≠ [] ∧
        view t = v₁.update { v₁.work with code := freeAll v₁.code bindings }) := by
  obtain ⟨s₁, t₁, hs₁, hm, ht | ⟨bindings, hbindings, hrest⟩⟩ := withScope_run h
  · exact ⟨s₁, t₁, hs₁, hm, .inl ht⟩
  · refine ⟨s₁, t₁, hs₁, hm, .inr ⟨bindings, fun b hb => ?_, hrest⟩⟩
    obtain ⟨f, hf, hrest⟩ := hbindings b hb
    exact ⟨f, List.mem_of_mem_take hf, hrest⟩

end Nesting

end LispMachine.Emission
