import LispMachine.Form.Analysis
import LispMachine.Proofs.Emission.View

/-! # Steps beside emission

Looking names up, expanding and analysing forms, planning templates and changing namespaces: all of this
leaves the code being emitted alone. -/

namespace LispMachine.Emission

/-! ### Reading the state -/

theorem aside_world : Aside FormM.world := .bind .get fun _ => .pure _

theorem aside_registry : Aside FormM.registry := .bind .get fun _ => .pure _

theorem aside_tryDepth : Aside FormM.tryDepth := .bind .get fun _ => .pure _

theorem tryDepth_ok {s t : FormState} {d : Nat} (hne : (view s).methods ≠ []) (hrun : FormM.tryDepth s = .ok d t) :
    s = t ∧ d = (view s).work.tryDepth := by
  obtain ⟨s', s₁, h₁, hrun⟩ := State.ok_of_bind hrun
  cases h₁
  cases hmethods : s.methods with
  | nil => exact absurd hmethods hne
  | cons m rest =>
    rw [hmethods] at hrun
    cases hrun
    exact ⟨rfl, by simp [view, View.work, hmethods]⟩

theorem aside_lookup (name : String) : Aside (FormM.lookup name) := .bind .get fun _ => .ofExcept _

theorem aside_importClass (full : String) : Aside (FormM.importClass full) :=
  .bind .get fun _ => .bind (.ofExcept _) fun _ => .changed fun _ => rfl

theorem aside_warn (span : Option Span) (message : String) : Aside (FormM.warn span message) := .lift _

/-! ### Names -/

theorem aside_resolve (name : String) : Aside (Form.resolve name) := by
  refine .bind (aside_lookup name) fun r => ?_
  cases r with
  | some r => exact .pure r
  | none => exact .fail _

theorem aside_resolveHint (hint : String) : Aside (Form.resolveHint hint) := by
  unfold Form.resolveHint
  split
  · exact .pure _
  · refine .bind aside_world fun w => ?_
    split
    · exact .pure _
    · exact .fail _

theorem aside_classArg (d : Datum) : Aside (Form.classArg d) := by
  unfold Form.classArg
  split
  · exact .fail _
  · refine .bind aside_world fun w => ?_
    split
    · exact .pure _
    · refine .bind (aside_lookup _) fun r => ?_
      split
      · exact .pure _
      · exact .fail _

theorem aside_newParts (d : Datum) : Aside (Form.newParts d) := by
  unfold Form.newParts
  split
  · exact .fail _
  · exact .bind (aside_classArg _) fun c => .ite (.fail _) (.pure _)

theorem aside_staticTarget (d : Datum) : Aside (Form.staticTarget? d) := by
  unfold Form.staticTarget?
  split
  · exact .pure _
  · refine .bind (aside_lookup _) fun r => ?_
    split
    · exact .pure _
    · exact .pure _

theorem aside_instanceTestParts (d : Datum) : Aside (Form.instanceTestParts d) := by
  unfold Form.instanceTestParts
  split
  · exact .bind (aside_classArg _) fun _ => .pure _
  · exact .fail _

theorem aside_hintApplies (l : Form.LocalInit) (hint : String) (hinted inferred : Ty) :
    Aside (Form.hintApplies l hint hinted inferred) := by
  refine .bind aside_world fun w => .ite (.pure _) ?_
  split
  · exact .bind (aside_warn _ _) fun _ => .pure _
  · exact .pure _

theorem aside_namedVar (d : Datum) : Aside (Form.namedVar d) := by
  unfold Form.namedVar
  split
  · split
    · exact .fail _
    · refine .bind (aside_lookup _) fun r => ?_
      split
      · exact .pure _
      · exact .fail _
  · exact .fail _

theorem aside_internTarget (target : Datum) (name : String) : Aside (Form.internTarget target name) := by
  refine .bind aside_world fun w => ?_
  dsimp only
  split
  · exact .bind (.pure _) fun _ => .lift _
  · split
    · exact .bind (.pure _) fun _ => .lift _
    · exact .bind (.fail _) fun _ => .lift _

/-! ### Namespaces -/

theorem aside_importAll (specs : List Datum) : Aside (Form.importAll specs) := by
  induction specs with
  | nil => exact .pure _
  | cons spec rest ih =>
      refine .bind (.ofExcept _) fun names => ?_
      refine .bind (.atSpan (.forM aside_importClass names) _) fun _ => ?_
      exact .bind ih fun _ => .pure _

theorem aside_require (d : Datum) (space : String) (target : String × Option String) :
    Aside (Form.require d space target) := by
  refine .bind aside_world fun w => .ite (.fail _) ?_
  split
  · exact .lift _
  · exact .pure _

theorem aside_enterForm (d : Datum) (form : Form.SpaceForm) : Aside (Form.enterForm d form) := by
  refine .bind (.lift _) fun _ => ?_
  exact .bind (.forM (aside_require d form.name) _) fun _ => aside_importAll _

/-! ### Expansion and analysis -/

theorem aside_junction (op : String) (empty : Datum) (args : List Datum) (d : Datum) :
    Aside (Expansion.junction op empty args d) := by
  unfold Expansion.junction
  split
  · exact .pure _
  · exact .pure _
  · exact .bind (.lift _) fun _ => .pure _

theorem aside_derive (d : Datum) : Aside (Expansion.derive? d) := by
  unfold Expansion.derive?
  split
  · exact .pure _
  · split
    · exact .pure _
    · split
      · exact .pure _
      · refine .ite (.bind (.ofExcept _) fun _ => .pure _) ?_
        refine .ite (.bind (.ofExcept _) fun _ => .pure _) ?_
        refine .ite (.bind (.ofExcept _) fun _ => .pure _) ?_
        refine .ite (.bind (aside_junction ..) fun _ => .pure _) ?_
        refine .ite (.bind (aside_junction ..) fun _ => .pure _) ?_
        refine .ite (.bind (.ofExcept _) fun _ => .pure _) ?_
        refine .ite (.bind (.ofExcept _) fun _ => .pure _) ?_
        exact .ite (.pure _) (.bind aside_world fun _ => .ofExcept _)

theorem aside_applyExpander [Libraries] (call : Caller) (v : VarRef) (d : Datum) :
    Aside (Expansion.applyExpander call v d) := by
  refine .bind (.lift _) fun callee => ?_
  exact .bind (.atSpan (.lift _) _) fun _ => .ofExcept _

theorem aside_expandOnce [Libraries] (call : Caller) (d : Datum) : Aside (Expansion.expandOnce call d) := by
  unfold Expansion.expandOnce
  split
  · exact .pure _
  · refine .bind (aside_lookup _) fun r => ?_
    split
    · refine .bind aside_world fun w => .ite ?_ (.pure _)
      exact .bind (aside_applyExpander ..) fun _ => .pure _
    · exact .pure _
    · exact aside_derive d

theorem aside_expandWithin [Libraries] (call : Caller) (origin : Datum) (left steps : Nat) (d : Datum) :
    Aside (Expansion.expandWithin call origin left steps d) := by
  induction left generalizing steps d with
  | zero => exact .fail _
  | succ left ih =>
      refine .bind (aside_expandOnce call d) fun next => ?_
      cases next with
      | none => exact .pure _
      | some next => exact .ite (.pure _) (ih _ _)

theorem aside_expand [Libraries] (call : Caller) (d : Datum) : Aside (Expansion.expand call d) :=
  aside_expandWithin ..

theorem aside_calleeOf (head : Datum) : Aside (Form.calleeOf head) := by
  unfold Form.calleeOf
  split
  · exact .pure _
  · refine .bind (aside_lookup _) fun r => ?_
    split
    · refine .bind aside_world fun w => ?_
      split
      · exact .pure _
      · exact .pure _
    · exact .pure _
    · exact .fail _

theorem aside_analyseCall [Libraries] (call : Caller) (head d : Datum) : Aside (Form.analyseCall call head d) := by
  refine .bind (aside_expand call d) fun r => .ite (.pure _) ?_
  refine .bind (aside_calleeOf head) fun callee => ?_
  split
  · exact .bind (.ofExcept _) fun _ => .pure _
  · exact .pure _
  · exact .pure _
  · exact .pure _

theorem aside_analyse [Libraries] (call : Caller) (d : Datum) : Aside (Form.analyse call d) := by
  refine .atSpan ?_ _
  split
  · exact .pure _
  · exact .bind (.ofExcept _) fun _ => .pure _
  · exact .pure _
  · exact aside_analyseCall ..
  · split
    · exact .pure _
    · exact .pure _

/-! ### Templates -/

theorem aside_templateName (name : String) : Aside (Template.templateName name) := by
  refine .bind (.lift _) fun n => .bind .get fun s => ?_
  split
  · exact .fail _
  · split
    · exact .bind (.lift _) fun _ => .pure _
    · exact .bind (.lift _) fun _ => .bind (.changed fun _ => rfl) fun _ => .pure _

theorem aside_qualify (name : String) : Aside (Template.qualify name) :=
  .ite (aside_templateName name) (.ite (.pure _) (.bind aside_world fun _ => .pure _))

mutual

theorem aside_qualifyDatum : ∀ d, Aside (Template.qualifyDatum d)
  | .atom a i => by
      cases a with
      | symbol name => exact .bind (aside_qualify name) fun _ => .pure _
      | _ => exact .pure _
  | .list items i => .bind (aside_qualifyData items) fun _ => .pure _
  | .vector items i => .bind (aside_qualifyData items) fun _ => .pure _
  | .set items i => .bind (aside_qualifyData items) fun _ => .pure _
  | .map entries i => .bind (aside_qualifyEntries entries) fun _ => .pure _

theorem aside_qualifyData : ∀ ds, Aside (Template.qualifyData ds)
  | [] => .pure _
  | d :: ds => .bind (aside_qualifyDatum d) fun _ => .bind (aside_qualifyData ds) fun _ => .pure _

theorem aside_qualifyEntries : ∀ es, Aside (Template.qualifyEntries es)
  | [] => .pure _
  | (k, v) :: rest => .bind (aside_qualifyDatum k) fun _ => .bind (aside_qualifyDatum v) fun _ =>
      .bind (aside_qualifyEntries rest) fun _ => .pure _

end

theorem aside_constantElement (d : Datum) : Aside (Template.constantElement d) := by
  unfold Template.constantElement
  split
  · exact .bind (aside_qualify _) fun _ => .pure _
  · exact .ofExcept _
  · exact .bind (aside_qualifyDatum _) fun _ => .pure _

mutual

theorem aside_plan : ∀ d, Aside (Template.plan d)
  | .atom a i => .bind (aside_constantElement _) fun _ => .pure _
  | .list items i => by
      unfold Template.plan
      split
      · exact .pure _
      · exact .ite (.bind (aside_planAll items) fun _ => .pure _)
          (.bind (aside_constantElement _) fun _ => .pure _)
  | .vector items i => .ite (.bind (aside_planAll items) fun _ => .pure _)
      (.bind (aside_constantElement _) fun _ => .pure _)
  | .set items i => .ite (.bind (aside_planAll items) fun _ => .pure _)
      (.bind (aside_constantElement _) fun _ => .pure _)
  | .map entries i => .ite
      (.bind (aside_planEntries entries) fun _ => .ite (.fail _) (.pure _))
      (.bind (aside_constantElement _) fun _ => .pure _)

theorem aside_planAll : ∀ ds, Aside (Template.planAll ds)
  | [] => .pure _
  | d :: ds => .bind (aside_plan d) fun _ => .bind (aside_planAll ds) fun _ => .pure _

theorem aside_planEntries : ∀ es, Aside (Template.planEntries es)
  | [] => .pure _
  | (k, v) :: rest => .bind (aside_plan k) fun _ => .bind (aside_plan v) fun _ =>
      .bind (aside_planEntries rest) fun _ => .pure _

end

end LispMachine.Emission
