import LispMachine.Proofs.Agreement.Operands
import LispMachine.Proofs.Emission.Templates
import LispMachine.Proofs.Template.Naming

/-! # Code that builds a template

A template is compiled in two passes: a plan is made, which settles all names, and then the code of the plan is
emitted.  `Gives` says which values a plan stands for, and both passes are measured by it: what the code of a
plan leaves on the stack is a value the plan gives (`emitPlan_pushes`), and what the plan of a template gives
is what the template is filled to (`plan_planned`). -/

namespace LispMachine.Template

open Form Emission Machine Agreement

mutual
/-- The values that a plan stands for, given those of the unquoted forms. -/
def Gives [Libraries] (value : Datum → Value) : Plan → Value → Prop
  | .constant c, v => ∃ w, constantValue w c = .ok v
  | .compute inner, v => v = value inner
  | .build kind items _, v => ∃ vs parts, GivesEach value items vs ∧
      spliceItems vs (items.map fun p => p.2.2) = .ok parts ∧ buildCollection kind parts = .ok v
termination_by structural p => p

def GivesEach [Libraries] (value : Datum → Value) : List (Datum × Plan × Bool) → List Value → Prop
  | [], vs => vs = []
  | (_, p, _) :: rest, vs => ∃ v vs', Gives value p v ∧ GivesEach value rest vs' ∧ vs = v :: vs'
termination_by structural ps => ps
end

mutual
/-- The unquoted forms that the code of a plan computes. -/
def formsOfPlan : Plan → List Datum
  | .constant _ => []
  | .compute inner => [inner]
  | .build _ items _ => formsOfPlans items
termination_by structural p => p

def formsOfPlans : List (Datum × Plan × Bool) → List Datum
  | [] => []
  | (_, p, _) :: rest => formsOfPlan p ++ formsOfPlans rest
termination_by structural ps => ps
end

/-! ### Splicing -/

theorem spliceItems_cons {v : Value} {vs parts : List Value} {splice : Bool} {splices : List Bool}
    (h : spliceItems (v :: vs) (splice :: splices) = .ok parts) :
    ∃ items rest, contribution? (v, splice) = some items ∧ spliceItems vs splices = .ok rest ∧
      parts = items ++ rest := by
  cases splice with
  | true =>
    cases hitems : v.items? with
    | none =>
      rw [spliceItems, hitems] at h
      cases h
    | some items =>
      rw [spliceItems, hitems] at h
      obtain ⟨rest, hrest, h⟩ := bind_ok h
      cases h
      exact ⟨items, rest, hitems, hrest, rfl⟩
  | false =>
    rw [spliceItems] at h
    obtain ⟨rest, hrest, h⟩ := bind_ok h
    cases h
    exact ⟨[v], rest, rfl, hrest, rfl⟩

/-- Where nothing is spliced in, the items stay as they are. -/
theorem spliceItems_plain {vs : List Value} {splices : List Bool} (hlength : vs.length = splices.length)
    (hsplices : true ∉ splices) : spliceItems vs splices = .ok vs := by
  induction vs generalizing splices with
  | nil => rfl
  | cons v vs ih =>
    cases splices with
    | nil => cases hlength
    | cons splice splices =>
      simp only [List.mem_cons, not_or] at hsplices
      obtain rfl : splice = false := by simpa using hsplices.1
      rw [spliceItems, ih (Nat.succ.inj hlength) hsplices.2]
      rfl

theorem givesEach_length [Libraries] {value : Datum → Value} {items : List (Datum × Plan × Bool)} {vs : List Value}
    (h : GivesEach value items vs) : vs.length = items.length := by
  induction items generalizing vs with
  | nil => rw [show vs = [] from h]; rfl
  | cons item items ih =>
    obtain ⟨v, vs', -, hvs', rfl⟩ := h
    rw [List.length_cons, List.length_cons, ih hvs']

/-! ### Emission -/

section Emit

variable {h : Handlers} {locals : Array Value} {value : Datum → Value} {type : Datum → Ty} {s t : FormState}
  {u : Unit}

/-- The instruction that is emitted behind the parts of a collection builds it. -/
theorem pushes_collection [Libraries] {kind : CollectionKind} {items : List (Datum × Plan × Bool)} {count : Nat}
    {s₁ : FormState} {code : List Instruction} {tys : List Ty}
    (hcount : items.length = if kind = .map then count * 2 else count) (hwidth : ∀ ty ∈ tys, ty.width = 1)
    (htys : tys.length = items.length) (hparts : PushesEach locals s s₁ code tys (GivesEach value items))
    (hlive : (view s).stack.isUnreachable = false)
    (hrun : (if (items.map fun p => p.2.2).contains true then
        FormM.emit (.buildSpliced kind (items.map fun p => p.2.2))
      else FormM.emit (.makeCollection kind count)) s₁ = .ok u t) :
    ∃ code ty, Pushes locals s t code ty (Gives value (.build kind items count)) := by
  split at hrun
  · refine ⟨_, _, hparts.collect hlive (fun _ => rfl) (by simp [htys]) rfl (by nofun) (by trivial) ?_ hrun⟩
    intro call body r r' vs rest hvs hlength hstack hperforms
    rw [slotsOfEach_reverse hlength hwidth] at hstack
    obtain ⟨parts, v, hsplice, hbuild, rfl⟩ :=
      performs_buildSpliced (by rw [hlength, htys, List.length_map]) hstack hperforms
    exact ⟨v, ⟨vs, parts, hvs, hsplice, hbuild⟩, rfl⟩
  · rename_i hsplices
    rw [List.contains_iff_mem] at hsplices
    refine ⟨_, _, hparts.collect hlive (fun _ => rfl) (by simp [htys, hcount]) rfl (by nofun) (by trivial) ?_ hrun⟩
    intro call body r r' vs rest hvs hlength hstack hperforms
    rw [slotsOfEach_reverse hlength hwidth] at hstack
    obtain ⟨v, hbuild, rfl⟩ := performs_makeCollection (by rw [hlength, htys, hcount]) hstack hperforms
    have hplain := spliceItems_plain (by rw [givesEach_length hvs, List.length_map]) hsplices
    exact ⟨v, ⟨vs, vs, hvs, hplain, hbuild⟩, rfl⟩

mutual
/-- The code of a plan pushes a value that the plan gives. -/
theorem emitPlan_pushes [Libraries] (p : Plan) (hcounted : Counted p) {d : Datum} {s t : FormState} {u : Unit}
    (hforms : ∀ e ∈ formsOfPlan p, Computes h locals s e (type e) (value e))
    (hlive : (view s).stack.isUnreachable = false) (hrun : emitPlan h d p s = .ok u t) :
    ∃ code ty, Pushes locals s t code ty (Gives value p) := by
  match p with
  | .constant c =>
    exact ⟨_, _, pushes_constant hlive (fun w v hv => ⟨w, hv⟩) (emitForm_ok hrun).2⟩
  | .compute inner =>
    obtain ⟨code, hpushes⟩ := hforms inner (List.mem_singleton_self inner) rfl rfl hlive (emitForm_ok hrun).2
    exact ⟨code, _, hpushes⟩
  | .build kind items count =>
    obtain ⟨hne, hrun⟩ := emitForm_ok hrun
    obtain ⟨⟨⟩, s₁, h₁, hrun⟩ := State.ok_of_bind hrun
    obtain ⟨t₁, ht₁, rfl⟩ := withTail_run h₁
    obtain ⟨code, tys, hwidth, htys, hparts⟩ :=
      emitPlans_pushes (s := { s with tail := false }) items hcounted.2 hne hforms hlive ht₁
    exact pushes_collection hcounted.1 hwidth htys hparts.outOfTail hlive hrun

theorem emitPlans_pushes [Libraries] (ps : List (Datum × Plan × Bool)) (hcounted : AllCounted ps) {s t : FormState}
    {u : Unit}
    (hne : (view s).methods ≠ []) (hforms : ∀ e ∈ formsOfPlans ps, Computes h locals s e (type e) (value e))
    (hlive : (view s).stack.isUnreachable = false) (hrun : emitPlans h ps s = .ok u t) :
    ∃ code tys, (∀ ty ∈ tys, ty.width = 1) ∧ tys.length = ps.length ∧
      PushesEach locals s t code tys (GivesEach value ps) := by
  match ps with
  | [] =>
    cases hrun
    exact ⟨[], [], nofun, rfl, .none hne⟩
  | (d, p, splice) :: rest =>
    obtain ⟨⟨⟩, s₁, h₁, hrun⟩ := State.ok_of_bind hrun
    obtain ⟨⟨⟩, s₂, h₂, hrun⟩ := State.ok_of_bind hrun
    simp only [formsOfPlans, List.mem_append] at hforms
    obtain ⟨code, ty, hfirst⟩ := emitPlan_pushes p hcounted.1 (fun e he => hforms e (.inl he)) hlive h₁
    have hboxed := hfirst.boxTop hlive h₂
    obtain ⟨code', tys, hwidth, htys, hrest⟩ := emitPlans_pushes rest hcounted.2 hboxed.adds.methods_ne
      (fun e he => (hforms e (.inr he)).later hne hboxed.adds hboxed.unmoved) (hboxed.live hlive) hrun
    refine ⟨_, _, List.forall_mem_cons.mpr ⟨boxed_width hfirst.ne_void, hwidth⟩, congrArg Nat.succ htys,
      (hboxed.each.append hrest).imp ?_⟩
    rintro vs ⟨-, vs', rfl, ⟨v, hv, rfl⟩, hvs'⟩
    exact ⟨v, vs', hv, hvs', rfl⟩
end

end Emit

/-! ### Planning -/

section Plan

variable {s t : FormState}

theorem fill?_atom [Libraries] {f : Filling} {a : Atom} {i : Info} {c : Constant} (hc : atomConstant? a = some c)
    {w : World}
    {v : Value} (hv : constantValue w c = .ok v) : fill? f (.atom a i) = some (v, false) := by
  rw [constantValue_atom hc hv]
  cases a with
  | symbol name => cases hc
  | _ => rfl

/-- An element without unquoted parts is kept as a constant that has the value it is filled to. -/
theorem constantElement_settles [Libraries] {d : Datum} {c : Constant} (hd : hasUnquote d = false)
    (hrun : constantElement d s = .ok c t) :
    Settles (symbolsOf d) s t ∧
      ∀ f, Reads f t → ∀ w v, constantValue w c = .ok v → fill? f d = some (v, false) := by
  have hquoted : ∀ {d : Datum}, hasUnquote d = false →
      (do return Constant.quoted (← qualifyDatum d)) s = .ok c t → Settles (symbolsOf d) s t ∧
        ∀ f, Reads f t → ∀ w v, constantValue w c = .ok v → fill? f d = some (v, false) := by
    intro d hd hrun
    obtain ⟨e, s₁, h₁, hrun⟩ := State.ok_of_bind hrun
    cases hrun
    obtain ⟨hsettles, hfill⟩ := qualifyDatum_settles d hd h₁
    refine ⟨hsettles, fun f hf w v hv => ?_⟩
    cases hv
    exact hfill f hf
  cases d with
  | atom a i =>
    cases a with
    | symbol name =>
      obtain ⟨made, s₁, h₁, hrun⟩ := State.ok_of_bind hrun
      cases hrun
      obtain ⟨hsettles, hreads⟩ := qualify_settles h₁
      refine ⟨hsettles, fun f hf w v hv => ?_⟩
      cases hv
      rw [fill?, ← hreads f hf]
    | _ =>
      cases hrun
      exact ⟨.refl _, fun f _ w v hv => fill?_atom rfl hv⟩
  | _ => exact hquoted hd hrun

/-- The plan of an element: making it settles the names of the element, and it gives what the element is filled
to. -/
structure Planned [Libraries] (d : Datum) (p : Plan) (splice : Bool) (s t : FormState) : Prop where
  settles : Settles (symbolsOf d) s t
  forms : ∀ e ∈ formsOfPlan p, e ∈ formsOf d
  gives : ∀ f, Reads f t → ∀ v, Gives f.value p v → fill? f d = some (v, splice)

theorem planned_constant [Libraries] {d : Datum} {p : Plan} {splice : Bool} (hd : hasUnquote d = false)
    (hrun : (do return (Plan.constant (← constantElement d), false)) s = .ok (p, splice) t) :
    Planned d p splice s t := by
  obtain ⟨c, s₁, h₁, hrun⟩ := State.ok_of_bind hrun
  cases hrun
  obtain ⟨hsettles, hvalue⟩ := constantElement_settles hd h₁
  refine ⟨hsettles, nofun, ?_⟩
  rintro f hf v ⟨w, hw⟩
  exact hvalue f hf w v hw

/-- Plans of elements in a row. -/
structure PlannedEach [Libraries] (ds : List Datum) (ps : List (Datum × Plan × Bool)) (s t : FormState) : Prop where
  settles : Settles (symbolsOfAll ds) s t
  forms : ∀ e ∈ formsOfPlans ps, e ∈ formsOfAll ds
  gives : ∀ f, Reads f t → ∀ vs parts, GivesEach f.value ps vs →
    spliceItems vs (ps.map fun p => p.2.2) = .ok parts → fillItems? f ds = some parts

/-- A list, vector or set is built from its elements. -/
theorem PlannedEach.build [Libraries] {d : Datum} {kind : CollectionKind} {items : List Datum}
    {make : List Value → Value}
    {p : Plan} {splice : Bool} (hmake : ∀ parts, buildCollection kind parts = .ok (make parts))
    (hsymbols : symbolsOf d = symbolsOfAll items) (hforms : formsOf d = formsOfAll items)
    (hfill : ∀ f, fill? f d = (fillItems? f items).map fun vs => (make vs, false))
    (hitems : ∀ ps t, planAll items s = .ok ps t → PlannedEach items ps s t)
    (hrun : (do return (Plan.build kind (← planAll items) items.length, false)) s = .ok (p, splice) t) :
    Planned d p splice s t := by
  obtain ⟨ps, s₁, h₁, hrun⟩ := State.ok_of_bind hrun
  cases hrun
  have hparts := hitems ps t h₁
  refine ⟨hsymbols ▸ hparts.settles, fun e he => hforms ▸ hparts.forms e he, ?_⟩
  rintro f hf v ⟨vs, parts, hvs, hsplice, hv⟩
  rw [hmake] at hv
  cases hv
  rw [hfill, hparts.gives f hf vs parts hvs hsplice, Option.map_some]

mutual
/-- Planning an element makes a plan of it. -/
theorem plan_planned [Libraries] (d : Datum) {s t : FormState} {p : Plan} {splice : Bool}
    (hrun : plan d s = .ok (p, splice) t) : Planned d p splice s t := by
  match d with
  | .atom a i => exact planned_constant rfl hrun
  | .list items i =>
    unfold plan at hrun
    cases hinner : unquoted? (.list items i) with
    | some r =>
      rw [hinner] at hrun
      cases hrun
      refine ⟨by simpa [symbolsOf, hinner] using Settles.refl s, by simp [formsOf, formsOfPlan, hinner], ?_⟩
      rintro f - v rfl
      simp [fill?, hinner]
    | none =>
      rw [hinner] at hrun
      simp only at hrun
      split at hrun
      · have hmake : ∀ parts, buildCollection .list parts = .ok (.list parts) := fun _ => rfl
        refine PlannedEach.build hmake ?_ ?_ ?_ (fun ps t => planAll_planned items) hrun
        · simp [symbolsOf, hinner]
        · simp [formsOf, hinner]
        · intro f
          cases hf : fillItems? f items <;> simp [fill?, hinner, hf]
      · rename_i hitems
        exact planned_constant (by simpa [hasUnquote, hinner] using hitems) hrun
  | .vector items i =>
    unfold plan at hrun
    split at hrun
    · refine PlannedEach.build (fun _ => rfl) rfl rfl (fun f => ?_) (fun ps t => planAll_planned items) hrun
      cases hf : fillItems? f items <;> simp [fill?, hf]
    · rename_i hitems
      exact planned_constant (by simpa [hasUnquote] using hitems) hrun
  | .set items i =>
    unfold plan at hrun
    split at hrun
    · refine PlannedEach.build (fun _ => rfl) rfl rfl (fun f => ?_) (fun ps t => planAll_planned items) hrun
      cases hf : fillItems? f items <;> simp [fill?, hf]
    · rename_i hitems
      exact planned_constant (by simpa [hasUnquote] using hitems) hrun
  | .map entries i =>
    unfold plan at hrun
    split at hrun
    · obtain ⟨ps, s₁, h₁, hrun⟩ := State.ok_of_bind hrun
      split at hrun
      · cases hrun
      · rename_i hplain
        cases hrun
        obtain ⟨hsettles, hforms, hgives⟩ := planEntries_planned entries h₁
        refine ⟨hsettles, hforms, ?_⟩
        rintro f hf v ⟨vs, parts, hvs, hsplice, hv⟩
        have hplain : ∀ p ∈ ps, p.2.2 = false := by simpa using hplain
        have hparts : parts = vs := by
          rw [spliceItems_plain (by rw [givesEach_length hvs, List.length_map]) (by simpa using hplain)] at hsplice
          cases hsplice
          rfl
        rw [hparts, buildCollection] at hv
        split at hv
        · cases hv
          simp [fill?, hgives f hf hplain vs hvs]
        · cases hv
    · rename_i hentries
      exact planned_constant (by simpa [hasUnquote] using hentries) hrun

theorem planAll_planned [Libraries] (ds : List Datum) {s t : FormState} {ps : List (Datum × Plan × Bool)}
    (hrun : planAll ds s = .ok ps t) : PlannedEach ds ps s t := by
  match ds with
  | [] =>
    cases hrun
    refine ⟨.refl _, nofun, ?_⟩
    rintro f - vs parts rfl hsplice
    cases hsplice
    rfl
  | d :: ds =>
    obtain ⟨⟨p, splice⟩, s₁, h₁, hrun⟩ := State.ok_of_bind hrun
    obtain ⟨ps', s₂, h₂, hrun⟩ := State.ok_of_bind hrun
    cases hrun
    obtain ⟨hsettles, hforms, hgives⟩ := plan_planned d h₁
    obtain ⟨hsettles', hforms', hgives'⟩ := planAll_planned ds h₂
    refine ⟨hsettles.trans hsettles', ?_, ?_⟩
    · intro e he
      exact List.mem_append.mpr ((List.mem_append.mp he).imp (hforms e) (hforms' e))
    · rintro f hf _ parts ⟨v, vs, hv, hvs, rfl⟩ hsplice
      obtain ⟨items, rest, hitems, hrest, rfl⟩ := spliceItems_cons hsplice
      simp [fillItems?, hgives f (hsettles'.reads hf) v hv, hitems, hgives' f hf vs rest hvs hrest]

theorem planEntries_planned [Libraries] (es : List (Datum × Datum)) {s t : FormState} {ps : List (Datum × Plan × Bool)}
    (hrun : planEntries es s = .ok ps t) :
    Settles (symbolsOfEntries es) s t ∧ (∀ e ∈ formsOfPlans ps, e ∈ formsOfEntries es) ∧
      ∀ f, Reads f t → (∀ p ∈ ps, p.2.2 = false) → ∀ vs, GivesEach f.value ps vs →
        fillEntries? f es = some (Sequence.pairs vs) := by
  match es with
  | [] =>
    cases hrun
    refine ⟨.refl _, nofun, ?_⟩
    rintro f - - vs rfl
    rfl
  | (k, v) :: es =>
    obtain ⟨⟨pk, sk⟩, s₁, h₁, hrun⟩ := State.ok_of_bind hrun
    obtain ⟨⟨pv, sv⟩, s₂, h₂, hrun⟩ := State.ok_of_bind hrun
    obtain ⟨ps', s₃, h₃, hrun⟩ := State.ok_of_bind hrun
    cases hrun
    obtain ⟨hk, hkforms, hkgives⟩ := plan_planned k h₁
    obtain ⟨hv, hvforms, hvgives⟩ := plan_planned v h₂
    obtain ⟨hes, hesforms, hesgives⟩ := planEntries_planned es h₃
    refine ⟨(hk.trans hv).trans hes, ?_, ?_⟩
    · intro e he
      simp only [formsOfPlans, formsOfEntries, List.mem_append] at he ⊢
      rcases he with he | he | he
      · exact .inl (.inl (hkforms e he))
      · exact .inl (.inr (hvforms e he))
      · exact .inr (hesforms e he)
    · rintro f hf hplain _ ⟨a, _, ha, ⟨b, vs, hb, hvs, rfl⟩, rfl⟩
      simp only [List.forall_mem_cons] at hplain
      obtain ⟨rfl, rfl, hplain⟩ := hplain
      have hfv := hes.reads hf
      simp [fillEntries?, hkgives f (hv.reads hfv) a ha, hvgives f hfv b hb, hesgives f hf hplain vs hvs, whole?,
        Sequence.pairs]
end

end Plan

end LispMachine.Template
