import LispMachine.Proofs.Emission.Members

/-! # Templates

A template is planned before any of its code is emitted.  The plan says of each collection how many parts
it is built from, so that the instruction that builds it takes exactly the values of these parts. -/

namespace LispMachine.Emission

open Form Template

mutual

/-- The collections of a plan are built from as many parts as the plan has. -/
def Counted : Plan → Prop
  | .constant _ => True
  | .compute _ => True
  | .build kind items count =>
    items.length = (if kind = .map then count * 2 else count) ∧ AllCounted items
termination_by structural p => p

def AllCounted : List (Datum × Plan × Bool) → Prop
  | [] => True
  | (_, p, _) :: rest => Counted p ∧ AllCounted rest
termination_by structural ps => ps

end

section Plans

theorem counted_constant {d : Datum} {r : Plan × Bool} {s t : FormState}
    (hrun : (do return (Plan.constant (← constantElement d), false)) s = .ok r t) : Counted r.1 := by
  obtain ⟨c, s₁, -, hrun⟩ := State.ok_of_bind hrun
  cases hrun
  trivial

theorem counted_items {kind : CollectionKind} {items : List Datum} {r : Plan × Bool} {s t : FormState}
    (hparts : ∀ ps t, planAll items s = .ok ps t → ps.length = items.length ∧ AllCounted ps)
    (hrun : (do return (Plan.build kind (← planAll items) items.length, false)) s = .ok r t)
    (hkind : kind ≠ .map) : Counted r.1 := by
  obtain ⟨ps, s₁, h₁, hrun⟩ := State.ok_of_bind hrun
  cases hrun
  obtain ⟨hlength, hall⟩ := hparts ps _ h₁
  exact ⟨by rw [hlength, if_neg hkind], hall⟩

mutual

/-- Planning counts the parts of every collection. -/
theorem plan_counted : ∀ d {r s t}, plan d s = .ok r t → Counted r.1
  | .atom a i => fun hrun => counted_constant hrun
  | .list items i => fun hrun => by
      unfold plan at hrun
      cases hinner : unquoted? (.list items i) with
      | some inner =>
          rw [hinner] at hrun
          cases hrun
          trivial
      | none =>
          rw [hinner] at hrun
          dsimp only at hrun
          split at hrun
          · exact counted_items (fun ps t => planAll_counted items) hrun (by simp)
          · exact counted_constant hrun
  | .vector items i => fun hrun => by
      unfold plan at hrun
      split at hrun
      · exact counted_items (fun ps t => planAll_counted items) hrun (by simp)
      · exact counted_constant hrun
  | .set items i => fun hrun => by
      unfold plan at hrun
      split at hrun
      · exact counted_items (fun ps t => planAll_counted items) hrun (by simp)
      · exact counted_constant hrun
  | .map entries i => fun hrun => by
      unfold plan at hrun
      split at hrun
      · obtain ⟨ps, s₁, h₁, hrun⟩ := State.ok_of_bind hrun
        split at hrun
        · cases hrun
        · cases hrun
          obtain ⟨hlength, hall⟩ := planEntries_counted entries h₁
          exact ⟨hlength, hall⟩
      · exact counted_constant hrun

theorem planAll_counted : ∀ ds {ps s t}, planAll ds s = .ok ps t → ps.length = ds.length ∧ AllCounted ps
  | [] => fun hrun => by
      cases hrun
      exact ⟨rfl, trivial⟩
  | d :: ds => fun hrun => by
      obtain ⟨⟨p, splice⟩, s₁, h₁, hrun⟩ := State.ok_of_bind hrun
      obtain ⟨ps, s₂, h₂, hrun⟩ := State.ok_of_bind hrun
      cases hrun
      obtain ⟨hlength, hall⟩ := planAll_counted ds h₂
      exact ⟨by simp [hlength], plan_counted d h₁, hall⟩

theorem planEntries_counted :
    ∀ es {ps s t}, planEntries es s = .ok ps t → ps.length = es.length * 2 ∧ AllCounted ps
  | [] => fun hrun => by
      cases hrun
      exact ⟨rfl, trivial⟩
  | (k, v) :: rest => fun hrun => by
      obtain ⟨⟨pk, sk⟩, s₁, h₁, hrun⟩ := State.ok_of_bind hrun
      obtain ⟨⟨pv, sv⟩, s₂, h₂, hrun⟩ := State.ok_of_bind hrun
      obtain ⟨ps, s₃, h₃, hrun⟩ := State.ok_of_bind hrun
      cases hrun
      obtain ⟨hlength, hall⟩ := planEntries_counted rest h₃
      exact ⟨by simp [hlength, Nat.add_mul], plan_counted k h₁, plan_counted v h₂, hall⟩

end

end Plans

section Emission

variable {h : Handlers}

mutual

/-- A planned part leaves its value. -/
theorem emitPlan_compiled (hc : Compiles h) : ∀ p {d s u t}, Counted p → Valid (view s) →
    emitPlan h d p s = .ok u t → Compiled (view s) (view t)
  | .constant c => fun _ hv hrun => by
      rw [emitPlan] at hrun
      exact compiled_of_emitForm hrun fun _ => .constant hv
  | .compute inner => fun _ hv hrun => by
      rw [emitPlan] at hrun
      refine compiled_of_emitForm hrun fun _ hrun => ?_
      obtain ⟨w, g, hp⟩ := hc hv hrun
      exact ⟨w, g, .inr hp.top⟩
  | .build kind items count => fun hcounted hv hrun => by
      rw [emitPlan] at hrun
      refine compiled_of_emitForm hrun fun _ hrun => ?_
      obtain ⟨⟨⟩, s₁, h₁, hrun⟩ := State.ok_of_bind hrun
      obtain ⟨s₂, t₂, h₂, hv₂, htail, -, -, hback⟩ := (Grown.ofValid hv).outOfTail h₁
      have g := hback _ (emitPlans_grown hc items hcounted.2 hv₂ htail h₂)
      rw [Nat.zero_add] at g
      dsimp only at hrun
      split at hrun
      · exact .result g hrun rfl (by simp [Ty.width]) rfl rfl
      · exact .result g hrun rfl (by simp [Ty.width, hcounted.1]) rfl rfl

/-- Each part of a collection is one boxed value. -/
theorem emitPlans_grown (hc : Compiles h) : ∀ items {s u t}, AllCounted items → Valid (view s) →
    (view s).tail = false → emitPlans h items s = .ok u t →
    Grown (terms (view s)) (view s) items.length (view t)
  | [] => fun _ hv _ hrun => by
      rw [emitPlans] at hrun
      cases hrun
      exact .ofValid hv
  | (d, p, splice) :: rest => fun hcounted hv htail hrun => by
      rw [emitPlans] at hrun
      obtain ⟨⟨⟩, s₁, h₁, hrun⟩ := State.ok_of_bind hrun
      obtain ⟨⟨⟩, s₂, h₂, hrun⟩ := State.ok_of_bind hrun
      obtain ⟨w, g₁, hw⟩ := emitPlan_compiled hc p hcounted.1 hv h₁
      rw [← Nat.zero_add w] at g₁
      obtain ⟨g₂, -⟩ := g₁.boxTop hw.top h₂
      have htail₂ := g₂.tail.trans htail
      have g₃ := emitPlans_grown hc rest hcounted.2 g₂.valid htail₂ hrun
      have g₄ := g₂.append g₃ (fun p _ => tailOk_of_false htail₂ p) rfl g₂.scopes g₂.loops g₂.tail
      rwa [Nat.zero_add, Nat.add_comm] at g₄

end

theorem withNames_ok {α : Type} {a : α} {m : FormM α} {s t : FormState}
    (hrun : withNames m s = .ok a t) : ∃ s₁ t₁, view s₁ = view s ∧ m s₁ = .ok a t₁ ∧ view t = view t₁ := by
  obtain ⟨⟨⟩, s₁, h₁, hrun⟩ := State.ok_of_bind hrun
  obtain ⟨t₁, hm, rfl⟩ := andFinally_ok hrun
  refine ⟨s₁, t₁, ?_, hm, rfl⟩
  cases h₁
  rfl

theorem compileTemplate_leaves (hc : Compiles h) {d : Datum} {s t : FormState} {u : Unit}
    (hv : Valid (view s)) (hrun : Template.compile h d s = .ok u t) : Leaves (view s) (view t) := by
  obtain ⟨template, s₁, h₁, hrun⟩ := State.ok_of_bind hrun
  obtain ⟨-, rfl⟩ := ofExcept_ok h₁
  obtain ⟨s₁, t₁, hs₁, hrun, ht₁⟩ := withNames_ok hrun
  obtain ⟨⟨p, splice⟩, s₂, h₂, hrun⟩ := State.ok_of_bind hrun
  have hview := aside_plan template h₂
  dsimp only at hrun
  split at hrun
  · obtain ⟨⟨⟩, s₃, h₃, hrun⟩ := State.ok_of_bind hrun
    cases h₃
  · rw [← hs₁, ← hview] at hv ⊢
    rw [ht₁]
    obtain ⟨w, g, hp⟩ := emitPlan_compiled hc p (plan_counted template h₂) hv hrun
    exact ⟨w, g, .inr hp.top⟩

end Emission

end LispMachine.Emission
