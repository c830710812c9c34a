import LispMachine.Form.Branches
import LispMachine.Libraries.Standard
import LispMachine.Proofs.Machine.Conversions

/-! # The type at which branches meet

The common type of branches is found from left to right, and the order matters: a sibling class makes it unknown
before a class above both is seen.  Still, whatever a branch leaves goes over to the common type without an
instruction that can fail, since each step keeps the types so far assignable or makes the common type unknown
(`joins_foldl`, `armType?_converts`). -/

namespace LispMachine

open Machine

namespace Ty

/-- What a value of a type becomes at a meeting of branches: a reference of unknown type, or it stays as it is. -/
def Joins (r : Registry) (t joined : Ty) : Prop := joined = .any ∨ joined.isAssignable r t = true

section Joins

variable {r : Registry} {a b t : Ty}

theorem unify_any (r : Registry) (b : Ty) : unify r .any b = .any := by
  cases b <;> rfl

theorem joins_unify_left (r : Registry) (a b : Ty) : Joins r a (unify r a b) := by
  unfold unify
  split
  · exact .inr (isAssignable_self r a)
  split
  · exact .inr (isAssignable_self r a)
  split
  · exact .inr ‹_›
  · exact .inl rfl

theorem joins_unify_right (r : Registry) (a b : Ty) : Joins r b (unify r a b) := by
  unfold unify
  split
  · rename_i heq
    exact .inr (heq ▸ isAssignable_self r a)
  split
  · exact .inr ‹_›
  split
  · exact .inr (isAssignable_self r b)
  · exact .inl rfl

/-- What joins a type joins it also after one more branch. -/
theorem Joins.unify (hr : r.Rooted) (h : Joins r t a) (b : Ty) : Joins r t (unify r a b) := by
  rcases h with rfl | hassign
  · rw [unify_any]
    exact .inl rfl
  rcases joins_unify_left r a b with hany | hstep
  · exact .inl hany
  · exact .inr (isAssignable_trans hr hstep hassign)

/-- Every type joins the one that a walk over the branches ends with. -/
theorem joins_foldl (hr : r.Rooted) (types : List Ty) (first : Ty) :
    ∀ t ∈ first :: types, Joins r t (types.foldl (Ty.unify r) first) := by
  suffices hwalk : ∀ t, Joins r t first ∨ t ∈ types → Joins r t (types.foldl (Ty.unify r) first) by
    intro t ht
    rcases List.mem_cons.1 ht with rfl | ht
    · exact hwalk t (.inl (.inr (isAssignable_self r t)))
    · exact hwalk t (.inr ht)
  induction types generalizing first with
  | nil => exact fun t ht => ht.resolve_right List.not_mem_nil
  | cons next rest ih =>
    intro t ht
    refine ih _ t ?_
    rcases ht with hjoins | ht
    · exact .inl (hjoins.unify hr next)
    rcases List.mem_cons.1 ht with rfl | ht
    · exact .inl (joins_unify_right r first t)
    · exact .inr ht

end Joins

end Ty

namespace Coercion

variable {r : Registry} {source target : Ty}

theorem coerce_any (r : Registry) (source : Ty) : coerce r source .any = .ok (toBoxed source) := by
  cases source <;> rfl

theorem coerce_of_assignable (h : target.isAssignable r source = true) : coerce r source target = .ok [] := by
  by_cases heq : source = target
  · simp [coerce, heq]
  rcases Ty.isAssignable_cases h with rfl | ⟨rfl, name, rfl⟩ | ⟨rfl, rfl⟩ | ⟨sup, sub, rfl, rfl, -⟩
  · exact absurd rfl heq
  · rfl
  · rfl
  · simp [coerce, castTo, h]

/-- Boxing is done by instructions that cannot fail. -/
theorem mem_toBoxed {i : Instruction} (h : i ∈ toBoxed source) : (∃ p, i = .box p) ∨ ∃ c, i = .const c := by
  cases source with
  | prim p => exact .inl ⟨p, List.mem_singleton.1 h⟩
  | void => exact .inr ⟨_, List.mem_singleton.1 h⟩
  | any => cases h
  | cls name => cases h

end Coercion

namespace Machine

/-- The instructions run to their end on every stack with the slots of the first type on top, and leave the slots of
the second in their place. -/
def Replaces [Libraries] (code : List Instruction) (source target : Ty) : Prop :=
  ∀ (call : Caller) (body : Body) (s : Running) (slots rest : List Value), slots.length = source.width →
    s.frame.stack = slots ++ rest →
      ∃ slots', slots'.length = target.width ∧ Performs call body code s (s.after code.length (slots' ++ rest))

theorem replaces_nil [Libraries] {source target : Ty} (h : source.width = target.width) : Replaces
    [] source target := by
  intro call body s slots rest hlength hstack
  refine ⟨slots, hlength.trans h, ?_⟩
  rw [← hstack]
  exact Running.after_zero s

theorem replaces_toBoxed [Libraries] (source : Ty) : Replaces (Coercion.toBoxed source) source .any := by
  cases source with
  | any => exact replaces_nil rfl
  | cls name => exact replaces_nil rfl
  | prim p =>
    intro call body s slots rest hlength hstack
    exact ⟨[valueOf (.prim p) slots], rfl, performs_single.2 ⟨_, step_box_of_pop (pop_valueOf hlength hstack), rfl⟩⟩
  | void =>
    intro call body s slots rest hlength hstack
    obtain rfl := List.length_eq_zero_iff.1 hlength
    have hnil : Delivers call body [.const .nil] s rest .any := delivers_const rfl hstack (holds_any _ _)
    obtain ⟨slots', hslots', hperforms⟩ := hnil
    exact ⟨slots', hslots'.length, hperforms⟩

theorem width_of_assignable {r : Registry} {source target : Ty} (h : target.isAssignable r source = true) :
    source.width = target.width := by
  rcases Ty.isAssignable_cases h with rfl | ⟨rfl, name, rfl⟩ | ⟨rfl, rfl⟩ | ⟨sup, sub, rfl, rfl, -⟩ <;> rfl

end Machine

namespace Form

variable {r : Registry} {arms : List Arm}

/-- Where nothing is above the root class, branches that get to their end have a common type, and whatever type each
leaves goes over to it: by boxing or a constant at most, on any stack. -/
theorem armType?_converts [Libraries] (hr : r.Rooted) (hends : ∃ arm ∈ arms, arm.ty ≠ none) :
    ∃ joined, armType? r arms = some joined ∧ ∀ arm ∈ arms, ∀ t, arm.ty = some t →
      ∃ code, Coercion.coerce r t joined = .ok code ∧ (∀ i ∈ code, (∃ p, i = .box p) ∨ ∃ c, i = .const c) ∧
        Replaces code t joined := by
  have hmem : ∀ arm ∈ arms, ∀ t, arm.ty = some t → t ∈ arms.filterMap Arm.ty := fun arm harm t ht =>
    List.mem_filterMap.2 ⟨arm, harm, ht⟩
  obtain ⟨ended, hended, hty⟩ := hends
  obtain ⟨ty, hty⟩ := Option.ne_none_iff_exists'.1 hty
  have htypes := hmem ended hended ty hty
  unfold armType?
  cases hlist : arms.filterMap Arm.ty with
  | nil =>
    rw [hlist] at htypes
    cases htypes
  | cons first rest =>
    refine ⟨_, rfl, fun arm harm t ht => ?_⟩
    have hjoins : Ty.Joins r t (rest.foldl (Ty.unify r) first) :=
      Ty.joins_foldl hr rest first t (hlist ▸ hmem arm harm t ht)
    rcases hjoins with hany | hassign
    · rw [hany]
      exact ⟨_, Coercion.coerce_any r t, fun i => Coercion.mem_toBoxed, replaces_toBoxed t⟩
    · exact ⟨[], Coercion.coerce_of_assignable hassign, by simp, replaces_nil (width_of_assignable hassign)⟩

/-- Branches that leave a boxed long, a boxed double, a number, an unboxed long and nothing. -/
def mixedArms : List Arm :=
  [.cls Names.long, .cls Names.double, .cls Names.number, .long, .void].map fun ty => { ty := some ty, hole := 0 }

/-- The common type of the boxed numbers is unknown before the class above both is seen, and all goes over to it. -/
theorem mixedArms_converts :
    armType? Host.registry mixedArms = some .any ∧ ∃ joined, armType? Host.registry mixedArms = some joined ∧
      ∀ arm ∈ mixedArms, ∀ t, arm.ty = some t →
        ∃ code, Coercion.coerce Host.registry t joined = .ok code ∧
          (∀ i ∈ code, (∃ p, i = .box p) ∨ ∃ c, i = .const c) ∧ Replaces code t joined := by
  refine ⟨by decide +kernel, armType?_converts Host.registry_layered.rooted ⟨_, List.mem_cons_self .., ?_⟩⟩
  exact Option.some_ne_none _

end Form

end LispMachine
