import LispMachine.Form.Analysis
import LispMachine.Libraries.Standard
import LispMachine.Proofs.Expansion.Sugar

/-! # Calls that do not expand

A call is first expanded, and taken for what it is only if the expansion has its shape; any other expansion is
worked on as a form of its own.  That ends well if a call that takes no step has its own shape, and every datum
does that holds no float that is not a number (`unexpanded_call`).  An expander may compute such a float: a call
with it among its parts is taken for an expansion of itself, over and over (`evaluate_reentered`,
`compile_reentered`). -/

namespace LispMachine.Form

open Expansion Datum Emission

/-! ### Expansion without a step -/

section Expansion

variable {call : Caller} {origin d e : Datum} {s t : FormState} {n : Nat}

theorem steps_le_expandWithin [Libraries] {left steps : Nat}
    (h : expandWithin call origin left steps d s = .ok (e, n) t) :
    steps ≤ n := by
  induction left generalizing steps d s with
  | zero => cases h
  | succ left ih =>
    obtain ⟨next, s₁, -, h⟩ := State.ok_of_bind h
    cases next with
    | none =>
      cases h
      exact Nat.le_refl _
    | some next =>
      dsimp only at h
      split at h
      · cases h
        exact Nat.le_refl _
      · exact Nat.le_of_succ_le (ih h)

/-- An expansion without a step has found nothing to rewrite, or something of the same shape. -/
theorem expand_zero [Libraries] (h : expand call d s = .ok (e, 0) t) :
    e = d ∧ (expandOnce call d s = .ok none t ∨ ∃ next, expandOnce call d s = .ok (some next) t ∧
      next.sameShape d = true) := by
  rw [expand, expandWithin] at h
  obtain ⟨next, s₁, hnext, h⟩ := State.ok_of_bind h
  cases next with
  | none =>
    cases h
    exact ⟨rfl, .inl hnext⟩
  | some next =>
    dsimp only at h
    split at h
    · rename_i hsame
      cases h
      exact ⟨rfl, .inr ⟨next, hnext, hsame⟩⟩
    · exact absurd (steps_le_expandWithin h) (by omega)

/-- Where there is nothing to rewrite, nothing was called and nothing was changed. -/
theorem expandOnce_none [Libraries] (h : expandOnce call d s = .ok none t) :
    t = s ∧ ∀ call', expandOnce call' d s = .ok none s := by
  unfold expandOnce at h ⊢
  cases hhead : d.head? with
  | none =>
    rw [hhead] at h
    cases h
    exact ⟨rfl, fun _ => rfl⟩
  | some head =>
    rw [hhead] at h
    obtain ⟨found, s₁, hfound, h⟩ := State.ok_of_bind h
    obtain ⟨hlookup, rfl⟩ : _ ∧ s = s₁ := ofExcept_ok hfound
    simp only [State.bind_of_ok hfound]
    split at h
    · obtain ⟨w, s₁, hworld, h⟩ := State.ok_of_bind h
      cases hworld
      split at h
      · obtain ⟨r, s₁, -, h⟩ := State.ok_of_bind h
        cases h
      · rename_i v hplain
        cases h
        refine ⟨rfl, fun call' => ?_⟩
        have hworld : FormM.world s = .ok s.world s := rfl
        rw [State.bind_of_ok hworld, if_neg hplain]
        rfl
    · cases h
      exact ⟨rfl, fun _ => rfl⟩
    · obtain ⟨j, args, i, hd⟩ := list_of_head? hhead
      generalize hr : derive? d s = r at h
      cases hr ▸ derive?_run hd with
      | stays =>
        cases h
        exact ⟨rfl, fun _ => rfl⟩
      | fewer => cases h
      | settles => cases h
      | fails => cases h

/-- A call with a part that is not a number has nothing of its shape: if it takes no step, none ever will. -/
theorem expand_of_hasNaN [Libraries] (hd : d.hasNaN = true) (h : expand call d s = .ok (e, 0) t) :
    t = s ∧ ∀ call', expand call' d s = .ok (d, 0) s := by
  obtain ⟨rfl, hnone | ⟨next, -, hsame⟩⟩ := expand_zero h
  · obtain ⟨rfl, hnone⟩ := expandOnce_none hnone
    exact ⟨rfl, fun call' => State.bind_of_ok (hnone call')⟩
  · rw [sameShape_hasNaN hd] at hsame
    cases hsame

end Expansion

/-! ### What becomes of a call -/

/-- Evaluates a call that stands for itself. -/
def evaluateUnexpanded [Libraries] (h : Handlers) (head : Datum) (args : List Datum) (d : Datum) : FormM Value := do
  match ← calleeOf head with
  | .special f => evaluateSpecial h f d
  | .global v =>
    let w ← FormM.world
    FormM.ofExcept (checkVarValue w v)
    let callee ← FormM.ofExcept (w.valueOf v)
    let values ← evaluateArgs h args
    FormM.lift (h.call (.apply callee values))
  | .computed =>
    let callee ← FormM.withTail false (h.evaluate head)
    let values ← evaluateArgs h args
    FormM.lift (h.call (.apply callee values))

/-- Analyses a call that stands for itself. -/
def analyseUnexpanded (head d : Datum) : FormM Analysis := do
  match ← calleeOf head with
  | .special .quote => return .constant (← FormM.ofExcept (quotedDatum d >>= quotedConstant))
  | .special f => return .special f
  | .global v => return .globalCall v
  | .computed => return .call

section Calls

variable {h : Handlers} {call : Caller} {head d e : Datum} {args : List Datum} {i : Info} {s t : FormState} {n : Nat}

theorem evaluateCall_eq [Libraries] (hexpand : expand h.call d s = .ok (e, n) t) :
    evaluateCall h head args d s
      = if e.sameShape d then evaluateUnexpanded h head args d t else h.evaluate e t := by
  rw [evaluateCall, State.bind_of_ok hexpand]
  dsimp only
  cases e.sameShape d <;> rfl

theorem analyseCall_eq [Libraries] (hexpand : expand call d s = .ok (e, n) t) :
    analyseCall call head d s
      = if e.sameShape d then analyseUnexpanded head d t else .ok (.expanded e) t := by
  rw [analyseCall, State.bind_of_ok hexpand]
  dsimp only
  cases e.sameShape d <;> rfl

theorem atSpan_outOfFuel {α : Type} {m : FormM α} (hm : m s = .error .outOfFuel t) (span : Span) :
    m.atSpan span s = .error .outOfFuel t := by
  simp only [FormM.atSpan, hm]

/-- With a part that is not a number, a call is evaluated in place of itself until the fuel is used up. -/
theorem evaluate_reentered [Libraries] (hd : d = .list (head :: args) i) (hnan : d.hasNaN = true)
    (hexpand : expand call d s = .ok (e, 0) t) (fuel : Nat) : (handlers fuel).evaluate d s = .error .outOfFuel s := by
  obtain ⟨-, hzero⟩ := expand_of_hasNaN hnan hexpand
  induction fuel with
  | zero => rfl
  | succ fuel ih =>
    change evaluateForm (handlers fuel) d s = _
    rw [hd, evaluateForm, ← hd]
    refine atSpan_outOfFuel ?_ _
    rw [evaluateCall_eq (hzero _), sameShape_hasNaN hnan, if_neg Bool.false_ne_true]
    exact ih

/-- Likewise when it is compiled. -/
theorem compile_reentered [Libraries] (hd : d = .list (head :: args) i) (hnan : d.hasNaN = true)
    (hexpand : expand call d s = .ok (e, 0) t) (hs : s.methods ≠ []) (fuel : Nat) :
    (handlers fuel).compile d s = .error .outOfFuel s := by
  obtain ⟨-, hzero⟩ := expand_of_hasNaN hnan hexpand
  obtain ⟨m, rest, hmethods⟩ := List.exists_cons_of_ne_nil hs
  induction fuel with
  | zero => rfl
  | succ fuel ih =>
    change compileForm (handlers fuel) d s = _
    have hanalysed : analyse (handlers fuel).call d s = .ok (.expanded d) s := by
      rw [hd, analyse, ← hd, FormM.atSpan]
      rw [analyseCall_eq (hzero _), sameShape_hasNaN hnan, if_neg Bool.false_ne_true]
    have hstack : FormM.stack s = .ok m.stack s := by
      simp only [FormM.stack, FormM.method, State.bind_eq, State.get_eq, hmethods]
      rfl
    rw [compileForm, State.bind_of_ok hanalysed, emitAnalysed, emitForm, State.bind_of_ok hstack]
    exact State.bind_of_error (atSpan_outOfFuel ih _)

end Calls

/-- A call that takes no step to expand is what it came from.  Without a part that is not a number it is taken for
the call it is, in either mode; with one, neither mode comes to an end. -/
theorem unexpanded_call [Libraries] (h : Handlers) (head : Datum) (args : List Datum) (i : Info) (e : Datum)
    (s t : FormState)
    (hexpand : expand h.call (.list (head :: args) i) s = .ok (e, 0) t) :
    let d : Datum := .list (head :: args) i
    e = d ∧
    (d.hasNaN = false → e.sameShape d = true ∧
      evaluateCall h head args d s = evaluateUnexpanded h head args d t ∧
      analyseCall h.call head d s = analyseUnexpanded head d t) ∧
    (d.hasNaN = true → e.sameShape d = false ∧
      ∀ fuel, (handlers fuel).evaluate d s = .error .outOfFuel s ∧
        (s.methods ≠ [] → (handlers fuel).compile d s = .error .outOfFuel s)) := by
  intro d
  obtain ⟨rfl, -⟩ := expand_zero hexpand
  refine ⟨rfl, fun hnumbers => ?_, fun hnan => ⟨sameShape_hasNaN hnan, fun fuel => ⟨?_, fun hs => ?_⟩⟩⟩
  · have hself := sameShape_self d hnumbers
    refine ⟨hself, ?_, ?_⟩
    · rw [evaluateCall_eq hexpand, if_pos hself]
    · rw [analyseCall_eq hexpand, if_pos hself]
  · exact evaluate_reentered rfl hnan hexpand fuel
  · exact compile_reentered rfl hnan hexpand hs fuel

/-- The call of `f` with a float, as an expander may give it. -/
def callOf (x : Double) : Datum := .ofList [.symbol "f" {}, .ofAtom (.float x) {}] {}

theorem expand_callOf [Libraries] (call : Caller) (x : Double) : expand call (callOf x) oneVar = .ok
    (callOf x, 0) oneVar := by
  have hfound : FormM.lookup "f" oneVar = .ok (some (.var ⟨0, Names.coreSpace, "f"⟩)) oneVar := by rfl
  have hplain : (oneVar.world.flagsOf ⟨0, Names.coreSpace, "f"⟩).isExpander = false := by decide +kernel
  have hnone : expandOnce call (callOf x) oneVar = .ok none oneVar := by
    have hhead : (callOf x).head? = some "f" := rfl
    have hworld : FormM.world oneVar = .ok oneVar.world oneVar := rfl
    simp only [expandOnce, hhead, State.bind_of_ok hfound, State.bind_of_ok hworld, hplain, Bool.false_eq_true,
      if_false]
    rfl
  exact State.bind_of_ok hnone

/-- With a number the call is taken for the call it is. -/
theorem number_call_taken : expand (handlers 2).call (callOf ⟨0⟩) oneVar = .ok (callOf ⟨0⟩, 0) oneVar ∧
    (callOf ⟨0⟩).hasNaN = false ∧
    evaluateCall (handlers 2) (.symbol "f" {}) [.ofAtom (.float ⟨0⟩) {}] (callOf ⟨0⟩) oneVar
      = evaluateUnexpanded (handlers 2) (.symbol "f" {}) [.ofAtom (.float ⟨0⟩) {}] (callOf ⟨0⟩) oneVar := by
  have hexpand := expand_callOf (handlers 2).call ⟨0⟩
  have hnumber : (callOf ⟨0⟩).hasNaN = false := by decide +kernel
  exact ⟨hexpand, hnumber, ((unexpanded_call _ _ _ _ _ _ _ hexpand).2.1 hnumber).2.1⟩

/-- Zero divided by zero, handed over in a list, gives a call that takes no step to expand, does not have its own
shape, and is never evaluated. -/
theorem quotient_call_reentered :
    (Value.list [.symbolNamed "f", .float (Double.div ⟨0⟩ ⟨0⟩)]).toDatum {} = .ok (callOf (Double.div ⟨0⟩ ⟨0⟩)) ∧
    (∀ call, expand call (callOf (Double.div ⟨0⟩ ⟨0⟩)) oneVar = .ok (callOf (Double.div ⟨0⟩ ⟨0⟩), 0) oneVar) ∧
    (callOf (Double.div ⟨0⟩ ⟨0⟩)).sameShape (callOf (Double.div ⟨0⟩ ⟨0⟩)) = false ∧
    ∀ fuel, (handlers fuel).evaluate (callOf (Double.div ⟨0⟩ ⟨0⟩)) oneVar = .error .outOfFuel oneVar := by
  have hnan : (callOf (Double.div ⟨0⟩ ⟨0⟩)).hasNaN = true := by decide +kernel
  refine ⟨?_, fun call => expand_callOf call _, sameShape_hasNaN hnan, ?_⟩
  · cbv
  · exact evaluate_reentered rfl hnan (expand_callOf (handlers 0).call _)

end LispMachine.Form
