import LispMachine.Libraries.Standard
import LispMachine.Proofs.Agreement.Operands
import LispMachine.Proofs.Machine.Travel

/-! # Folded constants

A form that needs no evaluation is folded to a constant: compiled code pushes it, where interpreted code
evaluates the form, a collection item by item.  Evaluation never fails and gives the value of the form, at every
depth of nesting (`evaluate_folded`).  The machine pushes the same value (`step_folded`), with one exception: a
malformed pattern that is no part of a collection is an error to the machine, and `nil` to evaluation
(`folded_outcomes`). -/

namespace LispMachine.Agreement

open Form Machine

/-! ### Nesting -/

mutual

/-- How deep collections nest in a form. -/
def nesting : Datum → Nat
  | .atom .. => 0
  | .list items _ => nestingEach items + 1
  | .vector items _ => nestingEach items + 1
  | .set items _ => nestingEach items + 1
  | .map entries _ => nestingEntries entries + 1

def nestingEach : List Datum → Nat
  | [] => 0
  | d :: ds => max (nesting d) (nestingEach ds)

def nestingEntries : List (Datum × Datum) → Nat
  | [] => 0
  | (k, v) :: es => max (max (nesting k) (nesting v)) (nestingEntries es)

end

/-! ### Evaluation -/

section Evaluation

variable {s : FormState}

theorem atSpan_of_ok {α : Type} {m : FormM α} {a : α} {t : FormState} (hm : m s = .ok a t) (span : Span) :
    m.atSpan span s = .ok a t := by
  rw [FormM.atSpan, hm]

/-- Work that gives a result and changes nothing does so out of tail position too. -/
theorem withTail_of_pure {α : Type} {m : FormM α} {a : α} (hm : ∀ s, m s = .ok a s) (tail : Bool) :
    FormM.withTail tail m s = .ok a s := by
  rw [FormM.withTail, State.bind_of_ok (State.get_eq s), State.bind_of_ok (State.modify_eq _ s), FormM.andFinally, hm]

theorem evaluateEach_cons {h : Handlers} {d : Datum} {ds : List Datum} {v : Value} {vs : List Value}
    (hd : h.evaluate d s = .ok v s) (hds : evaluateEach h ds s = .ok vs s) :
    evaluateEach h (d :: ds) s = .ok (v :: vs) s := by
  rw [evaluateEach, State.bind_of_ok hd, State.bind_of_ok hds]
  rfl

/-- A collection whose items have values, whatever the state, is built from them. -/
theorem evaluateCollection_of_items {h : Handlers} {d : Datum} {kind : CollectionKind} {items : List Datum}
    {count : Nat}
    {values : List Value} {v : Value} (hparts : collectionParts? d = some (kind, items, count))
    (hitems : ∀ s, evaluateEach h items s = .ok values s) (hbuild : buildCollection kind values = .ok v) :
    evaluateCollection h d s = .ok v s := by
  rw [evaluateCollection, hparts]
  have hargs : evaluateArgs h items s = .ok values s := withTail_of_pure hitems false
  exact (State.bind_of_ok hargs).trans (by rw [hbuild]; rfl)

mutual

/-- A form that needs no evaluation has its value, in every state. -/
theorem evaluate_folded [Libraries] (d : Datum) (hd : isConstant d = true) (fuel : Nat) (hfuel : nesting d < fuel)
    (s : FormState) : (handlers fuel).evaluate d s = .ok d.toValue s := by
  obtain ⟨n, rfl⟩ : ∃ n, fuel = n + 1 := ⟨fuel - 1, by omega⟩
  refine atSpan_of_ok ?_ d.span
  match d with
  | .atom a i =>
    cases a with
    | symbol name => cases hd
    | _ => rfl
  | .list items i => cases hd
  | .vector items i =>
    have hitems := evaluateEach_folded items hd n (by rw [nesting] at hfuel; omega)
    exact evaluateCollection_of_items rfl hitems rfl
  | .set items i =>
    have hitems := evaluateEach_folded items hd n (by rw [nesting] at hfuel; omega)
    exact evaluateCollection_of_items rfl hitems rfl
  | .map entries i =>
    have hitems := evaluateEach_foldedEntries entries hd n (by rw [nesting] at hfuel; omega)
    obtain ⟨heven, hpairs⟩ := pairs_flatEntries entries
    refine evaluateCollection_of_items rfl hitems ?_
    rw [buildCollection, if_pos heven, hpairs]
    rfl

theorem evaluateEach_folded [Libraries] (ds : List Datum) (hds : areConstant ds = true) (fuel : Nat)
    (hfuel : nestingEach ds < fuel) (s : FormState) :
    evaluateEach (handlers fuel) ds s = .ok (Datum.toValues ds) s := by
  match ds with
  | [] => rfl
  | d :: ds =>
    rw [areConstant, Bool.and_eq_true] at hds
    rw [nestingEach] at hfuel
    exact evaluateEach_cons (evaluate_folded d hds.1 fuel (by omega) s)
      (evaluateEach_folded ds hds.2 fuel (by omega) s)

/-- Keys and values are evaluated in turn. -/
theorem evaluateEach_foldedEntries [Libraries] (es : List (Datum × Datum)) (hes : entriesConstant es = true)
    (fuel : Nat)
    (hfuel : nestingEntries es < fuel) (s : FormState) :
    evaluateEach (handlers fuel) (es.flatMap fun (k, v) => [k, v]) s = .ok (flatEntries es) s := by
  match es with
  | [] => rfl
  | (k, v) :: es =>
    rw [entriesConstant, Bool.and_eq_true, Bool.and_eq_true] at hes
    rw [nestingEntries] at hfuel
    exact evaluateEach_cons (evaluate_folded k hes.1.1 fuel (by omega) s)
      (evaluateEach_cons (evaluate_folded v hes.1.2 fuel (by omega) s)
        (evaluateEach_foldedEntries es hes.2 fuel (by omega) s))

end

end Evaluation

/-! ### Execution -/

/-- The source of a malformed pattern, for a form that is one. -/
def malformedPattern? [Libraries] : Datum → Option String
  | .atom (.regex source) _ => if Libraries.isPattern source then none else some source
  | _ => none

theorem malformedPattern?_eq_some [Libraries] {d : Datum} {source : String} (hd : malformedPattern? d = some source) :
    ∃ i, d = .atom (.regex source) i ∧ Libraries.isPattern source = false := by
  match d with
  | .atom (.regex text) i =>
    simp only [malformedPattern?] at hd
    split at hd
    · cases hd
    · rename_i hformed
      cases hd
      exact ⟨i, rfl, by simpa using hformed⟩

theorem isConstant_of_constantOf {d : Datum} {c : Constant} (hc : constantOf? d = some c) : isConstant d = true := by
  cases d with
  | atom a i => exact Option.isSome_of_eq_some hc
  | _ =>
    simp only [constantOf?] at hc
    split at hc
    · assumption
    · cases hc

/-- The constant of a form that is no malformed pattern has the value of the form. -/
theorem constantValue_folded [Libraries] {d : Datum} {c : Constant} (hc : constantOf? d = some c)
    (hformed : malformedPattern? d = none) (w : World) : constantValue w c = .ok d.toValue := by
  cases d with
  | atom a i =>
    cases a with
    | symbol name => cases hc
    | regex source =>
      cases hc
      have hformed : Libraries.isPattern source = true := by
        simpa [malformedPattern?] using hformed
      simp [constantValue, patternValue, Datum.toValue, Atom.toValue, hformed]
    | _ =>
      cases hc
      rfl
  | _ =>
    simp only [constantOf?] at hc
    split at hc
    · cases hc
      rfl
    · cases hc

/-- The machine stops at a malformed pattern, where the form denotes `nil`. -/
theorem malformed_folded [Libraries] {d : Datum} {c : Constant} {source : String} (hc : constantOf? d = some c)
    (hd : malformedPattern? d = some source) (w : World) :
    d.toValue = .nil ∧ constantValue w c = .error (invalidPattern source) := by
  obtain ⟨i, rfl, hformed⟩ := malformedPattern?_eq_some hd
  cases hc
  exact ⟨by simp [Datum.toValue, Atom.toValue, hformed], by simp [constantValue, patternValue, hformed]⟩

theorem step_const_of_error [Libraries] {call : Caller} {body : Body} {c : Constant} {r : Running} {e : Error}
    (he : constantValue r.world c = .error e) : step call body (.const c) r = .error (.error e) r := by
  have hread : Exec.lift (Action.read fun w => constantValue w c) r = .error (.error e) r :=
    Exec.lift_of_error (Action.read_of_error he)
  rw [step, State.bind_of_error hread]

/-! ### Both modes -/

/-- The ways a folded form and its constant come out.  Evaluation gives the value of the form, and so does the
machine, except for a malformed pattern: that is `nil` to evaluation and an error to the machine. -/
theorem folded_outcomes [Libraries] {d : Datum} {c : Constant} (hc : constantOf? d = some c) (fuel : Nat)
    (hfuel : nesting d < fuel) (s : FormState) (call : Caller) (body : Body) (r : Running) :
    (handlers fuel).evaluate d s = .ok d.toValue s ∧
      match malformedPattern? d with
      | none => step call body (.const c) r = .ok .next (r.withStack (slotsOf d.toValue c.ty ++ r.frame.stack))
      | some source => d.toValue = .nil ∧ step call body (.const c) r = .error (.error (invalidPattern source)) r := by
  refine ⟨evaluate_folded d (isConstant_of_constantOf hc) fuel hfuel s, ?_⟩
  cases hd : malformedPattern? d with
  | none => exact step_const (constantValue_folded hc hd r.world)
  | some source =>
    obtain ⟨hnil, herror⟩ := malformed_folded hc hd r.world
    exact ⟨hnil, step_const_of_error herror⟩

/-- `{[1 #"("] #{2 2.0}}`: nested collections, with a malformed pattern among their items. -/
def nestedLiteral : Datum :=
  .map [(.vector [.ofAtom (.int 1) default, .ofAtom (.regex "(") default] {},
    .set [.ofAtom (.int 2) default, .ofAtom (.float (Double.ofInt 2)) default] {})] {}

theorem nestedLiteral_outcomes :
    malformedPattern? nestedLiteral = none ∧ constantOf? nestedLiteral = some (.quoted nestedLiteral) ∧
      (handlers 3).evaluate nestedLiteral default = .ok nestedLiteral.toValue default ∧
      step (handlers 3).call ⟨default, [], 0⟩ (.const (.quoted nestedLiteral)) ⟨default, default⟩
        = .ok .next (Running.withStack ⟨default, default⟩ [nestedLiteral.toValue]) := by
  have hc : constantOf? nestedLiteral = some (.quoted nestedLiteral) := rfl
  obtain ⟨heval, hstep⟩ :=
    folded_outcomes hc 3 (by decide) default (handlers 3).call ⟨default, [], 0⟩ ⟨default, default⟩
  exact ⟨rfl, hc, heval, hstep⟩

/-- The pattern `(`, which lacks its other half. -/
def openPattern : Datum := .ofAtom (.regex "(") default

/-- Evaluation takes the pattern for `nil`, and the machine raises an error of reading at its constant. -/
theorem openPattern_differs :
    constantOf? openPattern = some (.regex "(") ∧
      (handlers 1).evaluate openPattern default = .ok .nil default ∧
      step (handlers 1).call ⟨default, [], 0⟩ (.const (.regex "(")) ⟨default, default⟩
        = .error (.error (invalidPattern "(")) ⟨default, default⟩ := by
  have hopen : malformedPattern? openPattern = some "(" := by
    have hformed : Libraries.isPattern "(" = false := by decide +kernel
    simp [openPattern, Datum.ofAtom, malformedPattern?, hformed]
  have hc : constantOf? openPattern = some (.regex "(") := rfl
  obtain ⟨hnil, herror⟩ := malformed_folded hc hopen default
  have heval := evaluate_folded openPattern rfl 1 (by decide) default
  rw [hnil] at heval
  exact ⟨hc, heval, step_const_of_error herror⟩

end LispMachine.Agreement
