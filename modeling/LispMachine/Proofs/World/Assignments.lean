import LispMachine.Proofs.Machine.Arities
import LispMachine.Proofs.Machine.Onward
import LispMachine.Proofs.World.Resolution

/-! # Assignments to vars

A `set!` of a final var is refused when the form is evaluated or compiled.  The store itself looks at no flag:
it is made once the value has been evaluated, or whenever the code that was compiled is run, and what has
happened since may have made the var final (`set_checked_once`).  Only definitions give a var its flags
(`flags_history`), so that a store meets a final var just if a definition made it one after the check. -/

namespace LispMachine

namespace Machine

open Relation

/-! ### A var in the course of a session -/

/-- What happens in a session: running code makes a change, or work is done that leaves the vars and their names
alone, such as making a class. -/
inductive Happens (w : World) : World → Prop
  | change {w' : World} (h : Change w w') : Happens w w'
  | aside {w' : World} (hvars : w'.vars = w.vars) (hnames : ∀ space name v, w.findVar? space name = some v →
      v.space = space → w'.findVar? space name = some v) : Happens w w'

/-- Any number of these, one after the other. -/
abbrev History : World → World → Prop := ReflTransGen Happens

section Vars

variable {w w' : World} {v : VarRef} {c : VarCell}

/-- What a change does to the vars: one is bound or defined, or a new one is made. -/
theorem Change.vars (h : Change w w') :
    w'.vars = w.vars ∨ (∃ v value, w' = w.bindRoot v value) ∨ (∃ v value flags, w' = w.define v value flags) ∨
      ∃ cell, w'.vars = w.vars.push cell := by
  cases h with
  | link index args => exact .inl (by rw [linked_eq])
  | bind v value => exact .inr (.inl ⟨v, value, rfl⟩)
  | define v value flags => exact .inr (.inr (.inl ⟨v, value, flags, rfl⟩))
  | intern space name =>
    have hensured : (w.ensureSpace space).vars = w.vars := by rw [w.ensureSpace_eq]
    rcases (w.ensureSpace space).intern_cases space name with heq | heq
    · exact .inl (by rw [heq, hensured])
    · exact .inr (.inr (.inr ⟨_, by rw [heq, ← hensured]⟩))
  | enter name => exact .inl (by rw [w.enter_eq])
  | importClass name h =>
    unfold World.importClass at h
    split at h
    · cases h
      exact .inl rfl
    · cases h
  | allocate cls => exact .inl rfl
  | store o slot value => exact .inl rfl
  | print text => exact .inl rfl
  | draw stem => exact .inl rfl

theorem cell?_changeVar (hc : w.cell? v = some c) (u : VarRef) (change : VarCell → VarCell) :
    (w.changeVar u change).cell? v = some (if u.id = v.id then { change c with epoch := c.epoch + 1 } else c) := by
  have hc' : w.vars[v.id]? = some c := hc
  simp only [World.changeVar, World.cell?, Array.getElem?_modify, hc']
  split <;> rfl

theorem root?_bindRoot (hc : w.cell? v = some c) (value : Value) : (w.bindRoot v value).root? v = some value := by
  rw [World.root?, World.bindRoot, cell?_changeVar hc, if_pos rfl]
  rfl

/-- A var stays, and has the flags that it had if it is not defined. -/
theorem Happens.flags (h : Happens w w') (hc : w.cell? v = some c) :
    ∃ c', w'.cell? v = some c' ∧
      (c'.flags = c.flags ∨ ∃ u value, u.id = v.id ∧ w' = w.define u value c'.flags) := by
  have hsame : w'.vars = w.vars → ∃ c', w'.cell? v = some c' ∧
      (c'.flags = c.flags ∨ ∃ u value, u.id = v.id ∧ w' = w.define u value c'.flags) :=
    fun hvars => ⟨c, by rw [World.cell?, hvars]; exact hc, .inl rfl⟩
  cases h with
  | aside hvars hnames => exact hsame hvars
  | change h =>
    rcases h.vars with hvars | ⟨u, value, rfl⟩ | ⟨u, value, flags, rfl⟩ | ⟨cell, hvars⟩
    · exact hsame hvars
    · refine ⟨_, cell?_changeVar hc u _, .inl ?_⟩
      split <;> rfl
    · by_cases hid : u.id = v.id
      · refine ⟨_, cell?_changeVar hc u _, .inr ⟨u, value, hid, ?_⟩⟩
        rw [if_pos hid]
      · refine ⟨_, cell?_changeVar hc u _, .inl ?_⟩
        rw [if_neg hid]
    · have hlt := (Array.getElem?_eq_some_iff.mp hc).1
      refine ⟨c, ?_, .inl rfl⟩
      rw [World.cell?, hvars, Array.getElem?_push_lt hlt, ← hc, World.cell?, Array.getElem?_eq_getElem hlt]

theorem Happens.names (h : Happens w w') {space name : String} (hv : w.findVar? space name = some v)
    (hown : v.space = space) : w'.findVar? space name = some v := by
  cases h with
  | change h => exact h.onward.names space name v hv hown
  | aside hvars hnames => exact hnames space name v hv hown

/-- The flags of a var are those it had, or those of a definition on the way. -/
theorem flags_history (h : History w w') (hc : w.cell? v = some c) :
    ∃ c', w'.cell? v = some c' ∧ (c'.flags = c.flags ∨
      ∃ m u value, History w m ∧ u.id = v.id ∧ History (m.define u value c'.flags) w') := by
  induction h with
  | refl => exact ⟨c, hc, .inl rfl⟩
  | tail hbefore hstep ih =>
    obtain ⟨c₁, hc₁, hflags⟩ := ih
    obtain ⟨c₂, hc₂, hstepped⟩ := hstep.flags hc₁
    refine ⟨c₂, hc₂, ?_⟩
    rcases hstepped with hsame | ⟨u, value, hid, rfl⟩
    · rw [hsame]
      exact hflags.imp id fun ⟨m, u, value, hm, hid, hafter⟩ => ⟨m, u, value, hm, hid, hafter.tail hstep⟩
    · exact .inr ⟨_, u, value, hbefore, hid, .refl⟩

theorem names_history (h : History w w') {space name : String} (hv : w.findVar? space name = some v)
    (hown : v.space = space) : w'.findVar? space name = some v := by
  induction h with
  | refl => exact hv
  | tail _ hstep ih => exact hstep.names ih hown

theorem flagsOf_eq (hc : w.cell? v = some c) : w.flagsOf v = c.flags := by
  rw [World.flagsOf, hc]
  rfl

/-- The instruction binds the root of its var, with no look at the flags. -/
theorem step_setVar [Libraries] {call : Caller} {body : Body} {r : Running} {value : Value} {rest : List Value}
    (hv : r.world.findVar? v.space v.name = some v) (hstack : r.frame.stack = value :: rest) :
    step call body (.setVar v.space v.name) r = .ok .next { r with world := r.world.bindRoot v value } := by
  have hfind : findVar v.space v.name (r.withStack rest) = .ok v (r.withStack rest) := by
    simp only [findVar, State.bind_eq, State.get_eq, Running.withStack, hv]
    rfl
  refine (State.bind_of_ok (popSlot_cons r hstack)).trans ((State.bind_of_ok hfind).trans ?_)
  change EStateM.Result.ok Step.next _ = _
  obtain ⟨⟨pc, locals, stack⟩, world⟩ := r
  cases hstack
  rfl

end Vars

end Machine

namespace Form

open Machine

/-! ### The two forms of an assignment -/

section Assignments

variable {h : Handlers} {d target value : Datum} {name : String} {v : VarRef} {s : FormState}

/-- The flags of a var stay. -/
def KeepsFlags (v : VarRef) (w w' : World) : Prop := w'.flagsOf v = w.flagsOf v

instance (v : VarRef) : IsPreorder World (KeepsFlags v) where
  refl _ := rfl
  trans _ _ _ h h' := Eq.trans h' h

/-- The error of an assignment to a final var. -/
def refusal (target : Datum) (v : VarRef) : Error :=
  target.compileError ("Cannot set! final var: #'" ++ v.toText)

theorem checkAssignable_eq (w : World) (v : VarRef) (target : Datum) :
    checkAssignable w v target = if (w.flagsOf v).isFinal then .error (refusal target v) else .ok () := rfl

theorem assignmentParts_run (hparts : assignmentParts d = .ok (target, name, value)) :
    FormM.ofExcept (assignmentParts d) s = .ok (target, name, value) s := by
  rw [hparts]
  rfl

/-- An assignment to a var is interpreted: the check, the value, the store. -/
theorem evaluateSet_var (hparts : assignmentParts d = .ok (target, name, value))
    (hresolve : resolve name s = .ok (.var v) s) :
    evaluateSet h d s = (do
      FormM.ofExcept (checkAssignable s.world v target)
      let result ← FormM.withTail false (h.evaluate value)
      FormM.lift (modify fun w : World => w.bindRoot v result)
      return result) s :=
  (State.bind_of_ok (assignmentParts_run hparts)).trans (State.bind_of_ok hresolve)

/-- An assignment to a var is compiled: the check, the code for the value, the store. -/
theorem compileSet_var (hparts : assignmentParts d = .ok (target, name, value))
    (hresolve : resolve name s = .ok (.var v) s) :
    compileSet h d s = (do
      FormM.ofExcept (checkAssignable s.world v target)
      compileBoxed h value
      FormM.emit (.setVar v.space v.name)) s :=
  (State.bind_of_ok (assignmentParts_run hparts)).trans (State.bind_of_ok hresolve)

/-- An assignment that has passed the check is carried through, whatever has become of the var since. -/
structure CarriedThrough [Libraries] (h : Handlers) (d value : Datum) (v : VarRef) (s : FormState) : Prop where
  evaluated : ∀ x t, FormM.withTail false (h.evaluate value) s = .ok x t →
    evaluateSet h d s = .ok x { t with world := t.world.bindRoot v x }
  failed : ∀ e t, FormM.withTail false (h.evaluate value) s = .error e t → evaluateSet h d s = .error e t
  compiled : compileSet h d s = (do compileBoxed h value; FormM.emit (.setVar v.space v.name)) s
  executed : ∀ call body r x rest, History s.world r.world → r.frame.stack = x :: rest →
    step call body (.setVar v.space v.name) r = .ok .next { r with world := r.world.bindRoot v x } ∧
      (r.world.bindRoot v x).root? v = some x

/-- A definition of the var as final is among what happened. -/
def MadeFinal (v : VarRef) (w w' : World) : Prop :=
  ∃ m u value flags, History w m ∧ u.id = v.id ∧ flags.isFinal = true ∧ History (m.define u value flags) w'

/-- An assignment to a var that is final when the form is worked on is refused, and changes nothing.  One to a var
that is not is carried through: interpreted, once the value has been evaluated, and compiled, each time its code
is run in the further history of the session.  So it reaches a final var just if that was made one since: by
the evaluation of the value, or by a definition before the code is run. -/
theorem set_checked_once [Libraries] {c : VarCell} (hparts : assignmentParts d = .ok (target, name, value))
    (hresolve : resolve name s = .ok (.var v) s) (hv : s.world.findVar? v.space v.name = some v)
    (hc : s.world.cell? v = some c) :
    ((s.world.flagsOf v).isFinal = true → evaluateSet h d s = .error (.error (refusal target v)) s ∧
      compileSet h d s = .error (.error (refusal target v)) s) ∧
    ((s.world.flagsOf v).isFinal = false → CarriedThrough h d value v s ∧
      (Along (KeepsFlags v) (h.evaluate value) → ∀ x t, FormM.withTail false (h.evaluate value) s = .ok x t →
        (t.world.flagsOf v).isFinal = false) ∧
      ∀ w, History s.world w → (w.flagsOf v).isFinal = true → MadeFinal v s.world w) := by
  have hevaluate := evaluateSet_var (h := h) hparts hresolve
  have hcompile := compileSet_var (h := h) hparts hresolve
  rw [checkAssignable_eq] at hevaluate hcompile
  refine ⟨fun hfinal => ?_, fun hopen => ⟨⟨?_, ?_, ?_, ?_⟩, ?_, ?_⟩⟩
  · rw [if_pos hfinal] at hevaluate hcompile
    exact ⟨hevaluate, hcompile⟩
  all_goals
    simp only [hopen, Bool.false_eq_true, if_false] at hevaluate hcompile
  · intro x t hx
    exact hevaluate.trans ((State.bind_of_ok rfl).trans (State.bind_of_ok hx))
  · intro e t he
    exact hevaluate.trans ((State.bind_of_ok rfl).trans (State.bind_of_error he))
  · exact hcompile
  · intro call body r x rest hhistory hstack
    obtain ⟨c', hc', -⟩ := flags_history hhistory hc
    exact ⟨step_setVar (names_history hhistory hv rfl) hstack, root?_bindRoot hc' x⟩
  · intro hkeeps x t hx
    have hkept : KeepsFlags v s.world (endWorld (FormM.withTail false (h.evaluate value) s)) :=
      along_withTail false hkeeps s
    rw [hx] at hkept
    rw [show t.world.flagsOf v = s.world.flagsOf v from hkept]
    exact hopen
  · intro w hhistory hfinal
    obtain ⟨c', hc', hflags⟩ := flags_history hhistory hc
    rw [flagsOf_eq hc'] at hfinal
    rw [flagsOf_eq hc] at hopen
    rcases hflags with hsame | ⟨m, u, value, hm, hid, hafter⟩
    · rw [hsame, hopen] at hfinal
      cases hfinal
    · exact ⟨m, u, value, c'.flags, hm, hid, hfinal, hafter⟩

/-- The var `x`. -/
def xVar : VarRef := { id := 0, space := Names.userSpace, name := "x" }

/-- A session with the var `x`, bound to 1. -/
def oneBound : FormState :=
  let assign : VarRef := { id := 1, space := Names.coreSpace, name := "set!" }
  { world :=
    { registry := Host.registry
      vars := #[{ space := xVar.space, name := xVar.name, root := some (.int 1) },
        { space := assign.space, name := assign.name, root := some (.special .setForm) }]
      spaces := ⟨[(Names.userSpace, { mappings := ⟨[(xVar.name, xVar), (assign.name, assign)]⟩ })]⟩ } }

/-- The form `(set! x 3)`. -/
def threeIntoX : Datum :=
  .ofList [.symbol "set!" default, .symbol "x" default, .atom (.int 3) default] default

/-- The assignment is evaluated, and its instruction stores into `x` also once `x` is final. -/
theorem set_checked_once_later :
    (∃ t, evaluateSet (handlers 1) threeIntoX oneBound = .ok (.int 3) t ∧ t.world.root? xVar = some (.int 3)) ∧
      ∀ call body frame rest, frame.stack = .int 3 :: rest → ∃ w,
        step call body (.setVar xVar.space xVar.name)
          ⟨frame, oneBound.world.define xVar (some (.int 2)) { isFinal := true }⟩ = .ok .next ⟨frame, w⟩ ∧
        w.root? xVar = some (.int 3) := by
  have hopen : (oneBound.world.flagsOf xVar).isFinal = false := rfl
  obtain ⟨-, hcarried⟩ := set_checked_once (h := handlers 1) (d := threeIntoX) (s := oneBound) rfl rfl rfl rfl
  obtain ⟨hcarried, -, -⟩ := hcarried hopen
  refine ⟨⟨_, hcarried.evaluated (.int 3) oneBound rfl, rfl⟩, fun call body frame rest hstack => ?_⟩
  obtain ⟨hstep, hroot⟩ := hcarried.executed call body
    ⟨frame, oneBound.world.define xVar (some (.int 2)) { isFinal := true }⟩ (.int 3) rest
    (.single (.change (.define xVar _ _))) hstack
  exact ⟨_, hstep, hroot⟩

/-- The var `x` is final and bound to a number. -/
def finalAt (w : World) (n : Int64) : Bool :=
  (w.flagsOf xVar).isFinal && (w.root? xVar).any fun
    | .int m => m == n
    | _ => false

theorem of_finalAt {w : World} {n : Int64} (h : finalAt w n = true) :
    (w.flagsOf xVar).isFinal = true ∧ w.root? xVar = some (.int n) := by
  obtain ⟨hfinal, hroot⟩ := Bool.and_eq_true_iff.mp h
  refine ⟨hfinal, ?_⟩
  obtain ⟨x, hx, hn⟩ := (Option.any_eq_true ..).mp hroot
  cases x with
  | int m => rw [hx, beq_iff_eq.mp hn]
  | _ => cases hn

/-- The form `(fn [] (set! x 3))`. -/
def assigner : Datum := .ofList [.symbol "fn" default, .ofVector [] default, threeIntoX] default

/-- Defines `x` as final. -/
def finalX (w : World) : World := w.define xVar (some (.int 2)) { isFinal := true }

/-- A function that was compiled before `x` was made final gives it another value afterwards. -/
theorem final_var_assigned :
    ∃ cls captures t f w result w', (oneBound.world.flagsOf xVar).isFinal = false ∧
      defineFn (handlers 3) assigner oneBound = .ok (cls, captures) t ∧
      newInstance (call 8) cls.name [] [] t.world = .ok f w ∧
      ((finalX w).flagsOf xVar).isFinal = true ∧ (finalX w).root? xVar = some (.int 2) ∧
      call 8 (.apply f []) (finalX w) = .ok result w' ∧
      (w'.flagsOf xVar).isFinal = true ∧ w'.root? xVar = some (.int 3) := by
  have hparts : fnParts assigner = .ok (none, [{ names := [], isVariadic := false, body := [threeIntoX] }]) := by cbv
  obtain ⟨cls, captures, t, hdefine, hmakes⟩ := exists_defineFn (h := handlers 3) (s := oneBound)
    (q := fun r => (State.answer? (newInstance (call 8) r.1.name [] [] r.2.world)).any fun r =>
      finalAt (finalX r.2) 2 && (State.answer? (call 8 (.apply r.1 []) (finalX r.2))).any fun r => finalAt r.2 3)
    hparts (by decide +kernel)
  obtain ⟨f, w, hnew, hstores⟩ := State.exists_answer hmakes
  obtain ⟨hmade, hstores⟩ := Bool.and_eq_true_iff.mp hstores
  obtain ⟨result, w', hcall, hstored⟩ := State.exists_answer hstores
  obtain ⟨hfinal, hroot⟩ := of_finalAt hmade
  obtain ⟨hfinal', hroot'⟩ := of_finalAt hstored
  exact ⟨cls, captures, t, f, w, result, w', rfl, hdefine, hnew, hfinal, hroot, hcall, hfinal', hroot'⟩

end Assignments

end Form

end LispMachine
