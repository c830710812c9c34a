import Mathlib.Logic.Relation
import LispMachine.Machine.Call
import LispMachine.Proofs.Machine.Operands

/-! # What running code does to the world

Code that runs changes the world in a few ways only, and `Change` lists them: a call site is asked for a
target and may be relinked, a var is bound, a name is interned, the namespace is left for another, a class
is imported, an object of a registered class is made, one is written to, a line is printed, and a number is
drawn for a new name.  Whatever the machine is asked for, the world it leaves behind comes about by such
changes (`call_course`), also when it fails or runs out of fuel.  What every change keeps, every run keeps. -/

namespace LispMachine.Machine

open Relation

/-- The world an action leaves behind. -/
def worldAfter {α : Type} : EStateM.Result Fault World α → World
  | .ok _ w => w
  | .error _ w => w

/-- The world after a call site was asked for the target of a call. -/
def linked (index : Nat) (args : List Value) (w : World) : World := worldAfter (targetOf index args w)

/-- One change that running code makes. -/
inductive Change (w : World) : World → Prop
  | link (index : Nat) (args : List Value) : Change w (linked index args w)
  | bind (v : VarRef) (value : Value) : Change w (w.bindRoot v value)
  | define (v : VarRef) (value : Option Value) (flags : VarFlags) : Change w (w.define v value flags)
  | intern (space name : String) : Change w ((w.ensureSpace space).intern space name).2
  | enter (name : String) : Change w (w.enter name)
  | importClass (name : String) {w' : World} (h : w.importClass name = .ok w') : Change w w'
  | allocate (cls : ClassInfo) {name : String} (h : w.registry.find? name = some cls) :
    Change w (w.allocate cls).2
  | store (o : ObjectRef) (slot : Nat) (value : Value) : Change w (w.storeSlot o slot value)
  | print (text : String) : Change w { w with output := text }
  | draw (stem : String) : Change w (w.gensym stem).2

/-- Any number of changes, one after the other. -/
abbrev Course : World → World → Prop := ReflTransGen Change

/-! ### Actions -/

/-- An action leaves a world behind that comes about by changes. -/
def Runs {α : Type} (m : Action α) : Prop := ∀ w, Course w (worldAfter (m w))

section Actions

variable {α β : Type}

theorem runs_pure (a : α) : Runs (pure a : Action α) := fun _ => .refl

theorem runs_get : Runs (get : Action World) := fun _ => .refl

theorem runs_throw (fault : Fault) : Runs (throw fault : Action α) := fun _ => .refl

theorem runs_fail (e : Error) : Runs (Action.fail e : Action α) := fun _ => .refl

theorem runs_bind {m : Action α} {f : α → Action β} (hm : Runs m) (hf : ∀ a, Runs (f a)) :
    Runs (m >>= f) := by
  intro w
  have hfirst := hm w
  rw [State.bind_eq]
  cases hresult : m w with
  | ok a w' =>
    rw [hresult] at hfirst
    exact hfirst.trans (hf a w')
  | error e w' =>
    rw [hresult] at hfirst
    exact hfirst

theorem runs_ofExcept (x : Except Error α) : Runs (Action.ofExcept x) := by
  cases x with
  | ok a => exact runs_pure a
  | error e => exact runs_fail e

theorem runs_read (g : World → Except Error α) : Runs (Action.read g) :=
  runs_bind runs_get fun _ => runs_ofExcept _

theorem runs_change {g : World → α × World} (h : ∀ w, Change w (g w).2) : Runs (Action.change g) :=
  fun w => .single (h w)

theorem runs_modify {g : World → World} (h : ∀ w, Change w (g w)) : Runs (modify g : Action Unit) :=
  fun w => .single (h w)

end Actions

/-! ### Objects and calls of methods -/

section Calls

variable {call : Caller}

theorem runs_targetOf (index : Nat) (args : List Value) : Runs (targetOf index args) :=
  fun _ => .single (.link index args)

theorem runs_setField (o : ObjectRef) (field : String) (v : Value) : Runs (Action.setField o field v) :=
  runs_bind (runs_read _) fun slot => runs_modify fun _ => .store o slot v

theorem runs_newInstance (hcall : ∀ q, Runs (call q)) (cls : String) (params : List Ty)
    (args : List Value) : Runs (newInstance call cls params args) := by
  intro w
  rw [newInstance, State.bind_of_ok (State.get_eq w)]
  cases hcls : w.registry.find? cls with
  | none => exact runs_fail _ w
  | some c =>
    dsimp only
    split
    · exact runs_fail _ w
    · cases c.constructors.find? fun k => k.params == params with
      | none => exact runs_fail _ w
      | some k =>
        let o := (w.allocate c).1
        have hinit : Runs (call (.invoke c k (some (.object o)) args) >>= fun _ => pure (Value.object o)) :=
          runs_bind (hcall _) fun _ => runs_pure _
        exact (ReflTransGen.single (.allocate c hcls)).trans (hinit _)

theorem runs_callInstance (hcall : ∀ q, Runs (call q)) (receiver : Value) (name : String)
    (args : List Value) : Runs (callInstance call receiver name args) := by
  unfold callInstance
  split
  · exact runs_fail _
  · refine runs_bind runs_get fun w => ?_
    exact runs_bind (runs_ofExcept _) fun choice => hcall _

theorem runs_exceptionOf (hcall : ∀ q, Runs (call q)) (e : Error) : Runs (exceptionOf call e) := by
  unfold exceptionOf
  split
  · exact runs_pure _
  · exact runs_newInstance hcall _ _ _
  · exact runs_newInstance hcall _ _ _
  · exact runs_newInstance hcall _ _ _
  · exact runs_fail _

theorem runs_castError (hcall : ∀ q, Runs (call q)) (v : Value) (expected : String) :
    Runs (castError call v expected) := by
  intro w
  have hmade := runs_newInstance hcall Names.classCast [.string]
    [.str (v.classText ++ " cannot be cast to " ++ expected)] w
  unfold castError makeException
  split <;> rename_i h <;> rw [h] at hmade <;> exact hmade

theorem runs_superConstructor (hcall : ∀ q, Runs (call q)) (owner : String) (params : List Ty)
    (receiver : Value) (args : List Value) :
    Runs (superConstructor call owner params receiver args) := by
  refine runs_bind runs_get fun w => ?_
  split
  · exact runs_fail _
  · split
    · exact runs_fail _
    · exact runs_bind (hcall _) fun _ => runs_pure _

/-! ### Displayed text -/

theorem runs_ownText? (hcall : ∀ q, Runs (call q)) (v : Value) (cls : String) :
    Runs (ownText? call v cls) := by
  refine runs_bind runs_get fun w => ?_
  dsimp only
  split
  · split
    · exact runs_pure _
    · refine runs_bind (hcall _) fun text => ?_
      exact runs_bind runs_get fun w' => runs_pure _
  · exact runs_pure _

mutual

theorem runs_displayText (hcall : ∀ q, Runs (call q)) (readable : Bool) :
    ∀ v, Runs (displayText call readable v)
  | .object o => by
    unfold displayText
    refine runs_bind (runs_ownText? hcall _ _) fun text => ?_
    split
    · exact runs_pure _
    · exact runs_bind runs_get fun w => runs_pure _
  | .list items => by
    unfold displayText
    exact runs_bind (runs_displayTexts hcall items) fun _ => runs_pure _
  | .vector items => by
    unfold displayText
    exact runs_bind (runs_displayTexts hcall items) fun _ => runs_pure _
  | .set items => by
    unfold displayText
    exact runs_bind (runs_displayTexts hcall items) fun _ => runs_pure _
  | .map entries => by
    unfold displayText
    exact runs_bind (runs_displayEntries hcall entries) fun _ => runs_pure _
  | .nil | .bool _ | .char _ | .int _ | .float _ | .str _ | .regex _ | .keyword _ | .symbol _
  | .function _ | .cls _ | .nameSpace _ | .var _ | .special _ => by
    unfold displayText
    exact runs_bind runs_get fun w => runs_pure _

theorem runs_displayTexts (hcall : ∀ q, Runs (call q)) : ∀ vs, Runs (displayTexts call vs)
  | [] => runs_pure _
  | v :: vs => by
    unfold displayTexts
    refine runs_bind (runs_displayText hcall true v) fun t => ?_
    exact runs_bind (runs_displayTexts hcall vs) fun ts => runs_pure _

theorem runs_displayEntries (hcall : ∀ q, Runs (call q)) : ∀ es, Runs (displayEntries call es)
  | [] => runs_pure _
  | (k, v) :: es => by
    unfold displayEntries
    refine runs_bind (runs_displayText hcall true k) fun tk => ?_
    refine runs_bind (runs_displayText hcall true v) fun tv => ?_
    exact runs_bind (runs_displayEntries hcall es) fun ts => runs_pure _

end

theorem runs_displayAll (hcall : ∀ q, Runs (call q)) (readable : Bool) (vs : List Value) :
    Runs (displayAll call readable vs) := by
  induction vs with
  | nil => exact runs_pure _
  | cons v vs ih =>
    refine runs_bind (runs_displayText hcall readable v) fun t => ?_
    exact runs_bind ih fun ts => runs_pure _

/-! ### Functions -/

theorem runs_mapItems (hcall : ∀ q, Runs (call q)) (f : Value) (items : List Value) :
    Runs (mapItems call f items) := by
  induction items with
  | nil => exact runs_pure _
  | cons x xs ih =>
    refine runs_bind (hcall _) fun y => ?_
    exact runs_bind ih fun ys => runs_pure _

theorem runs_filterItems (hcall : ∀ q, Runs (call q)) (f : Value) (items : List Value) :
    Runs (filterItems call f items) := by
  induction items with
  | nil => exact runs_pure _
  | cons x xs ih =>
    refine runs_bind (hcall _) fun keep => ?_
    exact runs_bind ih fun rest => runs_pure _

theorem runs_foldItems (hcall : ∀ q, Runs (call q)) (f acc : Value) (items : List Value) :
    Runs (foldItems call f acc items) := by
  induction items generalizing acc with
  | nil => exact runs_pure _
  | cons x xs ih => exact runs_bind (hcall _) fun acc' => ih acc'

theorem runs_reduce (hcall : ∀ q, Runs (call q)) (f : Value) (args : List Value) :
    Runs (reduce call f args) := by
  unfold reduce
  split
  · refine runs_bind (runs_ofExcept _) fun items => ?_
    split
    · exact hcall _
    · exact runs_foldItems hcall _ _ _
  · exact runs_bind (runs_ofExcept _) fun items => runs_foldItems hcall _ _ _
  · exact runs_fail _

theorem runs_runNative (hcall : ∀ q, Runs (call q)) (n : Native) (args : List Value) :
    Runs (runNative call n args) := by
  unfold runNative
  dsimp only
  split
  · exact runs_bind (runs_displayAll hcall _ _) fun _ => runs_pure _
  · exact runs_bind (runs_displayAll hcall _ _) fun _ => runs_pure _
  · refine runs_bind (runs_displayAll hcall _ _) fun _ => ?_
    exact runs_bind (runs_modify fun _ => .print _) fun _ => runs_pure _
  · refine runs_bind (runs_displayAll hcall _ _) fun _ => ?_
    exact runs_bind (runs_modify fun _ => .print _) fun _ => runs_pure _
  · exact runs_read _
  · refine runs_bind (runs_ofExcept _) fun stem => ?_
    exact runs_bind (runs_change fun _ => .draw stem) fun _ => runs_pure _
  · exact runs_read _
  · exact runs_bind (runs_ofExcept _) fun _ => hcall _
  · refine runs_bind (runs_ofExcept _) fun items => ?_
    exact runs_bind (runs_mapItems hcall _ _) fun _ => runs_pure _
  · refine runs_bind (runs_ofExcept _) fun items => ?_
    exact runs_bind (runs_filterItems hcall _ _) fun _ => runs_pure _
  · exact runs_reduce hcall _ _
  · exact runs_ofExcept _

theorem runs_callFunction (hcall : ∀ q, Runs (call q)) (f : Function) (args : List Value) :
    Runs (callFunction call f args) := by
  unfold callFunction
  split
  · cases f with
    | native n => exact runs_runNative hcall n args
    | dispatcher id method => exact runs_callInstance hcall _ _ _
  · exact runs_fail _

/-! ### Call sites -/

theorem runs_readField (receiver : Value) (name : String) : Runs (readField receiver name) := by
  unfold readField
  split
  · exact runs_read _
  · exact runs_fail _
  · exact runs_fail _

theorem runs_runMember (hcall : ∀ q, Runs (call q)) (target : CallSite.Target) (args : List Value) :
    Runs (runMember call target args) := by
  unfold runMember
  split
  · refine runs_bind runs_get fun w => ?_
    dsimp only
    split
    · exact runs_bind (runs_ofExcept _) fun _ => hcall _
    · exact hcall _
  · exact runs_bind runs_get fun w => runs_newInstance hcall _ _ _
  · exact runs_bind (runs_ofExcept _) fun _ => runs_readField _ _
  · exact runs_fail _

theorem runs_runGeneric (hcall : ∀ q, Runs (call q)) (spec : SiteSpec) (args : List Value) :
    Runs (runGeneric call spec args) := by
  unfold runGeneric
  split
  · refine runs_bind runs_get fun w => ?_
    exact runs_bind (runs_ofExcept _) fun _ => runs_ofExcept _
  · refine runs_bind runs_get fun w => ?_
    refine runs_bind (runs_ofExcept _) fun _ => ?_
    exact runs_bind (runs_ofExcept _) fun _ => hcall _
  · exact runs_bind (runs_ofExcept _) fun _ => hcall _
  · exact runs_bind (runs_read _) fun _ => runs_runMember hcall _ _

theorem runs_runTarget (hcall : ∀ q, Runs (call q)) (target : CallSite.Target) (args : List Value) :
    Runs (runTarget call target args) := by
  unfold runTarget
  split
  · exact runs_pure _
  · exact runs_callFunction hcall _ _
  · exact hcall _
  · exact hcall _
  · exact runs_bind (runs_ofExcept _) fun _ => hcall _
  · exact runs_bind (runs_ofExcept _) fun _ => runs_callFunction hcall _ _
  · exact runs_bind (runs_ofExcept _) fun _ => hcall _
  · exact runs_bind (runs_ofExcept _) fun _ => hcall _
  · exact runs_runGeneric hcall _ _
  · exact runs_runMember hcall _ _

theorem runs_invokeSite (hcall : ∀ q, Runs (call q)) (index : Nat) (args : List Value) :
    Runs (invokeSite call index args) :=
  runs_bind (runs_targetOf index args) fun _ => runs_runTarget hcall _ _

theorem runs_callSite (hcall : ∀ q, Runs (call q)) (body : Body) (i : Nat) (spec : SiteSpec)
    (args : List Value) : Runs (callSite call body i spec args) := by
  intro w
  have hrun := runs_invokeSite hcall (body.firstSite + i) args w
  unfold callSite
  split
  · rename_i h
    rw [h] at hrun
    exact hrun
  · exact hrun

end Calls

/-! ### Instructions -/

/-- A step of a method leaves a world behind that comes about by changes. -/
def StepRuns {α : Type} (m : Exec α) : Prop :=
  ∀ s, Course s.world (match m s with
    | .ok _ s' => s'.world
    | .error _ s' => s'.world)

section Instructions

variable {α β : Type} {call : Caller}

theorem stepRuns_pure (a : α) : StepRuns (pure a : Exec α) := fun _ => .refl

theorem stepRuns_get : StepRuns (get : Exec Running) := fun _ => .refl

theorem stepRuns_fail (e : Error) : StepRuns (Exec.fail e : Exec α) := fun _ => .refl

theorem stepRuns_modifyFrame (g : Frame → Frame) : StepRuns (Exec.modifyFrame g) := fun _ => .refl

theorem stepRuns_bind {m : Exec α} {f : α → Exec β} (hm : StepRuns m) (hf : ∀ a, StepRuns (f a)) :
    StepRuns (m >>= f) := by
  intro s
  have hfirst := hm s
  rw [State.bind_eq]
  cases hresult : m s with
  | ok a s' =>
    rw [hresult] at hfirst
    exact hfirst.trans (hf a s')
  | error e s' =>
    rw [hresult] at hfirst
    exact hfirst

theorem stepRuns_lift {a : Action α} (h : Runs a) : StepRuns (Exec.lift a) := by
  intro s
  have hrun := h s.world
  cases hresult : a s.world with
  | ok x w =>
    rw [Exec.lift_of_ok hresult]
    rwa [hresult] at hrun
  | error e w =>
    rw [Exec.lift_of_error hresult]
    rwa [hresult] at hrun

theorem stepRuns_ofExcept (x : Except Error α) : StepRuns (Exec.lift (Action.ofExcept x)) :=
  stepRuns_lift (runs_ofExcept x)

theorem stepRuns_read (g : World → Except Error α) : StepRuns (Exec.lift (Action.read g)) :=
  stepRuns_lift (runs_read g)

theorem stepRuns_pushSlot (v : Value) : StepRuns (pushSlot v) := stepRuns_modifyFrame _

theorem stepRuns_push (v : Value) (ty : Ty) : StepRuns (push v ty) := by
  unfold push
  split
  · exact stepRuns_pure _
  · exact stepRuns_pushSlot _
  · exact stepRuns_bind (stepRuns_pushSlot _) fun _ => stepRuns_pushSlot _

theorem stepRuns_popSlot : StepRuns popSlot := by
  refine stepRuns_bind stepRuns_get fun s => ?_
  split
  · exact stepRuns_bind (stepRuns_modifyFrame _) fun _ => stepRuns_pure _
  · exact stepRuns_fail _

theorem stepRuns_pop (ty : Ty) : StepRuns (pop ty) := by
  unfold pop
  split
  · exact stepRuns_pure _
  · exact stepRuns_popSlot
  · exact stepRuns_bind stepRuns_popSlot fun _ => stepRuns_popSlot

theorem stepRuns_popAll (above : List Value) (types : List Ty) : StepRuns (popAll above types) := by
  induction types generalizing above with
  | nil => exact stepRuns_pure _
  | cons ty rest ih => exact stepRuns_bind (stepRuns_pop ty) fun v => ih (v :: above)

theorem stepRuns_popMany (types : List Ty) : StepRuns (popMany types) := stepRuns_popAll _ _

theorem stepRuns_popSlots (n : Nat) : StepRuns (popSlots n) := by
  refine stepRuns_bind stepRuns_get fun s => ?_
  dsimp only
  split
  · exact stepRuns_fail _
  · exact stepRuns_bind (stepRuns_modifyFrame _) fun _ => stepRuns_pure _

theorem stepRuns_failCast (hcall : ∀ q, Runs (call q)) (v : Value) (expected : String) :
    StepRuns (failCast call v expected : Exec α) :=
  stepRuns_bind (stepRuns_lift (runs_castError hcall v expected)) fun _ => stepRuns_fail _

theorem stepRuns_unbox (hcall : ∀ q, Runs (call q)) (v : Value) (p : Prim) :
    StepRuns (unbox call v p) := by
  unfold unbox
  split
  all_goals first
    | exact stepRuns_pure _
    | exact stepRuns_failCast hcall _ _

theorem stepRuns_checkClass (hcall : ∀ q, Runs (call q)) (v : Value) (cls : String) :
    StepRuns (checkClass call v cls) := by
  refine stepRuns_bind (stepRuns_bind stepRuns_get fun _ => stepRuns_pure _) fun r => ?_
  split
  · exact stepRuns_pure _
  · exact stepRuns_failCast hcall _ _

theorem stepRuns_conform (hcall : ∀ q, Runs (call q)) (v : Value) (ty : Ty) :
    StepRuns (conform call v ty) := by
  unfold conform
  split
  · exact stepRuns_unbox hcall _ _
  · exact stepRuns_bind (stepRuns_checkClass hcall _ _) fun _ => stepRuns_pure _
  · exact stepRuns_pure _

theorem stepRuns_findVar (space name : String) : StepRuns (findVar space name) := by
  refine stepRuns_bind stepRuns_get fun s => ?_
  split
  · exact stepRuns_pure _
  · exact stepRuns_fail _

theorem stepRuns_popKey : StepRuns popKey := by
  refine stepRuns_bind (stepRuns_pop _) fun v => ?_
  split
  · exact stepRuns_pure _
  · exact stepRuns_bind stepRuns_get fun _ => stepRuns_fail _

theorem stepRuns_popObject (hcall : ∀ q, Runs (call q)) : StepRuns (popObject call) := by
  refine stepRuns_bind stepRuns_popSlot fun v => ?_
  split
  · exact stepRuns_pure _
  · exact stepRuns_failCast hcall _ _

/-- Two steps, the second of which leaves the world alone. -/
theorem StepRuns.next {m : Exec α} {step : β} (h : StepRuns m) : StepRuns (do let _ ← m; return step) :=
  stepRuns_bind h fun _ => stepRuns_pure _

theorem stepRuns_importing (name : String) {k : Exec β} (hk : StepRuns k) :
    StepRuns (do
      let w ← Exec.lift (Action.read fun w => w.importClass name)
      modify fun s => { s with world := w }
      k) := by
  intro s
  cases himport : s.world.importClass name with
  | ok w =>
    have hread : Exec.lift (Action.read fun w => w.importClass name) s = .ok w s :=
      Exec.lift_of_ok (Action.read_of_ok himport)
    rw [State.bind_of_ok hread, State.bind_of_ok (State.modify_eq _ s)]
    exact ReflTransGen.head (.importClass name himport) (hk { s with world := w })
  | error e =>
    have hread : Exec.lift (Action.read fun w => w.importClass name) s = .error (.error e) s :=
      Exec.lift_of_error (Action.read_of_error himport)
    rw [State.bind_of_error hread]

/-- Interning a name and binding its var. -/
theorem stepRuns_defining (space name : String) (value : Option Value) (flags : VarFlags)
    {k : VarRef → Exec β} (hk : ∀ v, StepRuns (k v)) :
    StepRuns (do
      let v ← Exec.lift (Action.change fun w => (w.ensureSpace space).intern space name)
      Exec.lift (modify fun w => w.define v value flags)
      k v) := by
  refine stepRuns_bind (stepRuns_lift (runs_change fun _ => .intern space name)) fun v => ?_
  exact stepRuns_bind (stepRuns_lift (runs_modify fun _ => .define v value flags)) fun _ => hk v

theorem stepRuns_step [Libraries] (hcall : ∀ q, Runs (call q)) (body : Body) (i : Instruction) :
    StepRuns (step call body i) := by
  cases i with
  | nop => exact stepRuns_pure _
  | const c => exact stepRuns_bind (stepRuns_read _) fun v => (stepRuns_push v _).next
  | load slot ty => exact stepRuns_bind stepRuns_get fun s => (stepRuns_push _ ty).next
  | store slot ty => exact stepRuns_bind (stepRuns_pop ty) fun v => (stepRuns_modifyFrame _).next
  | getField owner name ty =>
    refine stepRuns_bind (stepRuns_popObject hcall) fun o => ?_
    exact stepRuns_bind (stepRuns_read _) fun v => (stepRuns_push v ty).next
  | putField owner name ty =>
    refine stepRuns_bind (stepRuns_pop ty) fun v => ?_
    refine stepRuns_bind (stepRuns_popObject hcall) fun o => ?_
    exact (stepRuns_lift (runs_setField o name v)).next
  | getStatic owner name ty => exact stepRuns_bind (stepRuns_read _) fun v => (stepRuns_push v ty).next
  | varRef space name =>
    exact stepRuns_bind (stepRuns_findVar space name) fun v => (stepRuns_pushSlot _).next
  | defVar space name flags init =>
    cases init with
    | true =>
      refine stepRuns_bind (stepRuns_bind stepRuns_popSlot fun _ => stepRuns_pure _) fun value => ?_
      exact stepRuns_defining space name value flags fun v => (stepRuns_pushSlot _).next
    | false => exact stepRuns_defining space name none flags fun v => (stepRuns_pushSlot _).next
  | setVar space name =>
    refine stepRuns_bind stepRuns_popSlot fun value => ?_
    refine stepRuns_bind (stepRuns_findVar space name) fun v => ?_
    refine stepRuns_bind (stepRuns_lift (runs_modify fun _ => .bind v value)) fun _ => ?_
    exact (stepRuns_pushSlot value).next
  | invokeDynamic index =>
    unfold step
    dsimp only
    split
    · exact stepRuns_fail _
    · refine stepRuns_bind (stepRuns_popMany _) fun args => ?_
      refine stepRuns_bind (stepRuns_lift (runs_callSite hcall _ _ _ _)) fun result => ?_
      exact stepRuns_bind (stepRuns_conform hcall _ _) fun v => (stepRuns_push v _).next
  | invokeSuper owner params =>
    refine stepRuns_bind (stepRuns_popMany params) fun args => ?_
    refine stepRuns_bind stepRuns_popSlot fun receiver => ?_
    exact (stepRuns_lift (runs_superConstructor hcall _ _ _ _)).next
  | newInstance cls params =>
    refine stepRuns_bind (stepRuns_popMany params) fun args => ?_
    exact stepRuns_bind (stepRuns_lift (runs_newInstance hcall _ _ _)) fun v =>
      (stepRuns_pushSlot v).next
  | box p => exact stepRuns_bind (stepRuns_pop _) fun v => (stepRuns_pushSlot v).next
  | unbox p =>
    refine stepRuns_bind stepRuns_popSlot fun v => ?_
    exact stepRuns_bind (stepRuns_unbox hcall v p) fun v' => (stepRuns_push v' _).next
  | convert source target => exact stepRuns_bind (stepRuns_pop _) fun v => (stepRuns_push _ _).next
  | checkCast cls =>
    refine stepRuns_bind stepRuns_popSlot fun v => ?_
    exact stepRuns_bind (stepRuns_checkClass hcall v cls) fun _ => (stepRuns_pushSlot v).next
  | truthy => exact stepRuns_bind stepRuns_popSlot fun v => (stepRuns_pushSlot _).next
  | hashCode => exact stepRuns_bind stepRuns_popSlot fun v => (stepRuns_push _ _).next
  | equiv =>
    refine stepRuns_bind stepRuns_popSlot fun b => ?_
    exact stepRuns_bind stepRuns_popSlot fun a => (stepRuns_pushSlot _).next
  | instanceOf cls =>
    refine stepRuns_bind stepRuns_popSlot fun v => ?_
    exact stepRuns_bind (stepRuns_bind stepRuns_get fun _ => stepRuns_pure _) fun r =>
      (stepRuns_pushSlot _).next
  | ifFalse label =>
    refine stepRuns_bind stepRuns_popSlot fun v => ?_
    split
    · exact stepRuns_pure _
    · exact stepRuns_pure _
    · exact stepRuns_bind stepRuns_get fun _ => stepRuns_fail _
  | goto label => exact stepRuns_pure _
  | lookupSwitch keys targets default => exact stepRuns_bind stepRuns_popKey fun _ => stepRuns_pure _
  | tableSwitch low targets default => exact stepRuns_bind stepRuns_popKey fun _ => stepRuns_pure _
  | makeCollection kind count =>
    refine stepRuns_bind (stepRuns_popSlots _) fun items => ?_
    exact stepRuns_bind (stepRuns_ofExcept _) fun v => (stepRuns_pushSlot v).next
  | buildSpliced kind splices =>
    refine stepRuns_bind (stepRuns_popSlots _) fun parts => ?_
    refine stepRuns_bind (stepRuns_ofExcept _) fun items => ?_
    exact stepRuns_bind (stepRuns_ofExcept _) fun v => (stepRuns_pushSlot v).next
  | switchSpace name =>
    refine stepRuns_bind (stepRuns_lift (runs_modify fun _ => .enter name)) fun _ => ?_
    exact (stepRuns_pushSlot _).next
  | importClass name => exact stepRuns_importing name (stepRuns_pushSlot _).next
  | pop => exact stepRuns_popSlot.next
  | pop2 => exact (stepRuns_popSlots 2).next
  | dup =>
    refine stepRuns_bind stepRuns_get fun s => ?_
    split
    · exact (stepRuns_pushSlot _).next
    · exact stepRuns_fail _
  | throwTop =>
    refine stepRuns_bind stepRuns_popSlot fun v => ?_
    split
    · exact stepRuns_fail _
    · exact stepRuns_fail _
  | ret ty => exact stepRuns_bind (stepRuns_pop ty) fun _ => stepRuns_pure _

end Instructions

/-! ### Methods and requests -/

section Requests

variable {call : Caller}

theorem runs_unwind (hcall : ∀ q, Runs (call q)) (body : Body) (e : Error) (f : Frame) :
    Runs (unwind call body e f) := by
  unfold unwind
  split
  · exact runs_fail _
  · refine runs_bind (runs_exceptionOf hcall e) fun exception => ?_
    refine runs_bind runs_get fun w => ?_
    split
    · exact runs_pure _
    · exact runs_fail _

theorem runs_runFrame [Libraries] (hcall : ∀ q, Runs (call q)) (body : Body) (fuel : Nat) (f : Frame) :
    Runs (runFrame call body fuel f) := by
  induction fuel generalizing f with
  | zero => exact fun _ => .refl
  | succ fuel ih =>
    intro w
    unfold runFrame
    split
    · exact .refl
    · rename_i i _
      have hstep := stepRuns_step hcall body i { frame := f, world := w }
      split
      · rename_i s' hresult
        rw [hresult] at hstep
        exact hstep.trans (ih _ _)
      · rename_i v s' hresult
        rw [hresult] at hstep
        exact hstep
      · rename_i l s' hresult
        rw [hresult] at hstep
        split
        · exact hstep.trans (ih _ _)
        · exact hstep
      · rename_i s' hresult
        rw [hresult] at hstep
        exact hstep
      · rename_i e s' hresult
        rw [hresult] at hstep
        have hunwind := runs_unwind hcall body e s'.frame s'.world
        split
        · rename_i f' w' hunwound
          rw [hunwound] at hunwind
          exact (hstep.trans hunwind).trans (ih _ _)
        · rename_i e' w' hunwound
          rw [hunwound] at hunwind
          exact hstep.trans hunwind

theorem runs_keep (this : Option Value) (field : String) (v : Value) : Runs (keep this field v) := by
  refine runs_bind (runs_ofExcept _) fun receiver => ?_
  split
  · exact runs_bind (runs_setField _ _ _) fun _ => runs_pure _
  · exact runs_fail _

theorem runs_runMethod [Libraries] (hcall : ∀ q, Runs (call q)) (fuel : Nat) (cls : ClassInfo) (m : Method)
    (receiver : Option Value) (args : List Value) : Runs (runMethod call fuel cls m receiver args) := by
  have hexecute : ∀ index values, Runs (execute call fuel cls index values) := by
    intro index values
    unfold execute
    split
    · exact runs_fail _
    · split
      · exact runs_fail _
      · split
        · exact runs_fail _
        · exact runs_runFrame hcall _ _ _
  unfold runMethod
  split
  · unfold runHostMethod
    split
    · exact runs_keep _ _ _
    · exact runs_keep _ _ _
    · exact runs_read _
  · exact runs_fail _
  · split
    · exact hexecute _ _
    · split
      · exact hexecute _ _
      · exact runs_fail _

theorem runs_applyValue (hcall : ∀ q, Runs (call q)) (callee : Value) (args : List Value) :
    Runs (applyValue call callee args) := by
  unfold applyValue
  split
  · exact runs_callFunction hcall _ _
  · refine runs_bind runs_get fun w => ?_
    split
    · exact runs_bind (runs_ofExcept _) fun m => hcall _
    · exact runs_fail _
  · exact runs_read _
  · exact runs_ofExcept _
  · exact runs_ofExcept _
  · exact runs_ofExcept _
  · exact runs_bind (runs_read _) fun value => hcall _
  · exact runs_fail _

end Requests

/-- Whatever the machine is asked for, it changes the world step by step in the ways of `Change`. -/
theorem call_course [Libraries] (fuel : Nat) (q : Request) : Runs (call fuel q) := by
  induction fuel generalizing q with
  | zero => exact runs_throw _
  | succ fuel ih =>
    cases q with
    | apply callee args => exact runs_applyValue ih callee args
    | invoke cls m receiver args => exact runs_runMethod ih fuel cls m receiver args

end LispMachine.Machine
