import LispMachine.Libraries.Standard
import LispMachine.Machine.Call
import LispMachine.Proofs.Machine.Rebinding
import LispMachine.Proofs.Registry.Subclassing

/-! # Conversions are sound

The instructions that turn a value of one static type into one of another do so on the machine, for any value of the
first type: they leave a value of the second in exactly its slots and nothing else changes, or they fail as a cast
does (`coerce_sound`).  A failed cast throws an object of the class that is registered for it, if one can be made
from a message. -/

namespace LispMachine.Machine

/-! ### Values on the stack -/

/-- The slots hold a value of the type; no value takes no slots. -/
structure Holds (r : Registry) (ty : Ty) (slots : List Value) : Prop where
  length : slots.length = ty.width
  value : ty ≠ .void → Conforms r (valueOf ty slots) ty

section Holds

variable {r : Registry} {ty : Ty} {v : Value} {slots : List Value}

theorem holds_void (r : Registry) : Holds r .void [] := ⟨rfl, fun h => absurd rfl h⟩

theorem holds_slotsOf (hty : ty ≠ .void) (h : Conforms r v ty) : Holds r ty (slotsOf v ty) where
  length := length_slotsOf v ty
  value _ := by rwa [valueOf_slotsOf (width_ne_zero hty)]

theorem holds_one (hwidth : ty.width = 1) (h : Conforms r v ty) : Holds r ty [v] where
  length := hwidth.symm
  value _ := by simpa only [valueOf, hwidth, List.headD_cons] using h

theorem holds_any (r : Registry) (v : Value) : Holds r .any [v] := holds_one rfl trivial

theorem Holds.one (h : Holds r ty slots) (hwidth : ty.width = 1) : ∃ v, slots = [v] ∧ Conforms r v ty := by
  obtain ⟨v, rfl⟩ := List.length_eq_one_iff.1 (h.length.trans hwidth)
  have hvalue := h.value (by rintro rfl; cases hwidth)
  simp only [valueOf, hwidth, List.headD_cons] at hvalue
  exact ⟨v, rfl, hvalue⟩

end Holds

theorem conforms_convert_long {r : Registry} {v : Value} (h : Conforms r v .double) :
    Conforms r (convert .long v) .long := by
  obtain ⟨x, rfl⟩ := h
  exact ⟨_, rfl⟩

theorem conforms_convert_double {r : Registry} {v : Value} (h : Conforms r v .long) :
    Conforms r (convert .double v) .double := by
  obtain ⟨n, rfl⟩ := h
  exact ⟨_, rfl⟩

theorem conforms_boxed {r : Registry} {v : Value} {p : Prim} {name : String} (h : Conforms r v (.prim p))
    (hsub : r.isSubclass p.wrapper name = true) : Conforms r v (.cls name) := by
  refine .inr ?_
  rw [Registry.instanceOf, h.className?]
  exact hsub

theorem conforms_absent (r : Registry) (p : Prim) : Conforms r (absent p) (.prim p) := by
  cases p <;> exact ⟨_, rfl⟩

/-! ### Failed casts -/

/-- How a cast fails: it throws a new object of the class for failed casts, or making that object fails. -/
inductive CastFailure (call : Caller) (v : Value) (target : Ty) (w : World) : Fault → World → Prop
  | thrown {c : ClassInfo} {o : ObjectRef} {w' : World} (hclass : w.registry.find? Names.classCast = some c)
      (hname : o.className = c.name)
      (hmade : makeException call Names.classCast (v.classText ++ " cannot be cast to " ++ target.toText) w
        = .ok (.object o) w') : CastFailure call v target w (.error (Error.thrown (.object o))) w'
  | unmade {fault : Fault} {w' : World}
      (hmade : makeException call Names.classCast (v.classText ++ " cannot be cast to " ++ target.toText) w
        = .error fault w') : CastFailure call v target w fault w'

section Casts

variable {call : Caller} {body : Body} {s : Running} {v : Value} {w w' : World}

/-- A new object is one of a class that has instances, and a constructor of the class has run on it. -/
theorem newInstance_ok {cls : String} {params : List Ty} {args : List Value}
    (h : newInstance call cls params args w = .ok v w') :
    ∃ c k a, w.registry.find? cls = some c ∧ c.flags.isAbstract = false ∧
      c.constructors.find? (fun k => k.params == params) = some k ∧ v = .object (w.allocate c).1 ∧
      call (.invoke c k (some (.object (w.allocate c).1)) args) (w.allocate c).2 = .ok a w' := by
  rw [newInstance, State.bind_of_ok (State.get_eq w)] at h
  cases hc : w.registry.find? cls with
  | none =>
    rw [hc] at h
    cases h
  | some c =>
    rw [hc] at h
    dsimp only at h
    split at h
    · cases h
    rename_i hconcrete
    cases hk : c.constructors.find? fun k => k.params == params with
    | none =>
      rw [hk] at h
      cases h
    | some k =>
      rw [hk] at h
      obtain ⟨o, w₁, ho, h⟩ := State.ok_of_bind h
      cases ho
      obtain ⟨a, w₂, hcall, h⟩ := State.ok_of_bind h
      cases h
      exact ⟨c, k, a, rfl, eq_false_of_ne_true hconcrete, hk, rfl, hcall⟩

theorem failCast_fails {α : Type} (call : Caller) (v : Value) (target : Ty) (s : Running) :
    ∃ fault t, (failCast call v target.toText : Exec α) s = .error fault t ∧
      CastFailure call v target s.world fault t.world := by
  cases hmade : makeException call Names.classCast (v.classText ++ " cannot be cast to " ++ target.toText) s.world with
  | ok exception w =>
    obtain ⟨c, _, _, hc, -, -, rfl, -⟩ := newInstance_ok hmade
    have hlift : Exec.lift (castError call v target.toText) s
        = .ok (Error.thrown (.object (s.world.allocate c).1)) { s with world := w } :=
      Exec.lift_of_ok (by simp only [castError, hmade])
    exact ⟨_, _, by rw [failCast, State.bind_of_ok hlift, Exec.fail_eq], .thrown hc rfl hmade⟩
  | error fault w =>
    cases fault with
    | error e =>
      have hlift : Exec.lift (castError call v target.toText) s = .ok e { s with world := w } :=
        Exec.lift_of_ok (by simp only [castError, hmade])
      exact ⟨_, _, by rw [failCast, State.bind_of_ok hlift, Exec.fail_eq], .unmade hmade⟩
    | outOfFuel =>
      have hlift : Exec.lift (castError call v target.toText) s = .error .outOfFuel { s with world := w } :=
        Exec.lift_of_error (by simp only [castError, hmade])
      exact ⟨_, _, by rw [failCast, State.bind_of_error hlift], .unmade hmade⟩

/-- Unboxing gives a value of the primitive type, or the cast fails. -/
theorem unbox_cases (call : Caller) (v : Value) (p : Prim) (s : Running) :
    (∃ v', unbox call v p s = .ok v' s ∧ Conforms s.world.registry v' (.prim p)) ∨
      unbox call v p s = failCast call v (Ty.prim p).toText s := by
  unfold unbox
  split
  · exact .inl ⟨_, rfl, _, rfl⟩
  · exact .inl ⟨_, rfl, _, rfl⟩
  · exact .inl ⟨_, rfl, _, rfl⟩
  · exact .inl ⟨_, rfl, _, rfl⟩
  · exact .inl ⟨_, rfl, _, rfl⟩
  · exact .inr rfl

/-- A class check lets values of the class pass, or the cast fails. -/
theorem checkClass_cases (call : Caller) (v : Value) (name : String) (s : Running) :
    (checkClass call v name s = .ok () s ∧ Conforms s.world.registry v (.cls name)) ∨
      checkClass call v name s = failCast call v (Ty.cls name).toText s := by
  have hregistry : Exec.registry s = .ok s.world.registry s := rfl
  rw [checkClass, State.bind_of_ok hregistry]
  split
  · rename_i hpasses
    refine .inl ⟨rfl, ?_⟩
    rcases Bool.or_eq_true_iff.1 hpasses with hnil | hinstance
    · cases v <;> first | exact .inl rfl | cases hnil
    · exact .inr hinstance
  · exact .inr rfl

end Casts

/-! ### Conversions -/

/-- One of the instructions fails, after those in front of it went well. -/
def BreaksOff [Libraries] (call : Caller) (body : Body) : List Instruction → Running → Fault → World → Prop
  | [], _, _, _ => False
  | i :: rest, s, fault, w =>
    (∃ u, step call body i s = .error fault u ∧ u.world = w) ∨
      ∃ u, step call body i s = .ok .next u ∧ BreaksOff call body rest u.next fault w

/-- The instructions leave a value of the type on top of the rest of the stack and change nothing else. -/
def Delivers [Libraries] (call : Caller) (body : Body) (code : List Instruction) (s : Running) (rest : List Value)
    (ty : Ty) : Prop :=
  ∃ slots, Holds s.world.registry ty slots ∧ Performs call body code s (s.after code.length (slots ++ rest))

/-- The instructions deliver a value of the type, or they fail as a cast of the value to it does. -/
def DeliversOrFails [Libraries] (call : Caller) (body : Body) (code : List Instruction) (s : Running) (v : Value)
    (rest : List Value) (ty : Ty) : Prop :=
  Delivers call body code s rest ty ∨
    ∃ fault w, BreaksOff call body code s fault w ∧ CastFailure call v ty s.world fault w

section Conversions

variable {call : Caller} {body : Body} {s : Running} {r : Registry} {source target : Ty} {code : List Instruction}
  {slots rest : List Value} {v : Value}

theorem delivers_same [Libraries] (h : Holds s.world.registry target slots) (hstack : s.frame.stack = slots ++ rest) :
    Delivers call body [] s rest target := by
  refine ⟨slots, h, ?_⟩
  rw [← hstack]
  exact Running.after_zero s

theorem delivers_const [Libraries] {c : Constant} (hv : constantValue s.world c = .ok v) (hstack : s.frame.stack = rest)
    (h : Holds s.world.registry target (slotsOf v c.ty)) : Delivers call body [.const c] s rest target := by
  have hread : Exec.lift (Action.read fun w => constantValue w c) s = .ok v s := Exec.lift_of_ok (Action.read_of_ok hv)
  refine ⟨_, h, performs_single.2 ⟨s.pushed (slotsOf v c.ty), ?_, ?_⟩⟩
  · rw [step, State.bind_of_ok hread, State.bind_of_ok (push_eq s v c.ty)]
    rfl
  · rw [Running.pushed, hstack]
    rfl

theorem delivers_discard [Libraries] (hlength : slots.length = source.width) (hstack : s.frame.stack = slots ++ rest) :
    Delivers call body (Coercion.discard source) s rest .void := by
  refine ⟨[], holds_void _, ?_⟩
  rw [List.nil_append]
  rcases width_cases source with hw | hw | hw <;> rw [hw] at hlength <;> simp only [Coercion.discard, hw]
  · obtain rfl := List.length_eq_zero_iff.1 hlength
    rw [List.nil_append] at hstack
    rw [← hstack]
    exact Running.after_zero s
  · obtain ⟨v, rfl⟩ := List.length_eq_one_iff.1 hlength
    refine performs_single.2 ⟨s.withStack rest, ?_, rfl⟩
    rw [step, State.bind_of_ok (popSlot_cons s hstack)]
    rfl
  · refine performs_single.2 ⟨s.withStack rest, ?_, rfl⟩
    rw [step, State.bind_of_ok (popSlots_eq s 2 (by rw [hstack, List.length_append]; omega)), Running.drop, hstack,
      List.drop_left' hlength]
    rfl

theorem step_box_of_pop [Libraries] {p : Prim} (hpop : pop (.prim p) s = .ok v (s.withStack rest)) :
    step call body (.box p) s = .ok .next (s.withStack (v :: rest)) := by
  rw [step, State.bind_of_ok hpop]
  rfl

theorem step_convert_of_pop [Libraries] {p q : Prim} (hpop : pop (.prim p) s = .ok v (s.withStack rest)) :
    step call body (.convert p q) s = .ok .next (s.withStack (slotsOf (convert q v) (.prim q) ++ rest)) := by
  rw [step, State.bind_of_ok hpop, State.bind_of_ok (push_eq _ _ _)]
  rfl

theorem delivers_box [Libraries] {p : Prim} (hlength : slots.length = (Ty.prim p).width)
    (hstack : s.frame.stack = slots ++ rest)
    (htarget : target.width = 1) (hv : Conforms s.world.registry (valueOf (.prim p) slots) target) :
    Delivers call body [.box p] s rest target :=
  ⟨_, holds_one htarget hv, performs_single.2 ⟨_, step_box_of_pop (pop_valueOf hlength hstack), rfl⟩⟩

theorem delivers_betweenPrims [Libraries] {p q : Prim} (hcode : Coercion.betweenPrims p q = .ok code)
    (h : Holds s.world.registry (.prim p) slots) (hstack : s.frame.stack = slots ++ rest) :
    Delivers call body code s rest (.prim q) := by
  have hv := h.value Ty.noConfusion
  have hstep : step call body (.convert p q) s = _ := step_convert_of_pop (pop_valueOf h.length hstack)
  unfold Coercion.betweenPrims at hcode
  split at hcode <;> cases hcode
  · exact ⟨_, holds_slotsOf Ty.noConfusion (conforms_convert_double hv), performs_single.2 ⟨_, hstep, rfl⟩⟩
  · exact ⟨_, holds_slotsOf Ty.noConfusion (conforms_convert_long hv), performs_single.2 ⟨_, hstep, rfl⟩⟩

theorem delivers_boxAs [Libraries] {p : Prim} {name : String}
    (hcode : Coercion.boxAs s.world.registry p name = .ok code)
    (h : Holds s.world.registry (.prim p) slots) (hstack : s.frame.stack = slots ++ rest) :
    Delivers call body code s rest (.cls name) := by
  have hv := h.value Ty.noConfusion
  unfold Coercion.boxAs at hcode
  split at hcode
  · rename_i hassign
    cases hcode
    rw [Ty.isAssignable_cls] at hassign
    exact delivers_box h.length hstack rfl (conforms_boxed hv hassign)
  split at hcode
  · rename_i hdouble
    obtain ⟨rfl, rfl⟩ := hdouble
    cases hcode
    have hconverted := conforms_convert_double hv
    refine ⟨_, holds_one rfl (conforms_boxed hconverted (Registry.isSubclass_self _ _)),
      _, step_convert_of_pop (pop_valueOf h.length hstack), performs_single.2 ⟨_, step_box rfl, ?_⟩⟩
    rfl
  · cases hcode

theorem unbox_delivers [Libraries] (q : Prim) (hstack : s.frame.stack = v :: rest) :
    DeliversOrFails call body [.unbox q] s v rest (.prim q) := by
  rcases unbox_cases call v q (s.withStack rest) with ⟨v', hunbox, hv⟩ | hfail
  · refine .inl ⟨_, holds_slotsOf Ty.noConfusion hv,
      performs_single.2 ⟨s.withStack (slotsOf v' (.prim q) ++ rest), ?_, rfl⟩⟩
    rw [step, State.bind_of_ok (popSlot_cons s hstack), State.bind_of_ok hunbox, State.bind_of_ok (push_eq _ _ _)]
    rfl
  · obtain ⟨fault, t, ht, hfailure⟩ := failCast_fails (α := Value) call v (.prim q) (s.withStack rest)
    refine .inr ⟨fault, t.world, .inl ⟨t, ?_, rfl⟩, hfailure⟩
    rw [step, State.bind_of_ok (popSlot_cons s hstack), State.bind_of_error (hfail.trans ht)]

theorem checkCast_delivers [Libraries] (name : String) (hstack : s.frame.stack = v :: rest) :
    DeliversOrFails call body [.checkCast name] s v rest (.cls name) := by
  rcases checkClass_cases call v name (s.withStack rest) with ⟨hcheck, hv⟩ | hfail
  · refine .inl ⟨_, holds_one rfl hv, performs_single.2 ⟨s.withStack (v :: rest), ?_, rfl⟩⟩
    rw [step, State.bind_of_ok (popSlot_cons s hstack), State.bind_of_ok hcheck, State.bind_of_ok (pushSlot_eq _ _)]
    rfl
  · obtain ⟨fault, t, ht, hfailure⟩ := failCast_fails (α := Unit) call v (.cls name) (s.withStack rest)
    refine .inr ⟨fault, t.world, .inl ⟨t, ?_, rfl⟩, hfailure⟩
    rw [step, State.bind_of_ok (popSlot_cons s hstack), State.bind_of_error (hfail.trans ht)]

theorem castTo_delivers [Libraries] {name : String} (hr : s.world.registry.Rooted)
    (hcode : Coercion.castTo s.world.registry source name = .ok code) (hv : Conforms s.world.registry v source)
    (hstack : s.frame.stack = v :: rest) : DeliversOrFails call body code s v rest (.cls name) := by
  unfold Coercion.castTo at hcode
  split at hcode
  · rename_i hassign
    cases hcode
    exact .inl (delivers_same (holds_one rfl (hv.assign hr hassign)) hstack)
  split at hcode
  · cases hcode
    exact checkCast_delivers name hstack
  · cases hcode

/-- Where nothing is above the root class, a conversion turns any value of the first type into one of the second, in
exactly its slots, with the rest of the stack, the locals and the world as they were; or the cast of the value fails. -/
theorem coerce_sound [Libraries] (hr : s.world.registry.Rooted)
    (hcode : Coercion.coerce s.world.registry source target = .ok code) (h : Holds s.world.registry source slots)
    (hstack : s.frame.stack = slots ++ rest) :
    DeliversOrFails call body code s (valueOf source slots) rest target := by
  by_cases heq : source = target
  · subst heq
    simp only [Coercion.coerce, if_true] at hcode
    cases hcode
    exact .inl (delivers_same h hstack)
  unfold Coercion.coerce at hcode
  rw [if_neg heq] at hcode
  cases target with
  | void =>
    obtain rfl : Coercion.discard source = code := by cases source <;> exact Except.ok.inj hcode
    exact .inl (delivers_discard h.length hstack)
  | any =>
    cases source with
    | any => exact absurd rfl heq
    | void =>
      cases hcode
      obtain rfl := List.length_eq_zero_iff.1 h.length
      exact .inl (delivers_const rfl hstack (holds_any _ _))
    | prim p =>
      cases hcode
      exact .inl (delivers_box h.length hstack rfl trivial)
    | cls name =>
      cases hcode
      obtain ⟨v, rfl, -⟩ := h.one rfl
      exact .inl (delivers_same (holds_any _ _) hstack)
  | prim q =>
    cases source with
    | void =>
      cases hcode
      obtain rfl := List.length_eq_zero_iff.1 h.length
      refine .inl (delivers_const (constantValue_defaultOf _ q) hstack ?_)
      rw [ty_defaultOf]
      exact holds_slotsOf Ty.noConfusion (conforms_absent _ q)
    | prim p => exact .inl (delivers_betweenPrims hcode h hstack)
    | any =>
      cases hcode
      obtain ⟨v, rfl, -⟩ := h.one rfl
      exact unbox_delivers q hstack
    | cls name =>
      dsimp only at hcode
      split at hcode
      · cases hcode
        obtain ⟨v, rfl, -⟩ := h.one rfl
        exact unbox_delivers q hstack
      · cases hcode
  | cls name =>
    cases source with
    | void =>
      cases hcode
      obtain rfl := List.length_eq_zero_iff.1 h.length
      exact .inl (delivers_const rfl hstack (holds_one rfl (.inl rfl)))
    | prim p => exact .inl (delivers_boxAs hcode h hstack)
    | any =>
      obtain ⟨v, rfl, hv⟩ := h.one rfl
      exact castTo_delivers hr hcode hv hstack
    | cls sub =>
      obtain ⟨v, rfl, hv⟩ := h.one rfl
      exact castTo_delivers hr hcode hv hstack

end Conversions

/-! ### A text where a long is wanted -/

/-- A method without code. -/
def idle : Body := { code := {}, sites := [], firstSite := 0 }

/-- A text on the stack, between the built-in classes. -/
def textOnStack : Running where
  frame := { stack := [.str "a", .nil] }
  world := { registry := Host.registry }

/-- The text is unboxed as a long, or the cast fails. -/
theorem text_unboxed :
    DeliversOrFails (call 1) idle [.unbox .long] textOnStack (.str "a") [.nil] .long := by
  have hcode : Coercion.coerce Host.registry .any .long = .ok [.unbox .long] := rfl
  exact coerce_sound Host.registry_layered.rooted hcode (holds_any _ (.str "a")) rfl

/-- A class of the name for failed casts that cannot be made from a message. -/
def displaced : Registry :=
  Host.registry.reinstate Names.classCast (some (Host.named Names.classCast))

/-- A text on the stack, where failed casts have such a class. -/
def textDisplaced : Running := { textOnStack with world := { registry := displaced } }

/-- Without a constructor for its class, the exception of a failed cast is not thrown. -/
theorem displaced_cast_unmade :
    displaced.Rooted ∧ Coercion.coerce displaced .any .long = .ok [.unbox .long] ∧ Holds displaced .any [.str "a"] ∧
      ∃ e w, BreaksOff (call 1) idle [.unbox .long] textDisplaced (.error e) w ∧
        e.cause = .failure .linkage "no constructor lang.ClassCastException([Class(\"lang.String\")])" := by
  have hparents : (displaced.find? Names.object).map ClassInfo.parents = some [] := by decide +kernel
  refine ⟨fun c hc => ?_, rfl, holds_any _ _, _, _, .inl ⟨_, rfl, rfl⟩, ?_⟩
  · rw [hc] at hparents
    exact Option.some.inj hparents
  · exact congrArg (Cause.failure .linkage) (by decide +kernel)

end LispMachine.Machine
