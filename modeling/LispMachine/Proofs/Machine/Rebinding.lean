import Mathlib.Data.List.Forall2
import LispMachine.Proofs.Machine.Floors

/-! # Locals that are rebound at once

Code that goes back to the head of a loop leaves the new values of its locals on the stack, one on top of the other,
each converted to the type of its local, and then stores them, the last one first.  The arguments are computed from
left to right and no local is written meanwhile (`RecurLayout.Laid.run`); once all have been computed every local
gets its value, from the slots of the stack that the value was left in (`RecurLayout.Laid.rebinds`). -/

namespace LispMachine.Machine

/-! ### Values in their slots -/

/-- The value of a type that is read from its slots, the top first. -/
def valueOf (ty : Ty) (slots : List Value) : Value :=
  match ty.width with
  | 0 => .nil
  | 1 => slots.headD .nil
  | _ => slots.tail.headD .nil

section Values

variable {s : Running} {ty : Ty} {slots rest : List Value}

theorem valueOf_slotsOf (hty : ty.width ≠ 0) (v : Value) : valueOf ty (slotsOf v ty) = v := by
  rcases width_cases ty with hw | hw | hw
  · exact absurd hw hty
  · simp only [valueOf, slotsOf, hw, List.headD_cons]
  · simp only [valueOf, slotsOf, hw, List.tail_cons, List.headD_cons]

theorem pop_valueOf (hlength : slots.length = ty.width) (hstack : s.frame.stack = slots ++ rest) :
    pop ty s = .ok (valueOf ty slots) (s.withStack rest) := by
  rcases width_cases ty with hw | hw | hw <;> rw [hw] at hlength <;> simp only [pop, valueOf, hw]
  · obtain rfl := List.length_eq_zero_iff.mp hlength
    rw [List.nil_append] at hstack
    exact congrArg (EStateM.Result.ok Value.nil) (by rw [← hstack]; rfl)
  · obtain ⟨v, rfl⟩ := List.length_eq_one_iff.mp hlength
    exact popSlot_cons s hstack
  · obtain ⟨v, w, rfl⟩ := List.length_eq_two.mp hlength
    rw [State.bind_of_ok (popSlot_cons s hstack)]
    exact popSlot_cons _ rfl

end Values

/-! ### Conversions -/

/-- What a primitive type has for a value where there is none. -/
def absent : Prim → Value
  | .boolean => .bool false
  | .char => .char '\x00'
  | .long => .int 0
  | .double => .float ⟨0⟩

/-- What becomes of a value of one static type as one of another. -/
def converted (r : Registry) (source target : Ty) (v : Value) : Value :=
  if source = target then v
  else
    match source, target with
    | _, .void => .nil
    | .void, .prim p => absent p
    | .void, _ => .nil
    | .prim _, .prim q => convert q v
    | .prim p, .cls name =>
      if p = .long ∧ name = Names.double ∧ (Ty.cls name).isAssignable r (.cls p.wrapper) = false then
        convert .double v
      else v
    | .prim _, .any => v
    | _, .prim q => Overload.widen (.prim q) v
    | _, _ => v

/-- The instructions that make a value of one static type one of another: what is to be of any type is boxed. -/
def Converts (r : Registry) (source target : Ty) (code : List Instruction) : Prop :=
  if target = .any then code = Coercion.toBoxed source else Coercion.coerce r source target = .ok code

section Conversions

variable {call : Caller} {body : Body} {s t : Running} {r : Registry} {source target : Ty} {code : List Instruction}
  {slots rest : List Value} {v : Value}

/-- The instructions leave a value of the other type in place of what was on top. -/
def Leads (s t : Running) (rest : List Value) (code : List Instruction) (target : Ty) (v : Value) : Prop :=
  ∃ slots, slots.length = target.width ∧ valueOf target slots = v ∧ t = s.after code.length (slots ++ rest)

theorem leads_slotsOf (hty : target.width ≠ 0) (h : t = s.after code.length (slotsOf v target ++ rest)) :
    Leads s t rest code target v := ⟨_, length_slotsOf v target, valueOf_slotsOf hty v, h⟩

theorem leads_one (hty : target.width = 1) (h : t = s.after code.length (v :: rest)) :
    Leads s t rest code target v :=
  ⟨[v], hty.symm, by simp only [valueOf, hty, List.headD_cons], h⟩

theorem leads_same (hlength : slots.length = target.width) (hstack : s.frame.stack = slots ++ rest) :
    Leads s s rest [] target (valueOf target slots) :=
  ⟨slots, hlength, rfl, by rw [← hstack]; rfl⟩

theorem constantValue_defaultOf [Libraries] (w : World) (p : Prim) :
    constantValue w (Coercion.defaultOf p) = .ok (absent p) := by
  cases p <;> rfl

theorem ty_defaultOf (p : Prim) : (Coercion.defaultOf p).ty = .prim p := by
  cases p <;> rfl

/-- A constant in place of a value without slots. -/
theorem performs_absent [Libraries] {c : Constant} (hlength : slots.length = 0) (hstack : s.frame.stack = slots ++ rest)
    (hv : constantValue s.world c = .ok v) (h : Performs call body [.const c] s t) :
    t = s.after 1 (slotsOf v c.ty ++ rest) := by
  obtain rfl := List.length_eq_zero_iff.mp hlength
  obtain ⟨v', hv', rfl⟩ := performs_const h
  obtain rfl := Except.ok.inj (hv'.symm.trans hv)
  rw [hstack]
  rfl

theorem performs_toBoxed_leads [Libraries] (hlength : slots.length = source.width)
    (hstack : s.frame.stack = slots ++ rest)
    (h : Performs call body (Coercion.toBoxed source) s t) :
    Leads s t rest (Coercion.toBoxed source) .any (converted r source .any (valueOf source slots)) := by
  cases source with
  | void => exact leads_one rfl (performs_absent hlength hstack rfl h)
  | prim p => exact leads_one rfl (performs_box_of_pop (pop_valueOf hlength hstack) h)
  | any =>
    obtain rfl : t = s := h
    exact leads_same hlength hstack
  | cls name =>
    obtain rfl : t = s := h
    exact leads_same hlength hstack

theorem performs_betweenPrims_leads [Libraries] {p q : Prim} (hcode : Coercion.betweenPrims p q = .ok code)
    (hlength : slots.length = (Ty.prim p).width) (hstack : s.frame.stack = slots ++ rest)
    (h : Performs call body code s t) :
    Leads s t rest code (.prim q) (convert q (valueOf (.prim p) slots)) := by
  unfold Coercion.betweenPrims at hcode
  split at hcode <;> cases hcode
  · exact leads_slotsOf (width_prim .double) (performs_convert_of_pop (pop_valueOf hlength hstack) h)
  · exact leads_slotsOf (width_prim .long) (performs_convert_of_pop (pop_valueOf hlength hstack) h)

theorem performs_boxAs_leads [Libraries] {p : Prim} {name : String} (hcode : Coercion.boxAs r p name = .ok code)
    (hlength : slots.length = (Ty.prim p).width) (hstack : s.frame.stack = slots ++ rest)
    (h : Performs call body code s t) :
    Leads s t rest code (.cls name) (converted r (.prim p) (.cls name) (valueOf (.prim p) slots)) := by
  unfold Coercion.boxAs at hcode
  split at hcode
  · rename_i hassignable
    cases hcode
    have hsame : converted r (.prim p) (.cls name) (valueOf (.prim p) slots) = valueOf (.prim p) slots := by
      simp [converted, hassignable]
    rw [hsame]
    exact leads_one rfl (performs_box_of_pop (pop_valueOf hlength hstack) h)
  split at hcode
  · rename_i hassignable hdouble
    obtain ⟨rfl, rfl⟩ := hdouble
    cases hcode
    have hwidened : converted r (.prim .long) (.cls Names.double) (valueOf (.prim .long) slots)
        = convert .double (valueOf (.prim .long) slots) := by
      simp [converted, hassignable]
    obtain ⟨u, hu, ht⟩ := h
    rw [performs_convert_of_pop (pop_valueOf hlength hstack) ⟨u, hu, rfl⟩] at ht
    rw [hwidened]
    exact leads_one rfl ((performs_box rfl ht).trans (Running.after_after ..))
  · cases hcode

theorem performs_unbox_leads [Libraries] {q : Prim} {possible : Bool} {e : Error}
    (hcode : (if possible then .ok [.unbox q] else .error e : Except Error _) = .ok code)
    (hstack : s.frame.stack = v :: rest) (h : Performs call body code s t) :
    Leads s t rest code (.prim q) (Overload.widen (.prim q) v) := by
  split at hcode
  · cases hcode
    exact leads_slotsOf (width_prim q) (performs_unbox hstack h)
  · cases hcode

/-- The conversion between two static types makes of a value what it should be. -/
theorem Converts.leads [Libraries] (hcode : Converts r source target code) (hlength : slots.length = source.width)
    (hstack : s.frame.stack = slots ++ rest) (h : Performs call body code s t) :
    Leads s t rest code target (converted r source target (valueOf source slots)) := by
  unfold Converts at hcode
  split at hcode
  · rename_i hany
    rw [hcode] at h ⊢
    rw [hany]
    exact performs_toBoxed_leads hlength hstack h
  rename_i hany
  by_cases heq : source = target
  · subst heq
    simp only [Coercion.coerce, if_true] at hcode
    cases hcode
    obtain rfl : t = s := h
    simp only [converted, if_true]
    exact leads_same hlength hstack
  unfold Coercion.coerce at hcode
  rw [if_neg heq] at hcode
  cases target with
  | any => exact absurd rfl hany
  | void =>
    obtain rfl : Coercion.discard source = code := by cases source <;> exact Except.ok.inj hcode
    have hnil : converted r source .void (valueOf source slots) = .nil := by simp only [converted, if_neg heq]
    exact ⟨[], rfl, hnil.symm, performs_discard hlength hstack h⟩
  | prim q =>
    cases source with
    | void =>
      cases hcode
      have ht := performs_absent hlength hstack (constantValue_defaultOf _ q) h
      rw [ty_defaultOf] at ht
      exact leads_slotsOf (width_prim q) ht
    | prim p =>
      simp only [converted, if_neg heq]
      exact performs_betweenPrims_leads hcode hlength hstack h
    | any =>
      obtain ⟨v, rfl⟩ := List.length_eq_one_iff.mp hlength
      exact performs_unbox_leads hcode hstack h
    | cls name =>
      obtain ⟨v, rfl⟩ := List.length_eq_one_iff.mp hlength
      exact performs_unbox_leads hcode hstack h
  | cls name =>
    cases source with
    | void =>
      cases hcode
      exact leads_one rfl (performs_absent hlength hstack rfl h)
    | prim p => exact performs_boxAs_leads hcode hlength hstack h
    | any =>
      obtain ⟨v, rfl⟩ := List.length_eq_one_iff.mp hlength
      exact leads_one rfl (performs_castTo hcode hstack h)
    | cls name' =>
      obtain ⟨v, rfl⟩ := List.length_eq_one_iff.mp hlength
      simp only [converted, if_neg heq]
      exact leads_one rfl (performs_castTo hcode hstack h)

end Conversions

/-! ### Code that goes straight on -/

/-- An instruction that goes on to the next one, or fails, and writes no slot. -/
def Plain (i : Instruction) : Prop :=
  i.targets = [] ∧ (∀ slot ty, i ≠ .store slot ty) ∧ ∀ ty, i ≠ .ret ty

/-- Some instructions stand one behind the other from a position on. -/
def Placed (code : Code) (pc : Nat) (is : List Instruction) : Prop :=
  ∀ n i, is[n]? = some i → code.instructions[pc + n]? = some i

section Straight

variable {call : Caller} {body : Body} {i : Instruction} {is xs ys : List Instruction} {kept : List Nat}
  {own : List Handler} {first last first' last' pc : Nat} {path path' : List Nat} {s t u : Running}

theorem Placed.head {code : Code} (h : Placed code pc (i :: is)) : code.instructions[pc]? = some i := h 0 i rfl

theorem Placed.tail {code : Code} (h : Placed code pc (i :: is)) : Placed code (pc + 1) is := by
  intro n j hj
  rw [Nat.add_right_comm]
  exact h (n + 1) j hj

theorem Placed.left {code : Code} (h : Placed code pc (xs ++ ys)) : Placed code pc xs := by
  intro n j hj
  exact h n j (by rw [List.getElem?_append_left (List.getElem?_eq_some_iff.mp hj).1, hj])

theorem Placed.right {code : Code} (h : Placed code pc (xs ++ ys)) : Placed code (pc + xs.length) ys := by
  intro n j hj
  rw [Nat.add_assoc]
  exact h _ j (by rw [List.getElem?_append_right (Nat.le_add_right _ _), Nat.add_sub_cancel_left, hj])

/-- Code that goes straight on is left at its end only, or by an error. -/
theorem Placed.stretch {code : Code} (h : Placed code pc is) (hplain : ∀ i ∈ is, Plain i) (kept : List Nat) :
    Stretch code kept [] pc (pc + is.length) true := by
  refine ⟨⟨Nat.le_refl _, ?_⟩, fun q hfirst hlast => ?_, nofun⟩
  · cases is with
    | nil => exact .inr ⟨rfl, rfl⟩
    | cons i rest => exact .inl (by rw [List.length_cons]; omega)
  · obtain ⟨n, rfl⟩ := Nat.exists_eq_add_of_le hfirst
    have hn : n < is.length := by omega
    obtain ⟨htargets, hstore, hret⟩ := hplain _ (List.getElem_mem hn)
    refine ⟨is[n], h n _ (List.getElem?_eq_getElem hn), hret, fun slot _ => hstore slot, fun _ _ => rfl, ?_⟩
    rw [htargets]
    nofun

theorem GoesOn.of_plain [Libraries] (h : GoesOn call body s t) (hi : body.code.instructions[s.frame.pc]? = some i)
    (hplain : Plain i) : t.frame.pc = s.frame.pc + 1 ∧ Performs call body [i] s t := by
  cases h with
  | next hi' hs =>
    obtain rfl := Option.some.inj (hi.symm.trans hi')
    exact ⟨congrArg (· + 1) (step_ok hs).2.1, _, hs, rfl⟩
  | jump hi' hs hpc =>
    obtain rfl := Option.some.inj (hi.symm.trans hi')
    have hl : _ ∈ i.targets := (step_ok hs).1
    rw [hplain.1] at hl
    cases hl

/-- A run from one end of such code to the other performs it. -/
theorem Inside.performs [Libraries] (h : Inside call body [] first last s path t)
    (hcode : Placed body.code s.frame.pc is)
    (hplain : ∀ i ∈ is, Plain i) (hlast : s.frame.pc + is.length = last) (ht : t.frame.pc = last) :
    Performs call body is s t := by
  induction is generalizing s path with
  | nil =>
    cases h with
    | refl => rfl
    | goes hs _ _ => exact absurd hs.2 (by rw [← hlast]; exact Nat.lt_irrefl _)
    | handled _ _ _ hown _ => cases hown
  | cons i rest ih =>
    rw [List.length_cons] at hlast
    cases h with
    | refl => omega
    | handled _ _ _ hown _ => cases hown
    | goes _ hgoes hrest =>
      obtain ⟨hpc, hperforms⟩ := hgoes.of_plain hcode.head (hplain i List.mem_cons_self)
      rw [← List.singleton_append]
      refine performs_append.mpr ⟨_, hperforms, ih hrest ?_ (fun j hj => hplain j (List.mem_cons_of_mem _ hj)) ?_⟩
      · rw [hpc]
        exact hcode.tail
      · omega

theorem Inside.inStep [Libraries] (h : Inside call body [] first last s path t) : InStep body s t := by
  induction h with
  | refl s => exact .refl body s
  | goes _ hgoes _ ih => exact hgoes.inStep.trans ih
  | handled _ _ _ hown _ _ => cases hown

/-- What is performed where it stands is a run. -/
theorem Performs.travels [Libraries] (h : Performs call body is s t) (hcode : Placed body.code s.frame.pc is) :
    ∃ path, Travels call body s path t ∧ InStep body s t := by
  induction is generalizing s with
  | nil =>
    obtain rfl : t = s := h
    exact ⟨[], .refl _, .refl body _⟩
  | cons i rest ih =>
    obtain ⟨u, hs, hrest⟩ := h
    have hgoes : GoesOn call body s u.next := .next hcode.head hs
    have hpc : u.next.frame.pc = s.frame.pc + 1 := congrArg (· + 1) (step_ok hs).2.1
    obtain ⟨path, htravels, hstep⟩ := ih hrest (hpc ▸ hcode.tail)
    exact ⟨_, .move (.goes hgoes) htravels, hgoes.inStep.trans hstep⟩

theorem Stays.mono [Libraries] (h : Stays call body kept first last s path t) (hfirst : first' ≤ first)
    (hlast : last ≤ last') :
    Stays call body kept first' last' s path t where
  travels := h.travels
  within := fun pc hpc => by
    have hwithin := h.within pc hpc
    omega
  size := h.size
  kept := h.kept

theorem Stays.trans [Libraries] (h : Stays call body kept first last s path t)
    (h' : Stays call body kept first last t path' u) :
    Stays call body kept first last s (path ++ path') u where
  travels := h.travels.trans h'.travels
  within := fun pc hpc => (List.mem_append.mp hpc).elim (h.within pc) (h'.within pc)
  size := h'.size.trans h.size
  kept := fun slot hslot => (h'.kept slot hslot).trans (h.kept slot hslot)

end Straight

/-! ### Arguments -/

/-- A value for a local that is rebound: where its code starts and ends, if control gets there, the handlers in it, the
static type of the value, and the instructions that make of it one of the type of the local. -/
structure Argument where
  first : Nat
  done : Nat
  ends : Bool
  own : List Handler
  registry : Registry
  source : Ty
  code : List Instruction
  slot : Nat
  target : Ty

namespace Argument

/-- Where the value has been converted. -/
def close (a : Argument) : Nat := a.done + a.code.length

/-- The instruction that gives the local its value. -/
def store (a : Argument) : Instruction := .store a.slot a.target

/-- What the local is to hold for a value. -/
def rebound (a : Argument) (v : Value) : Value := converted a.registry a.source a.target v

/-- The code of an argument, met at a depth of the stack: it keeps to itself, takes nothing from the stack, and if it
gets to its end it has left one value, which is converted. -/
structure Laid (a : Argument) (body : Body) (kept : List Nat) (floor : Nat) : Prop where
  stretch : Stretch body.code kept a.own a.first a.done a.ends
  floored : ∃ D, Floored body a.own floor a.done D ∧ D a.first floor ∧ ∀ d, D a.done d → d = floor + a.source.width
  placed : Placed body.code a.done a.code
  plain : ∀ i ∈ a.code, Plain i
  converts : a.ends = true → Converts a.registry a.source a.target a.code

/-- An argument is computed: its code is run to its end, by itself and by its own handlers, and leaves a value on top
of what was there; the value is converted. -/
inductive Computes [Libraries] (call : Caller) (body : Body) (a : Argument) (s : Running) :
    List Nat → Value → Running → Prop where
  | intro {front back : List Nat} {u t : Running} {slots : List Value}
      (hvalue : Inside call body a.own a.first a.done s front u) (hdone : u.frame.pc = a.done)
      (hlength : slots.length = a.source.width) (hstack : u.frame.stack = slots ++ s.frame.stack)
      (hconverted : Inside call body [] a.done a.close u back t) (hclose : t.frame.pc = a.close) :
      Computes call body a s (front ++ back) (valueOf a.source slots) t

end Argument

/-- Arguments are computed one after the other. -/
inductive Computed [Libraries] (call : Caller) (body : Body) :
    List Argument → Running → List Nat → List Value → Running → Prop where
  | nil (s : Running) : Computed call body [] s [] [] s
  | cons {a : Argument} {rest : List Argument} {s t u : Running} {front back : List Nat} {v : Value} {vs : List Value}
      (h : a.Computes call body s front v t) (hrest : Computed call body rest t back vs u) :
      Computed call body (a :: rest) s (front ++ back) (v :: vs) u

/-- A run has come to one of some arguments; those before it have been computed. -/
inductive Reached [Libraries] (call : Caller) (body : Body) :
    List Argument → Running → List Nat → Argument → Running → Prop where
  | here {a : Argument} {rest : List Argument} {s t : Running} {path : List Nat} (h : Travels call body s path t)
      (ht : a.first ≤ t.frame.pc ∧ t.frame.pc < a.close) : Reached call body (a :: rest) s path a t
  | later {a a' : Argument} {rest : List Argument} {s t u : Running} {front back : List Nat} {v : Value}
      (h : a.Computes call body s front v t) (hrest : Reached call body rest t back a' u) :
      Reached call body (a :: rest) s (front ++ back) a' u

/-- What becomes of a run that starts to compute some arguments.  As long as it does, none of some slots is written. -/
inductive ArgumentsRun [Libraries] (call : Caller) (body : Body) (kept : List Nat) (arguments : List Argument)
    (first last : Nat)
    (s : Running) : List Nat → Running → Prop where
  | computing {a : Argument} {path : List Nat} {t : Running} (h : Reached call body arguments s path a t)
      (hstays : Stays call body kept first last s path t) (ht : first ≤ t.frame.pc ∧ t.frame.pc < last) :
      ArgumentsRun call body kept arguments first last s path t
  | escapes {a : Argument} {front back : List Nat} {t u u' : Running} {e : Error} {exception : Value}
      {handler : Handler} (h : Reached call body arguments s front a u)
      (hout : Escapes call body kept a.own first last s front u e exception u')
      (hfound : u'.handler? body.code exception = some handler)
      (hrest : Travels call body (u'.handled handler exception) back t) :
      ArgumentsRun call body kept arguments first last s (front ++ u.frame.pc :: back) t
  | computed {front back : List Nat} {vs : List Value} {t u : Running}
      (h : Computed call body arguments s front vs u) (hstays : Stays call body kept first last s front u)
      (hrest : Travels call body u back t) : ArgumentsRun call body kept arguments first last s (front ++ back) t

section Arguments

variable {call : Caller} {body : Body} {kept : List Nat} {floor first last : Nat} {a : Argument}
  {arguments : List Argument} {path front back : List Nat} {s t u : Running} {v : Value} {vs : List Value}

theorem Argument.done_le_close (a : Argument) : a.done ≤ a.close := Nat.le_add_right _ _

theorem Stretch.reaches [Libraries] {own : List Handler} {ends : Bool} (h : Stretch body.code kept own first last ends)
    (hi : Inside call body own first last s path t) (hs : Reaches first last ends s.frame.pc) :
    Reaches first last ends t.frame.pc := by
  induction hi with
  | refl s => exact hs
  | goes hin hgoes _ ih => exact ih (h.goesOn hin hgoes).1
  | handled _ _ _ hown _ ih => exact ih (h.handlers _ hown).2.2

theorem Stretch.le {own : List Handler} {ends : Bool} (h : Stretch body.code kept own first last ends) :
    first ≤ last := by
  rcases h.enters.2 with hlt | ⟨heq, -⟩
  · exact Nat.le_of_lt hlt
  · exact Nat.le_of_eq heq

namespace Argument.Laid

theorem le (h : a.Laid body kept floor) : a.first ≤ a.close := Nat.le_trans h.stretch.le a.done_le_close

theorem conversion (h : a.Laid body kept floor) : Stretch body.code kept [] a.done a.close true :=
  h.placed.stretch h.plain kept

/-- The code of an argument leaves one value on top of what was there. -/
theorem leaves [Libraries] (h : a.Laid body kept floor) (hi : Inside call body a.own a.first a.done s path t)
    (hs : s.frame.pc = a.first) (hdepth : s.frame.stack.length = floor) (ht : t.frame.pc = a.done) :
    InStep body s t ∧ ∃ slots, slots.length = a.source.width ∧ t.frame.stack = slots ++ s.frame.stack := by
  obtain ⟨D, hfloored, hstart, hend⟩ := h.floored
  obtain ⟨hd, ⟨slots, hslots⟩, hstep⟩ := hfloored.inside hi (by rw [hs, hdepth]; exact hstart) List.suffix_rfl hdepth
  rw [ht] at hd
  refine ⟨hstep, slots, ?_, hslots.symm⟩
  have hlength := hend _ hd
  rw [← hslots, List.length_append, hdepth] at hlength
  omega

/-- What is known once an argument has been computed: its value is on top, as wide as the type of the local, and none
of the kept slots has been written. -/
theorem computed [Libraries] (h : a.Laid body kept floor) (hc : a.Computes call body s path v t)
    (hs : s.frame.pc = a.first)
    (hdepth : s.frame.stack.length = floor) :
    a.ends = true ∧ t.frame.pc = a.close ∧ Stays call body kept a.first a.close s path t ∧ InStep body s t ∧
      ∃ slots, slots.length = a.target.width ∧ valueOf a.target slots = a.rebound v ∧
        t.frame.stack = slots ++ s.frame.stack := by
  obtain @⟨front, back, u, _, slots, hvalue, hdone, hlength, hstack, hconverted, hclose⟩ := hc
  have hends : a.ends = true := by
    have hreaches := (h.stretch.reaches hvalue (hs ▸ h.stretch.enters)).2
    rw [hdone] at hreaches
    exact (hreaches.resolve_left (Nat.lt_irrefl _)).2
  obtain ⟨hstep, -⟩ := h.leaves hvalue hs hdepth hdone
  have hperforms := hconverted.performs (hdone ▸ h.placed) h.plain (by rw [hdone]; rfl) hclose
  obtain ⟨slots', hlength', hvalue', rfl⟩ := (h.converts hends).leads hlength hstack hperforms
  have hstays := (h.stretch.stays hvalue).mono (Nat.le_refl _) a.done_le_close
  have hstays' := (h.conversion.stays hconverted).mono h.stretch.le (Nat.le_refl _)
  exact ⟨hends, hclose, hstays.trans hstays', hstep.trans hconverted.inStep, slots', hlength', hvalue', rfl⟩

/-- A run that starts at an argument. -/
theorem run [Libraries] (h : a.Laid body kept floor) (hs : s.frame.pc = a.first) (hdepth : s.frame.stack.length = floor)
    (ht : Travels call body s path t) : ArgumentsRun call body kept [a] a.first a.close s path t := by
  have hclose := a.done_le_close
  have hfirst := h.stretch.le
  cases h.stretch.run ht (hs ▸ h.stretch.enters) with
  | inside hvalue hin =>
    have hin : a.first ≤ t.frame.pc ∧ t.frame.pc < a.close := ⟨hin.1, Nat.lt_of_lt_of_le hin.2 hclose⟩
    exact .computing (.here ht hin) ((h.stretch.stays hvalue).mono (Nat.le_refl _) hclose) hin
  | escapes hvalue hin hraises hfound hown hrest =>
    have hstays := (h.stretch.stays hvalue).mono (Nat.le_refl _) hclose
    have hin := And.intro hin.1 (Nat.lt_of_lt_of_le hin.2 hclose)
    exact .escapes (.here hstays.travels hin) ⟨hstays, hin, hraises, fun handler hfound' => by
      rwa [Option.some.inj (hfound'.symm.trans hfound)]⟩ hfound hrest
  | @arrives front back u _ hvalue hdone hends hrest =>
    obtain ⟨hstep, slots, hlength, hstack⟩ := h.leaves hvalue hs hdepth hdone
    have hstays := (h.stretch.stays hvalue).mono (Nat.le_refl _) hclose
    cases h.conversion.run hrest (hdone ▸ h.conversion.enters) with
    | inside hconverted hin =>
      have hstays' := (h.conversion.stays hconverted).mono hfirst (Nat.le_refl _)
      have hin := And.intro (Nat.le_trans hfirst hin.1) hin.2
      exact .computing (.here (hstays.trans hstays').travels hin) (hstays.trans hstays') hin
    | @escapes front' back' w w' _ e exception handler hconverted hin hraises hfound _ hrest =>
      have hstays' := hstays.trans ((h.conversion.stays hconverted).mono hfirst (Nat.le_refl _))
      have hbehind := And.intro (Nat.le_trans hfirst hin.1) hin.2
      rw [← List.append_assoc]
      refine .escapes (.here hstays'.travels hbehind) ⟨hstays', hbehind, hraises, fun handler' hfound' hown => ?_⟩
        hfound hrest
      -- the handlers of the value are not in force behind it
      have hcovers := (hraises.handler_covers hfound').2
      obtain ⟨-, hlast, -⟩ := h.stretch.handlers handler' hown
      simp only [Handler.covers, Bool.and_eq_true, decide_eq_true_eq] at hcovers
      omega
    | @arrives front' back' w _ hconverted hclosed _ hrest =>
      have hstays' := (h.conversion.stays hconverted).mono hfirst (Nat.le_refl _)
      have hone : a.Computes call body s (front ++ front') (valueOf a.source slots) w :=
        .intro hvalue hdone hlength hstack hconverted hclosed
      have hall := Computed.cons hone (.nil w)
      rw [List.append_nil] at hall
      rw [← List.append_assoc]
      exact .computed hall (hstays.trans hstays') hrest

end Argument.Laid

end Arguments

/-! ### Arguments in a row -/

/-- Arguments one behind the other, from a position and a depth on: each starts where the one before has been
converted, on top of what is there by then.  Behind one whose end control does not get to there are no more. -/
inductive Chained (body : Body) (kept : List Nat) : Nat → Nat → List Argument → Nat → Bool → Prop where
  | nil (pc depth : Nat) : Chained body kept pc depth [] pc true
  | cons {a : Argument} {rest : List Argument} {depth last : Nat} {ends : Bool} (h : a.Laid body kept depth)
      (hends : a.ends = true) (hrest : Chained body kept a.close (depth + a.target.width) rest last ends) :
      Chained body kept a.first depth (a :: rest) last ends
  | stuck {a : Argument} {depth : Nat} (h : a.Laid body kept depth) (hends : a.ends = false) :
      Chained body kept a.first depth [a] a.close false

/-- Converted values are on the stack, one on top of the other. -/
inductive Stacked : List Argument → List Value → List Value → List Value → Prop where
  | nil (below : List Value) : Stacked [] [] below below
  | cons {a : Argument} {rest : List Argument} {v : Value} {vs slots below stack : List Value}
      (hlength : slots.length = a.target.width) (hvalue : valueOf a.target slots = a.rebound v)
      (hrest : Stacked rest vs (slots ++ below) stack) : Stacked (a :: rest) (v :: vs) below stack

section Chains

variable {call : Caller} {body : Body} {kept : List Nat} {depth first last : Nat} {ends : Bool} {a : Argument}
  {arguments rest : List Argument} {path front back : List Nat} {s t u : Running} {v : Value} {vs : List Value}

theorem Chained.le (h : Chained body kept first depth arguments last ends) : first ≤ last := by
  induction h with
  | nil => exact Nat.le_refl _
  | cons h _ _ ih => exact Nat.le_trans h.le ih
  | stuck h _ => exact h.le

/-- Behind an argument that has been computed, a run goes on with the rest. -/
theorem ArgumentsRun.cons [Libraries] (h : a.Computes call body s front v u) (hfirst : a.first ≤ a.close)
    (hstays : Stays call body kept a.first a.close s front u) (hlast : a.close ≤ last)
    (hrun : ArgumentsRun call body kept rest a.close last u back t) :
    ArgumentsRun call body kept (a :: rest) a.first last s (front ++ back) t := by
  have hstays := hstays.mono (Nat.le_refl _) hlast
  cases hrun with
  | computing hreached hstays' ht =>
    exact .computing (.later h hreached) (hstays.trans (hstays'.mono hfirst (Nat.le_refl _)))
      ⟨Nat.le_trans hfirst ht.1, ht.2⟩
  | escapes hreached hout hfound hrest =>
    rw [← List.append_assoc]
    exact .escapes (.later h hreached) ⟨hstays.trans (hout.stays.mono hfirst (Nat.le_refl _)),
      ⟨Nat.le_trans hfirst hout.inside.1, hout.inside.2⟩, hout.raises, hout.escapes⟩ hfound hrest
  | computed hcomputed hstays' hrest =>
    rw [← List.append_assoc]
    exact .computed (.cons h hcomputed) (hstays.trans (hstays'.mono hfirst (Nat.le_refl _))) hrest

/-- A run that starts at the first of some arguments computes them from left to right, unless an error gets out of
one; until all have been computed no kept slot is written. -/
theorem Chained.run [Libraries] (h : Chained body kept first depth arguments last ends) (hs : s.frame.pc = first)
    (hdepth : s.frame.stack.length = depth) (ht : Travels call body s path t) :
    ArgumentsRun call body kept arguments first last s path t := by
  induction h generalizing s path with
  | nil pc depth =>
    rw [← List.nil_append path]
    exact .computed (.nil s) (.refl s) ht
  | stuck h hends => exact h.run hs hdepth ht
  | @cons a rest depth last ends h hends hrest ih =>
    have hlast := hrest.le
    have hfirst := h.le
    cases h.run hs hdepth ht with
    | computing hreached hstays hin =>
      cases hreached with
      | here htravels hin' =>
        exact .computing (.here htravels hin') (hstays.mono (Nat.le_refl _) hlast)
          ⟨hin.1, Nat.lt_of_lt_of_le hin.2 hlast⟩
      | later _ hreached => cases hreached
    | escapes hreached hout hfound hbehind =>
      cases hreached with
      | here htravels hin =>
        exact .escapes (.here htravels hin) ⟨hout.stays.mono (Nat.le_refl _) hlast,
          ⟨hin.1, Nat.lt_of_lt_of_le hin.2 hlast⟩, hout.raises, hout.escapes⟩ hfound hbehind
      | later _ hreached => cases hreached
    | computed hcomputed _ hbehind =>
      cases hcomputed with
      | cons hone hnone =>
        cases hnone with
        | nil =>
          rw [List.append_nil]
          obtain ⟨-, hclose, hstays, -, slots, hlength, -, hstack⟩ := h.computed hone hs hdepth
          refine .cons hone hfirst hstays hlast (ih hclose ?_ hbehind)
          rw [hstack, List.length_append, hlength, hdepth, Nat.add_comm]

/-- Once all arguments have been computed the kept slots are as before, and the converted values are on the stack. -/
theorem Chained.computed [Libraries] (h : Chained body kept first depth arguments last ends)
    (hc : Computed call body arguments s path vs t) (hs : s.frame.pc = first)
    (hdepth : s.frame.stack.length = depth) :
    ends = true ∧ t.frame.pc = last ∧ Stays call body kept first last s path t ∧ InStep body s t ∧
      Stacked arguments vs s.frame.stack t.frame.stack := by
  induction h generalizing s path vs with
  | nil pc depth =>
    cases hc
    exact ⟨rfl, hs, .refl _, .refl body _, .nil _⟩
  | stuck h hends =>
    cases hc with
    | cons hone _ =>
      obtain ⟨hends', -⟩ := h.computed hone hs hdepth
      cases hends.symm.trans hends'
  | @cons a rest depth last ends h _ hrest ih =>
    cases hc with
    | cons hone hmore =>
      obtain ⟨-, hclose, hstays, hstep, slots, hlength, hvalue, hstack⟩ := h.computed hone hs hdepth
      obtain ⟨hends, hlast, hstays', hstep', hstacked⟩ := ih hmore hclose (by
        rw [hstack, List.length_append, hlength, hdepth, Nat.add_comm])
      rw [hstack] at hstacked
      have hfirst := h.le
      exact ⟨hends, hlast, (hstays.mono (Nat.le_refl _) hrest.le).trans (hstays'.mono h.le (Nat.le_refl _)),
        hstep.trans hstep', .cons hlength hvalue hstacked⟩

end Chains

/-! ### Stores -/

section Stores

variable {call : Caller} {body : Body} {arguments : List Argument} {vs below : List Value} {s t : Running}

theorem step_store [Libraries] {ty : Ty} {slot : Nat} {slots rest : List Value} (hlength : slots.length = ty.width)
    (hstack : s.frame.stack = slots ++ rest) :
    step call body (.store slot ty) s = .ok .next { s with frame := ⟨s.frame.pc, rest,
      s.frame.locals.setIfInBounds slot (valueOf ty slots)⟩ } := by
  rw [step, State.bind_of_ok (pop_valueOf hlength hstack), State.bind_of_ok (Exec.modifyFrame_eq _ _)]
  rfl

/-- What the stores of some converted values come to. -/
structure StoredAll (arguments : List Argument) (vs below : List Value) (s t : Running) : Prop where
  pc : t.frame.pc = s.frame.pc + arguments.length
  stack : t.frame.stack = below
  world : t.world = s.world
  slots : List.Forall₂ (fun a v => t.frame.locals[a.slot]? = some (a.rebound v)) arguments vs
  others : ∀ slot, (∀ a ∈ arguments, a.slot ≠ slot) → t.frame.locals[slot]? = s.frame.locals[slot]?
  size : t.frame.locals.size = s.frame.locals.size

/-- The last value is stored first, so each is on top when it is its turn; with no slot in it twice, none is
overwritten. -/
theorem Stacked.performs [Libraries] (h : Stacked arguments vs below s.frame.stack)
    (hnodup : (arguments.map Argument.slot).Nodup) (hslots : ∀ a ∈ arguments, a.slot < s.frame.locals.size) :
    ∃ t, Performs call body (arguments.reverse.map Argument.store) s t ∧ StoredAll arguments vs below s t := by
  generalize hstack : s.frame.stack = stack at h
  induction h with
  | nil below => exact ⟨s, rfl, rfl, hstack, rfl, .nil, fun _ _ => rfl, rfl⟩
  | @cons a rest v vs slots below stack hlength hvalue hrest ih =>
    rw [List.map_cons, List.nodup_cons] at hnodup
    obtain ⟨t, hperforms, ht⟩ := ih hnodup.2 (fun b hb => hslots b (List.mem_cons_of_mem _ hb)) hstack
    have ht' := ht.slots
    have hstore : step call body a.store t = _ := step_store hlength ht.stack
    have hslot : a.slot < t.frame.locals.size := ht.size ▸ hslots a List.mem_cons_self
    rw [List.reverse_cons, List.map_append]
    refine ⟨_, performs_append.mpr ⟨t, hperforms, _, hstore, rfl⟩, ?_⟩
    refine ⟨?_, rfl, ht.world, .cons ?_ ?_, fun slot hslot' => ?_, ?_⟩
    · rw [List.length_cons, ← Nat.add_assoc, ← ht.pc]
      rfl
    · simp [Running.next, hslot, hvalue]
    · rw [List.forall₂_iff_zip] at ht' ⊢
      refine ⟨ht'.1, fun {b w} hmem => ?_⟩
      have hne : a.slot ≠ b.slot := fun heq =>
        hnodup.1 (heq ▸ List.mem_map_of_mem (List.of_mem_zip hmem).1)
      exact (Array.getElem?_setIfInBounds_ne hne).trans (ht'.2 hmem)
    · exact (Array.getElem?_setIfInBounds_ne (hslot' a List.mem_cons_self)).trans
        (ht.others slot fun b hb => hslot' b (List.mem_cons_of_mem _ hb))
    · simp [Running.next, ht.size]

end Stores

/-! ### Going back -/

/-- The code that goes back to the head of a loop: the arguments, from an entry on, and where their values are stored
into the locals of the loop, if control gets there. -/
structure RecurLayout where
  arguments : List Argument
  kept : List Nat
  entry : Nat
  stores : Nat
  ends : Bool
  head : Label

/-- The code is laid out so in a method, for a depth of the stack at the entry. -/
structure RecurLayout.Laid (L : RecurLayout) (body : Body) (depth : Nat) : Prop where
  arguments : Chained body L.kept L.entry depth L.arguments L.stores L.ends
  back : L.ends = true → Placed body.code L.stores (L.arguments.reverse.map Argument.store ++ [Instruction.goto L.head])
  head : L.ends = true → ∃ pc, jumpTarget body.code L.head = .ok pc

/-- All locals have got their new values at once, and control is at the head of the loop, with the stack from before
the arguments. -/
structure RecurLayout.Rebinds (L : RecurLayout) (body : Body) (vs : List Value) (s u t : Running) : Prop where
  head : jumpTarget body.code L.head = .ok t.frame.pc
  stack : t.frame.stack = s.frame.stack
  inStep : InStep body s t
  slots : List.Forall₂ (fun a v => t.frame.locals[a.slot]? = some (a.rebound v)) L.arguments vs
  others : ∀ slot, (∀ a ∈ L.arguments, a.slot ≠ slot) → t.frame.locals[slot]? = u.frame.locals[slot]?
  size : t.frame.locals.size = s.frame.locals.size
  world : t.world = u.world

namespace RecurLayout.Laid

variable {call : Caller} {body : Body} {L : RecurLayout} {depth : Nat} {path : List Nat} {vs : List Value}
  {s t u : Running}

/-- The arguments are computed from left to right, with the locals of the loop as they were. -/
theorem run [Libraries] (h : L.Laid body depth) (hs : s.frame.pc = L.entry) (hdepth : s.frame.stack.length = depth)
    (ht : Travels call body s path t) :
    ArgumentsRun call body L.kept L.arguments L.entry L.stores s path t := h.arguments.run hs hdepth ht

/-- Once they have been, control goes back to the head of the loop with the new values. -/
theorem rebinds [Libraries] (h : L.Laid body depth) (hnodup : (L.arguments.map Argument.slot).Nodup)
    (hslots : ∀ a ∈ L.arguments, a.slot < s.frame.locals.size) (hs : s.frame.pc = L.entry)
    (hdepth : s.frame.stack.length = depth) (hc : Computed call body L.arguments s path vs u) :
    L.ends = true ∧ Stays call body L.kept L.entry L.stores s path u ∧
      ∃ path' t, Travels call body u path' t ∧ L.Rebinds body vs s u t := by
  obtain ⟨hends, hpc, hstays, hstep, hstacked⟩ := h.arguments.computed hc hs hdepth
  have hback := h.back hends
  obtain ⟨target, htarget⟩ := h.head hends
  obtain ⟨w, hperforms, hw⟩ := hstacked.performs hnodup fun a ha => hstays.size ▸ hslots a ha
  obtain ⟨path', htravels, hstep'⟩ := hperforms.travels (hpc ▸ hback.left)
  have hgoto : body.code.instructions[w.frame.pc]? = some (.goto L.head) := by
    have hlength : (L.arguments.reverse.map Argument.store).length = L.arguments.length := by simp
    rw [hw.pc, hpc, ← hlength]
    exact hback.right.head
  have hjump : step call body (.goto L.head) w = .ok (.jump L.head) w := rfl
  have hgoes : GoesOn call body w (w.at target w.frame.stack) := .jump hgoto hjump htarget
  refine ⟨hends, hstays, _, _, htravels.trans (.move (.goes hgoes) (.refl _)), htarget, hw.stack, ?_, hw.slots,
    hw.others, hw.size.trans hstays.size, hw.world⟩
  exact hstep.trans (hstep'.trans hgoes.inStep)

end RecurLayout.Laid

end LispMachine.Machine
