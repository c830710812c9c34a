import LispMachine.Proofs.Machine.StraightLine

/-! # Travelling through code

A run of a method goes from position to position, by instructions that end well and by errors that a
handler of the method takes.  `Travels` records the positions at which it was, so that it can be said where
a run was on its way from one state to another.  The steps of the instructions that decide where control goes
are given as equations. -/

namespace LispMachine.Machine

/-! ### Moves -/

/-- One move of a running method: an instruction ends well, or it fails and a handler takes over. -/
inductive Move [Libraries] (call : Caller) (body : Body) : Running → Running → Prop where
  | goes {s t : Running} (h : GoesOn call body s t) : Move call body s t
  | handled {s s' : Running} {i : Instruction} {e : Error} {f : Frame} {w : World}
      (hi : body.code.instructions[s.frame.pc]? = some i) (hs : step call body i s = .error (.error e) s')
      (hunwind : unwind call body e s'.frame s'.world = .ok f w) : Move call body s ⟨f, w⟩

/-- A run from one state to another, with the positions at which it moved. -/
inductive Travels [Libraries] (call : Caller) (body : Body) : Running → List Nat → Running → Prop where
  | refl (s : Running) : Travels call body s [] s
  | move {s t u : Running} {path : List Nat} (h : Move call body s t) (hrest : Travels call body t path u) :
      Travels call body s (s.frame.pc :: path) u

section Moves

variable {call : Caller} {body : Body} {s t u : Running} {i : Instruction}

theorem GoesOn.step [Libraries] (h : GoesOn call body s t) :
    ∃ i f u, body.code.instructions[s.frame.pc]? = some i ∧ step call body i s = .ok f u := by
  cases h with
  | next hi hs => exact ⟨_, _, _, hi, hs⟩
  | jump hi hs hpc => exact ⟨_, _, _, hi, hs⟩

theorem GoesOn.unique [Libraries] (h : GoesOn call body s t) (h' : GoesOn call body s u) : t = u := by
  cases h with
  | next hi hs =>
    cases h' with
    | next hi' hs' =>
      obtain rfl := Option.some.inj (hi.symm.trans hi')
      obtain ⟨-, rfl⟩ := EStateM.Result.ok.inj (hs.symm.trans hs')
      rfl
    | jump hi' hs' hpc' =>
      obtain rfl := Option.some.inj (hi.symm.trans hi')
      cases hs.symm.trans hs'
  | jump hi hs hpc =>
    cases h' with
    | next hi' hs' =>
      obtain rfl := Option.some.inj (hi.symm.trans hi')
      cases hs.symm.trans hs'
    | jump hi' hs' hpc' =>
      obtain rfl := Option.some.inj (hi.symm.trans hi')
      obtain ⟨heq, rfl⟩ := EStateM.Result.ok.inj (hs.symm.trans hs')
      cases heq
      obtain rfl := Except.ok.inj (hpc.symm.trans hpc')
      rfl

/-- A running method moves in one way only. -/
theorem Move.unique [Libraries] (h : Move call body s t) (h' : Move call body s u) : t = u := by
  cases h with
  | goes h =>
    cases h' with
    | goes h' => exact h.unique h'
    | handled hi' hs' hunwind' =>
      obtain ⟨i, f, v, hi, hs⟩ := h.step
      obtain rfl := Option.some.inj (hi.symm.trans hi')
      cases hs.symm.trans hs'
  | handled hi hs hunwind =>
    cases h' with
    | goes h' =>
      obtain ⟨i', f', v, hi', hs'⟩ := h'.step
      obtain rfl := Option.some.inj (hi.symm.trans hi')
      cases hs.symm.trans hs'
    | handled hi' hs' hunwind' =>
      obtain rfl := Option.some.inj (hi.symm.trans hi')
      obtain ⟨heq, rfl⟩ := EStateM.Result.error.inj (hs.symm.trans hs')
      cases heq
      obtain ⟨rfl, rfl⟩ := EStateM.Result.ok.inj (hunwind.symm.trans hunwind')
      rfl

end Moves

section Travels

variable {call : Caller} {body : Body} {s t u : Running} {path path' : List Nat}

theorem Travels.trans [Libraries] (h : Travels call body s path t) (h' : Travels call body t path' u) :
    Travels call body s (path ++ path') u := by
  induction h with
  | refl => exact h'
  | move hmove _ ih => exact .move hmove (ih h')

/-- Of two runs from one state, one goes on from where the other is. -/
theorem Travels.compare [Libraries] (h : Travels call body s path t) (h' : Travels call body s path' u) :
    (∃ rest, path = path' ++ rest ∧ Travels call body u rest t) ∨
      ∃ rest, path' = path ++ rest ∧ Travels call body t rest u := by
  induction h generalizing path' with
  | refl => exact .inr ⟨path', rfl, h'⟩
  | move hmove hrest ih =>
    cases h' with
    | refl => exact .inl ⟨_, rfl, .move hmove hrest⟩
    | move hmove' hrest' =>
      obtain rfl := hmove.unique hmove'
      rcases ih hrest' with ⟨rest, rfl, hon⟩ | ⟨rest, rfl, hon⟩
      · exact .inl ⟨rest, rfl, hon⟩
      · exact .inr ⟨rest, rfl, hon⟩

end Travels

/-- A run from one state to another that moves only at positions of a range. -/
def Through [Libraries] (call : Caller) (body : Body) (first last : Nat) (s t : Running) : Prop :=
  ∃ path, Travels call body s path t ∧ ∀ pc ∈ path, first ≤ pc ∧ pc < last

section Through

variable {call : Caller} {body : Body} {first last first' last' : Nat} {s t u : Running}

theorem Through.refl [Libraries] (s : Running) : Through call body first last s s := ⟨[], .refl s, by simp⟩

theorem Through.trans [Libraries] (h : Through call body first last s t) (h' : Through call body first last t u) :
    Through call body first last s u := by
  obtain ⟨path, hpath, hrange⟩ := h
  obtain ⟨path', hpath', hrange'⟩ := h'
  refine ⟨path ++ path', hpath.trans hpath', fun pc hpc => ?_⟩
  rcases List.mem_append.mp hpc with hpc | hpc
  · exact hrange pc hpc
  · exact hrange' pc hpc

theorem Through.mono [Libraries] (h : Through call body first last s t) (hfirst : first' ≤ first)
    (hlast : last ≤ last') :
    Through call body first' last' s t := by
  obtain ⟨path, hpath, hrange⟩ := h
  refine ⟨path, hpath, fun pc hpc => ?_⟩
  have hbetween := hrange pc hpc
  omega

theorem Through.move [Libraries] (hmove : Move call body s t) (hfirst : first ≤ s.frame.pc) (hlast : s.frame.pc < last)
    (hrest : Through call body first last t u) : Through call body first last s u := by
  obtain ⟨path, hpath, hrange⟩ := hrest
  exact ⟨_, .move hmove hpath, List.forall_mem_cons.mpr ⟨⟨hfirst, hlast⟩, hrange⟩⟩

end Through

/-- The method at another position, with another stack. -/
def Running.at (s : Running) (pc : Nat) (stack : List Value) : Running :=
  { s with frame := { s.frame with pc, stack } }

/-! ### Steps that decide -/

section Steps

variable {call : Caller} {body : Body} {first last pc : Nat} {s t : Running} {v : Value} {rest : List Value}

theorem through_next [Libraries] {i : Instruction} {stack stack' : List Value}
    (hi : body.code.instructions[pc]? = some i) (hpc : first ≤ pc ∧ pc < last)
    (hs : step call body i (s.at pc stack) = .ok .next ((s.at pc stack).withStack stack'))
    (hrest : Through call body first last (s.at (pc + 1) stack') t) :
    Through call body first last (s.at pc stack) t :=
  .move (.goes (.next hi hs)) hpc.1 hpc.2 hrest

theorem through_jump [Libraries] {i : Instruction} {stack stack' : List Value} {l : Label} {target : Nat}
    (hi : body.code.instructions[pc]? = some i) (hpc : first ≤ pc ∧ pc < last)
    (hs : step call body i (s.at pc stack) = .ok (.jump l) ((s.at pc stack).withStack stack'))
    (hl : jumpTarget body.code l = .ok target)
    (hrest : Through call body first last (s.at target stack') t) :
    Through call body first last (s.at pc stack) t :=
  .move (.goes (.jump hi hs hl)) hpc.1 hpc.2 hrest

theorem step_load [Libraries] {slot : Nat} (hv : s.frame.locals[slot]? = some v) (ty : Ty) :
    step call body (.load slot ty) s = .ok .next (s.withStack (slotsOf v ty ++ s.frame.stack)) := by
  rw [step, State.bind_of_ok (State.get_eq s), State.bind_of_ok (push_eq s _ ty), hv]
  rfl

theorem step_const [Libraries] {c : Constant} (hv : constantValue s.world c = .ok v) :
    step call body (.const c) s = .ok .next (s.withStack (slotsOf v c.ty ++ s.frame.stack)) := by
  have hread : Exec.lift (Action.read fun w => constantValue w c) s = .ok v s :=
    Exec.lift_of_ok (Action.read_of_ok hv)
  rw [step, State.bind_of_ok hread, State.bind_of_ok (push_eq s v c.ty)]
  rfl

theorem step_box [Libraries] {p : Prim} (hstack : s.frame.stack = slotsOf v (.prim p) ++ rest) :
    step call body (.box p) s = .ok .next (s.withStack (v :: rest)) := by
  rw [step, State.bind_of_ok (pop_slotsOf (width_prim p) hstack)]
  rfl

theorem step_hashCode [Libraries] (hstack : s.frame.stack = v :: rest) :
    step call body .hashCode s
      = .ok .next (s.withStack (slotsOf (.int (Int64.ofInt v.hashCode)) .long ++ rest)) := by
  rw [step, State.bind_of_ok (popSlot_cons s hstack), State.bind_of_ok (push_eq _ _ _)]
  rfl

theorem step_equiv [Libraries] {a b : Value} (hstack : s.frame.stack = b :: a :: rest) :
    step call body .equiv s = .ok .next (s.withStack (.bool (a == b) :: rest)) := by
  rw [step, State.bind_of_ok (popSlot_cons s hstack),
    State.bind_of_ok (popSlot_cons (s.withStack (a :: rest)) rfl)]
  rfl

theorem step_ifFalse [Libraries] {b : Bool} (l : Label) (hstack : s.frame.stack = .bool b :: rest) :
    step call body (.ifFalse l) s = .ok (if b then .next else .jump l) (s.withStack rest) := by
  rw [step, State.bind_of_ok (popSlot_cons s hstack)]
  cases b <;> rfl

theorem popKey_int {n : Int64} (hstack : s.frame.stack = slotsOf (.int n) .long ++ rest) :
    popKey s = .ok n (s.withStack rest) := by
  have hpop : pop .long s = .ok (.int n) (s.withStack rest) := pop_slotsOf (width_prim .long) hstack
  rw [popKey, State.bind_of_ok hpop]
  rfl

theorem step_lookupSwitch [Libraries] {n : Int64} (keys : List Int64) (targets : List Label) (default : Label)
    (hstack : s.frame.stack = slotsOf (.int n) .long ++ rest) :
    step call body (.lookupSwitch keys targets default) s
      = .ok (.jump (switchTarget targets default (keys.findIdx? (· == n)))) (s.withStack rest) := by
  rw [step, State.bind_of_ok (popKey_int hstack)]
  rfl

theorem step_tableSwitch [Libraries] {n : Int64} (targets : List Label) (default : Label) (hn : 0 ≤ n.toInt)
    (hstack : s.frame.stack = slotsOf (.int n) .long ++ rest) :
    step call body (.tableSwitch 0 targets default) s
      = .ok (.jump (switchTarget targets default (some n.toInt.toNat))) (s.withStack rest) := by
  have hzero : (0 : Int64).toInt = 0 := rfl
  rw [step, State.bind_of_ok (popKey_int hstack), hzero, Int.sub_zero, if_pos hn]
  rfl

end Steps

end LispMachine.Machine
