import Mathlib.Logic.Relation
import LispMachine.Libraries.Standard
import LispMachine.Proofs.Machine.Effects

/-! # Verified code is safe

A frame is in order when it stands at a position with a depth, its stack is that deep and its local slots
are those the code declares (`InOrder`).  From a frame in order, code that the verifier accepted runs an
instruction without any of the errors of broken code, and a step that ends well ends in order again
(`step_inOrder`), so a run without exceptions stays in order (`reaches_inOrder`).

With exceptions it is otherwise.  The verifier compares the depth a handler declares with the stack in
front of the failing instruction, but the operands of that instruction are gone when control gets to the
handler.  So the handler meets the depth it was verified with exactly if its slots lie below the operands
of the instruction (`handling_depth_iff`), which the verifier does not check. -/

namespace LispMachine.Machine

open Verifier (depthAt)

variable {file : ClassFile} {m : MethodDef} {code : Code} {first : Nat}

/-- The frame stands at a position the verifier visited, with the stack the verifier expects there. -/
structure InOrder (m : MethodDef) (code : Code) (sites : List SiteSpec) (f : Frame) : Prop where
  depth : depthAt m code sites f.pc = some f.stack.length
  locals : code.maxLocals ≤ f.locals.size

theorem le_size_initialLocals (code : Code) (values : List Value) :
    code.maxLocals ≤ (initialLocals code values).size := by
  simp [initialLocals]
  omega

/-- A method starts in order. -/
theorem inOrder_start (hverified : Verifier.checkClass file = .ok ()) (hm : m ∈ file.methods)
    (hcode : m.code = some code) (values : List Value) :
    InOrder m code file.sites { locals := initialLocals code values } :=
  ⟨(Verifier.consistent_of_checkClass hverified hm hcode).start, le_size_initialLocals code values⟩

theorem jumpTarget_of_position {l : Label} {t : Nat} (h : code.position? l = some t) :
    jumpTarget code l = .ok t := by
  obtain ⟨position, hp, rfl⟩ : ∃ position, code.labels[l]? = some position ∧ position = some t := by
    unfold Code.position? at h
    cases hl : code.labels[l]? with
    | none => simp [hl] at h
    | some position => exact ⟨position, rfl, by simpa [hl] using h⟩
  simp [jumpTarget, hp]

theorem InOrder.next {sites : List SiteSpec} {f f' : Frame} {popped pushed pc : Nat}
    (hf : InOrder m code sites f) (hleaves : Leaves f popped pushed f')
    (hdepth : depthAt m code sites pc = some (f.stack.length - popped + pushed)) :
    InOrder m code sites { f' with pc } := by
  obtain ⟨slots, hlength, hstack⟩ := hleaves.stack
  have hsame : f'.stack.length = f.stack.length - popped + pushed := by
    rw [hstack, List.length_append, List.length_drop, hlength]
    omega
  refine ⟨?_, ?_⟩
  · rw [hdepth, hsame]
  · rw [hleaves.locals]
    exact hf.locals

section Step

variable (call : Caller) {f : Frame} {w : World}

/-- What is known of an instruction of verified code when control gets to it in order. -/
theorem step_of_inOrder [Libraries] (hverified : Verifier.checkClass file = .ok ()) (hm : m ∈ file.methods)
    (hcode : m.code = some code) (hf : InOrder m code file.sites f)
    (hloaded : first + file.sites.length ≤ w.sites.size) :
    ∃ i popped pushed, code.instructions[f.pc]? = some i ∧
      Verifier.Fits code file.sites (depthAt m code file.sites) code.maxStack f.pc f.stack.length i
        popped pushed ∧
      Ends call i popped pushed f (step call ⟨code, file.sites, first⟩ i ⟨f, w⟩) := by
  have hc := Verifier.consistent_of_checkClass hverified hm hcode
  obtain ⟨i, popped, pushed, hi, hfits⟩ := hc.reached f.pc f.stack.length hf.depth
  have hends := step_ends call ⟨code, file.sites, first⟩ ⟨f, w⟩ hfits.delta hfits.enough hloaded
  exact ⟨i, popped, pushed, hi, hfits, hends⟩

/-- One instruction of verified code, in order: it is there, its local slot is there, and either it
fails with no error of its own about broken code, or it returns, or control goes on in order. -/
theorem step_inOrder [Libraries] (hverified : Verifier.checkClass file = .ok ()) (hm : m ∈ file.methods)
    (hcode : m.code = some code) (hf : InOrder m code file.sites f)
    (hloaded : first + file.sites.length ≤ w.sites.size) :
    ∃ i, code.instructions[f.pc]? = some i ∧
      (∀ slot, i.slot? = some slot → slot < f.locals.size) ∧
      match step call ⟨code, file.sites, first⟩ i ⟨f, w⟩ with
      | .ok .next s => InOrder m code file.sites { s.frame with pc := s.frame.pc + 1 }
      | .ok (.jump l) s =>
        ∃ pc, jumpTarget code l = .ok pc ∧ InOrder m code file.sites { s.frame with pc }
      | .ok (.done _) _ => True
      | .error fault _ => Excused call fault := by
  obtain ⟨i, popped, pushed, hi, hfits, hends⟩ :=
    step_of_inOrder call hverified hm hcode hf hloaded
  refine ⟨i, hi, fun slot hs => Nat.lt_of_lt_of_le (hfits.slot slot hs) hf.locals, ?_⟩
  generalize step call ⟨code, file.sites, first⟩ i ⟨f, w⟩ = result at hends
  cases hends with
  | next hblock hleaves =>
      refine hf.next hleaves ?_
      rw [hleaves.pc]
      exact hfits.next hblock
  | jump hl hleaves =>
      obtain ⟨pc, hpc, hdepth⟩ := hfits.targets _ hl
      exact ⟨pc, jumpTarget_of_position hpc, hf.next hleaves hdepth⟩
  | done v s => trivial
  | fail hframe hfault => exact hfault

/-- Verified code that stands at a position with the stack the verifier expects there, its locals as
many as a call makes: the instruction and its local slot are there, and one step ends at a position with
the stack expected there, or returns, or fails; the errors of broken code it raises only when a call or
a constructor failed with one. -/
theorem verified_step_safe [Libraries] (hverified : Verifier.checkClass file = .ok ()) (hm : m ∈ file.methods)
    (hcode : m.code = some code) (hloaded : first + file.sites.length ≤ w.sites.size)
    (hdepth : depthAt m code file.sites f.pc = some f.stack.length) {values : List Value}
    (hlocals : f.locals.size = (initialLocals code values).size) :
    ∃ i, code.instructions[f.pc]? = some i ∧
      (∀ slot, i.slot? = some slot → slot < f.locals.size) ∧
      match step call ⟨code, file.sites, first⟩ i ⟨f, w⟩ with
      | .ok .next s =>
        depthAt m code file.sites (s.frame.pc + 1) = some s.frame.stack.length ∧
          code.maxLocals ≤ s.frame.locals.size
      | .ok (.jump l) s =>
        ∃ pc, jumpTarget code l = .ok pc ∧ depthAt m code file.sites pc = some s.frame.stack.length ∧
          code.maxLocals ≤ s.frame.locals.size
      | .ok (.done _) _ => True
      | .error .outOfFuel _ => True
      | .error (.error e) _ => Broken e.cause → Foreign call e.cause := by
  have hf : InOrder m code file.sites f := ⟨hdepth, hlocals ▸ le_size_initialLocals code values⟩
  obtain ⟨i, hi, hslot, hstep⟩ := step_inOrder call hverified hm hcode hf hloaded
  refine ⟨i, hi, hslot, ?_⟩
  generalize step call ⟨code, file.sites, first⟩ i ⟨f, w⟩ = result at hstep
  rcases result with ⟨_ | l | v, s⟩ | ⟨_ | _, s⟩
  · exact ⟨hstep.depth, hstep.locals⟩
  · obtain ⟨pc, hpc, horder⟩ := hstep
    exact ⟨pc, hpc, horder.depth, horder.locals⟩
  · trivial
  · exact hstep _ rfl
  · trivial

end Step

/-- Answers no request. -/
def noCaller : Caller := fun _ => throw .outOfFuel

/-- Code that branches on its argument; both branches return. -/
def branchingCode : Code where
  instructions := #[.load 0 .boolean, .ifFalse 0, .const (.str "a"), .ret .any, .const .nil, .ret .any]
  labels := #[some 4]
  maxStack := 1
  maxLocals := 1

def branchingMethod : MethodDef :=
  { name := "run", params := [.boolean], paramNames := ["x"], ret := .any, isStatic := true
    isVariadic := false, code := some branchingCode }

def branchingClass : ClassFile :=
  { name := "t.T", superclass := "lang.Object", methods := [branchingMethod] }

/-- The branch on `false` goes to a position where the verifier expects the empty stack it leaves. -/
theorem branching_step_safe :
    Verifier.checkClass branchingClass = .ok () ∧
      step noCaller ⟨branchingCode, [], 0⟩ (.ifFalse 0)
          ⟨{ pc := 1, stack := [.bool false], locals := #[.bool false] }, {}⟩
        = .ok (.jump 0) ⟨{ pc := 1, locals := #[.bool false] }, {}⟩ ∧
      ∃ pc, jumpTarget branchingCode 0 = .ok pc ∧
        depthAt branchingMethod branchingCode [] pc = some 0 ∧ 1 ≤ #[Value.bool false].size := by
  have hverified : Verifier.checkClass branchingClass = .ok () := rfl
  have hloaded : 0 + ([] : List SiteSpec).length ≤ ({} : World).sites.size := Nat.le_refl 0
  have hlocals : #[Value.bool false].size = (initialLocals branchingCode [.bool false]).size := rfl
  obtain ⟨i, hi, -, hstep⟩ := verified_step_safe noCaller
    (f := { pc := 1, stack := [.bool false], locals := #[.bool false] }) hverified
    (List.mem_singleton.2 rfl) rfl hloaded rfl hlocals
  obtain rfl : Instruction.ifFalse 0 = i := Option.some.inj hi
  exact ⟨hverified, rfl, hstep⟩

section Run

variable (call : Caller) {f : Frame} {w : World}

/-- Control goes on in another frame after an instruction that ended well. -/
inductive GoesOn [Libraries] (call : Caller) (body : Body) : Running → Running → Prop where
  | next {s s' : Running} {i : Instruction} (hi : body.code.instructions[s.frame.pc]? = some i)
      (hs : step call body i s = .ok .next s') :
      GoesOn call body s { s' with frame := { s'.frame with pc := s'.frame.pc + 1 } }
  | jump {s s' : Running} {i : Instruction} {l : Label} {pc : Nat}
      (hi : body.code.instructions[s.frame.pc]? = some i)
      (hs : step call body i s = .ok (.jump l) s') (hpc : jumpTarget body.code l = .ok pc) :
      GoesOn call body s { s' with frame := { s'.frame with pc } }

theorem GoesOn.inOrder [Libraries] {s s' : Running} (hverified : Verifier.checkClass file = .ok ())
    (hm : m ∈ file.methods) (hcode : m.code = some code)
    (h : GoesOn call ⟨code, file.sites, first⟩ s s')
    (hloaded : first + file.sites.length ≤ s.world.sites.size)
    (hs : InOrder m code file.sites s.frame) : InOrder m code file.sites s'.frame := by
  obtain ⟨i, hi, -, hstep⟩ := step_inOrder call hverified hm hcode hs hloaded
  cases h with
  | next hi' hs' =>
      obtain rfl := Option.some.inj (hi.symm.trans hi')
      rw [hs'] at hstep
      exact hstep
  | jump hi' hs' hpc =>
      obtain rfl := Option.some.inj (hi.symm.trans hi')
      rw [hs'] at hstep
      obtain ⟨pc, hpc', horder⟩ := hstep
      obtain rfl := Except.ok.inj (hpc'.symm.trans hpc)
      exact horder

/-- A run of verified code stays in order for as long as no instruction fails and the call sites of the
class stay loaded. -/
theorem reaches_inOrder [Libraries] {start s : Running} (hverified : Verifier.checkClass file = .ok ())
    (hm : m ∈ file.methods) (hcode : m.code = some code) {values : List Value}
    (hstart : start.frame = { locals := initialLocals code values })
    (hloaded : ∀ t, Relation.ReflTransGen (GoesOn call ⟨code, file.sites, first⟩) start t →
      first + file.sites.length ≤ t.world.sites.size)
    (h : Relation.ReflTransGen (GoesOn call ⟨code, file.sites, first⟩) start s) :
    InOrder m code file.sites s.frame := by
  induction h with
  | refl =>
      rw [hstart]
      exact inOrder_start hverified hm hcode values
  | tail hreach hstep ih => exact hstep.inOrder call hverified hm hcode (hloaded _ hreach) ih

/-! ### Exceptions -/

/-- The handler that takes an error over covers the instruction that failed. -/
theorem unwind_ok {body : Body} {e : Error} {f' : Frame} {w' : World}
    (h : unwind call body e f w = .ok f' w') :
    ∃ handler ∈ body.code.handlers, ∃ exception,
      handler.covers f.pc = true ∧ f' = f.handling handler exception := by
  unfold unwind at h
  split at h
  · cases h
  · obtain ⟨exception, w₁, -, h⟩ := State.ok_of_bind h
    rw [State.bind_of_ok (State.get_eq w₁)] at h
    cases hfind : handlerFor w₁.registry body.code f.pc exception with
    | none =>
        simp only [hfind] at h
        cases h
    | some handler =>
        simp only [hfind] at h
        cases h
        have hcovers := List.find?_some hfind
        rw [Bool.and_eq_true] at hcovers
        exact ⟨handler, List.mem_of_find?_eq_some hfind, exception, hcovers.1, rfl⟩

/-- Where verified code goes on after an instruction that failed in order, and with how many slots.  The
depth the verifier assumed for the handler is met exactly if the slots the handler counts on lie below
the operands of the instruction. -/
theorem handler_depth_iff [Libraries] (hverified : Verifier.checkClass file = .ok ()) (hm : m ∈ file.methods)
    (hcode : m.code = some code) (hf : InOrder m code file.sites f)
    (hloaded : first + file.sites.length ≤ w.sites.size) {i : Instruction} {effect : Effect}
    {e : Error} {s : Running} {f' : Frame} {w' : World} (hi : code.instructions[f.pc]? = some i)
    (heffect : i.effect file.sites = .ok effect)
    (hfail : step call ⟨code, file.sites, first⟩ i ⟨f, w⟩ = .error (.error e) s)
    (hunwind : unwind call ⟨code, file.sites, first⟩ e s.frame s.world = .ok f' w') :
    ∃ handler ∈ code.handlers, handler.covers f.pc = true ∧ f'.pc = handler.target ∧
      depthAt m code file.sites f'.pc = some (handler.stackDepth + 1) ∧
      f'.stack.length = min handler.stackDepth (f.stack.length - effect.popped) + 1 ∧
      (f'.stack.length = handler.stackDepth + 1 ↔
        handler.stackDepth + effect.popped ≤ f.stack.length) := by
  obtain ⟨i', popped, pushed, hi', hfits, hends⟩ :=
    step_of_inOrder call hverified hm hcode hf hloaded
  obtain rfl := Option.some.inj (hi.symm.trans hi')
  obtain ⟨effect', heffect', -, rfl, -⟩ := Verifier.effect_of_delta hfits.delta hfits.enough
  obtain rfl := Except.ok.inj (heffect.symm.trans heffect')
  rw [hfail] at hends
  cases hends with
  | fail hframe hfault =>
      obtain ⟨handler, hmem, exception, hcovers, rfl⟩ := unwind_ok call hunwind
      rw [hframe] at hcovers ⊢
      obtain ⟨-, -, hdepth⟩ := hfits.handlers handler hmem hcovers
      have henough := hfits.enough
      refine ⟨handler, hmem, hcovers, rfl, hdepth, ?_, ?_⟩ <;>
        simp only [Frame.handling, List.length_cons, List.length_drop] <;> omega

end Run

/-- Code that throws `"b"` from above `"a"`, to a handler that drops the exception and all but the lowest
of the slots it counts on. -/
def throwingCode (stackDepth : Nat) : Code where
  instructions := #[.const (.str "a"), .const (.str "b"), .throwTop]
    ++ (List.replicate stackDepth .pop).toArray ++ #[.ret .any]
  handlers := [{ first := 2, last := 3, target := 3, catches := none, stackDepth }]
  maxStack := 3

def throwingMethod (stackDepth : Nat) : MethodDef :=
  { name := "run", params := [], paramNames := [], ret := .any, isStatic := true
    isVariadic := false, code := some (throwingCode stackDepth) }

def throwingClass (stackDepth : Nat) : ClassFile :=
  { name := "t.T", superclass := "lang.Object", methods := [throwingMethod stackDepth] }

/-- The frame right before the exception. -/
def throwingFrame : Frame := { pc := 2, stack := [.str "b", .str "a"] }

/-- The frame in which the handler takes over. -/
def handlingFrame : Frame := { pc := 3, stack := [.str "b", .str "a"] }

/-- A handler that counts on one slot meets the exception on top of it. -/
theorem handler_depth_one :
    ∃ handler ∈ (throwingCode 1).handlers, handler.covers throwingFrame.pc = true ∧
      handlingFrame.pc = handler.target ∧
      depthAt (throwingMethod 1) (throwingCode 1) [] handlingFrame.pc
        = some (handler.stackDepth + 1) ∧
      handlingFrame.stack.length
        = min handler.stackDepth (throwingFrame.stack.length - (Effect.ops [.any] none).popped) + 1 ∧
      (handlingFrame.stack.length = handler.stackDepth + 1 ↔
        handler.stackDepth + (Effect.ops [.any] none).popped ≤ throwingFrame.stack.length) := by
  have hverified : Verifier.checkClass (throwingClass 1) = .ok () := rfl
  have hf : InOrder (throwingMethod 1) (throwingCode 1) [] throwingFrame := ⟨rfl, Nat.le_refl 0⟩
  have hloaded : 0 + ([] : List SiteSpec).length ≤ ({} : World).sites.size := Nat.le_refl 0
  have hfail : step noCaller ⟨throwingCode 1, [], 0⟩ .throwTop ⟨throwingFrame, {}⟩
      = .error (.error (Error.thrown (.str "b"))) ⟨{ pc := 2, stack := [.str "a"] }, {}⟩ := rfl
  have hunwind : unwind noCaller ⟨throwingCode 1, [], 0⟩ (Error.thrown (.str "b"))
      { pc := 2, stack := [.str "a"] } {} = .ok handlingFrame {} := rfl
  exact handler_depth_iff noCaller hverified (List.mem_singleton.2 rfl) rfl hf hloaded rfl rfl hfail
    hunwind

/-- A handler that counts on the operand of the instruction as well is accepted, but meets one slot less
than it was verified with. -/
theorem handler_meets_too_few :
    Verifier.checkClass (throwingClass 2) = .ok () ∧
      InOrder (throwingMethod 2) (throwingCode 2) [] throwingFrame ∧
      ∃ e s, step noCaller ⟨throwingCode 2, [], 0⟩ .throwTop ⟨throwingFrame, {}⟩
          = .error (.error e) s ∧
        e.isCatchable = true ∧
        unwind noCaller ⟨throwingCode 2, [], 0⟩ e s.frame s.world = .ok handlingFrame {} ∧
        handlingFrame.stack.length = 2 ∧
        depthAt (throwingMethod 2) (throwingCode 2) [] handlingFrame.pc = some 3 :=
  ⟨rfl, ⟨rfl, Nat.le_refl 0⟩, Error.thrown (.str "b"), ⟨{ pc := 2, stack := [.str "a"] }, {}⟩,
    rfl, rfl, rfl, rfl, rfl⟩

end LispMachine.Machine
