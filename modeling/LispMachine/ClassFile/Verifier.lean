import LispMachine.ClassFile.Basic
import LispMachine.Bytecode.Listing

/-!
# Verifying code

Before a class is defined its code is checked by depth alone: every reachable instruction is visited with
the operand-stack depth, in slots, that it would see, and all paths into an instruction have to agree on
that depth.  `maxStack` is the deepest stack any path needs.
-/

namespace LispMachine.Verifier

/-- Why code is refused. -/
inductive Fault where
  | underflow (pc : Nat)
  | depthMismatch (pc expected found : Nat)
  | badLabel (pc : Nat) (label : Label)
  | badLocal (pc slot : Nat)
  | fallOff
  | stackOverflow (needed declared : Nat)
  | badHandler (index : Nat)
  | tooFewLocals (declared needed : Nat)
  | noEffect (pc : Nat) (instruction : Instruction)

namespace Fault

/-- The text of a fault. -/
def message : Fault → String
  | .underflow pc => "stack underflow at " ++ toString pc
  | .depthMismatch pc expected found =>
    "inconsistent stack depth at " ++ toString pc ++ " (" ++ toString expected ++ " vs "
      ++ toString found ++ ")"
  | .badLabel pc label =>
    "branch to unplaced label L" ++ toString label ++ " at " ++ toString pc
  | .badLocal pc slot => "local slot " ++ toString slot ++ " out of range at " ++ toString pc
  | .fallOff => "control falls off the end of the code"
  | .stackOverflow needed declared =>
    "needs " ++ toString needed ++ " stack slots, declares " ++ toString declared
  | .badHandler index => "bad exception handler " ++ toString index
  | .tooFewLocals declared needed =>
    "max_locals " ++ toString declared ++ " below " ++ toString needed ++ " parameter slots"
  | .noEffect pc i => "no stack effect for " ++ Listing.instruction i ++ " at " ++ toString pc

end Fault

/-- Slots an instruction pops and pushes at a depth. -/
def delta? (i : Instruction) (sites : List SiteSpec) (depth : Nat) : Option (Nat × Nat) :=
  match i.effect sites with
  | .error _ => none
  | .ok .dupTop => if 1 ≤ depth then some (0, 1) else none
  | .ok (.ops pops push) => some ((pops.map Ty.width).foldr (· + ·) 0, (push.map Ty.width).getD 0)

/-- Where a label stands, if that is inside the code or right behind it. -/
def target (code : Code) (pc : Nat) (l : Label) : Except Fault Nat :=
  match code.position? l with
  | some t => if t ≤ code.instructions.size then .ok t else .error (.badLabel pc l)
  | none => .error (.badLabel pc l)

/-- Depths found so far, positions still to visit, and the deepest stack seen. -/
structure Progress where
  depths : Array (Option Nat)
  queue : List Nat
  max : Nat

namespace Progress

/-- Records the depth at a position, which has to be the one recorded before. -/
def visit (p : Progress) (pc depth : Nat) : Except Fault Progress :=
  match (p.depths[pc]?).join with
  | some expected =>
    if expected = depth then .ok p else .error (.depthMismatch pc expected depth)
  | none =>
    .ok { p with depths := p.depths.setIfInBounds pc (some depth), queue := p.queue ++ [pc] }

/-- Raises the deepest stack seen. -/
def reach (p : Progress) (depth : Nat) : Progress := { p with max := Nat.max p.max depth }

/-- Visits the handlers that cover a position. -/
def visitHandlers (pc depth : Nat) : List Handler → Progress → Except Fault Progress
  | [], p => .ok p
  | h :: hs, p =>
    if h.covers pc then
      if depth < h.stackDepth then .error (.depthMismatch pc h.stackDepth depth)
      else do
        let p ← (p.reach (h.stackDepth + 1)).visit h.target (h.stackDepth + 1)
        visitHandlers pc depth hs p
    else visitHandlers pc depth hs p

/-- Visits the positions of labels. -/
def visitTargets (code : Code) (pc depth : Nat) : List Label → Progress → Except Fault Progress
  | [], p => .ok p
  | l :: ls, p => do
    let t ← target code pc l
    let p ← p.visit t depth
    visitTargets code pc depth ls p

end Progress

/-- The local slot an instruction uses has to be among those declared. -/
def checkSlot (code : Code) (pc : Nat) (i : Instruction) : Except Fault Unit :=
  match i.slot? with
  | some slot => if code.maxLocals ≤ slot then .error (.badLocal pc slot) else .ok ()
  | none => .ok ()

/-- Visits what can follow the instruction at a position. -/
def step (code : Code) (sites : List SiteSpec) (pc : Nat) (p : Progress) : Except Fault Progress := do
  let depth := ((p.depths[pc]?).join).getD 0
  let p := p.reach depth
  match code.instructions[pc]? with
  | none => .error .fallOff
  | some i =>
    let p ← p.visitHandlers pc depth code.handlers
    checkSlot code pc i
    match delta? i sites depth with
    | none => .error (.noEffect pc i)
    | some (popped, pushed) =>
      if depth < popped then .error (.underflow pc)
      else
        let after := depth - popped + pushed
        let p ← (p.reach after).visitTargets code pc after i.targets
        if i.endsBlock then return p else p.visit (pc + 1) after

/-- Visits the queued positions in order.  A position enters the queue at most once, so the number of
positions is fuel enough. -/
def explore (code : Code) (sites : List SiteSpec) : Nat → Progress → Except Fault Progress
  | 0, p => .ok p
  | fuel + 1, p =>
    match p.queue with
    | [] => .ok p
    | pc :: queue => do
      let p ← step code sites pc { p with queue }
      explore code sites fuel p

/-- The positions of a handler lie in the code. -/
def handlerFits (code : Code) (h : Handler) : Bool :=
  h.first ≤ h.last && h.last ≤ code.instructions.size && h.target < code.instructions.size

/-- What is known of code of a given size before any of it is visited. -/
def Progress.initial (size : Nat) : Progress := ⟨Array.replicate (size + 1) none, [], 0⟩

/-- Local slots the receiver and the parameters take. -/
def parameterSlots (m : MethodDef) : Nat := m.params.length + if m.isStatic then 0 else 1

/-- All that the work list finds out about the code of a method. -/
def survey (m : MethodDef) (code : Code) (sites : List SiteSpec) : Except Fault Progress :=
  if code.maxLocals < parameterSlots m then
    .error (.tooFewLocals code.maxLocals (parameterSlots m))
  else
    match code.handlers.findIdx? fun h => !handlerFits code h with
    | some index => .error (.badHandler index)
    | none => do
      let size := code.instructions.size
      let p ← (Progress.initial size).visit 0 0
      explore code sites (size + 2) p

/-- The deepest operand stack any path needs. -/
def maxStack (m : MethodDef) (code : Code) (sites : List SiteSpec) : Except Fault Nat :=
  (survey m code sites).map Progress.max

/-- Checks the code of a method against the stack it declares. -/
def checkMethod (m : MethodDef) (sites : List SiteSpec) : Except Fault Unit :=
  match m.code with
  | none => .ok ()
  | some code => do
    let needed ← maxStack m code sites
    if code.maxStack < needed then throw (.stackOverflow needed code.maxStack)

/-- A fault as an error about a method. -/
def Fault.toError (cls method : String) (f : Fault) : Error :=
  Error.classFormat (cls ++ "." ++ method ++ ": " ++ f.message)

/-- Checks all methods of a class. -/
def checkClass (c : ClassFile) : Except Error Unit :=
  c.methods.forM fun m => (checkMethod m c.sites).mapError (Fault.toError c.name m.name)

end LispMachine.Verifier
