import LispMachine.Bytecode.Code

/-!
# Code under construction

Instructions in order, interleaved with labels and with holes that are filled once later code is known.
`CodeBuffer.finish` lays everything out and turns labels into positions; it fails exactly when a label
in use was never placed.
-/

namespace LispMachine

/-- A position left open, by number. -/
abbrev Hole := Nat

namespace CodeBuffer

/-- What code under construction consists of. -/
inductive Item where
  | instruction (i : Instruction)
  | label (l : Label)
  | hole (h : Hole)
deriving Inhabited

/-- A handler whose range is still given by labels. -/
structure PendingHandler where
  first : Label
  last : Label
  target : Label
  catches : Option String
  stackDepth : Nat

/-- A local variable whose range is still given by labels. -/
structure PendingLocal where
  name : String
  slot : Nat
  ty : Ty
  first : Label
  last : Label

/-- A slot that was given out or given back when the code had so many items. -/
inductive Transfer where
  | taken (slot position : Nat)
  | given (slot position : Nat)
deriving Inhabited

end CodeBuffer

open CodeBuffer in
/-- Code under construction. -/
structure CodeBuffer where
  items : Array Item := #[]
  labels : Nat := 0
  /-- What each hole is filled with. -/
  holes : Array (List Instruction) := #[]
  handlers : Array PendingHandler := #[]
  locals : Array PendingLocal := #[]
  nextSlot : Nat := 0
  /-- Slots given back, the latest first. -/
  freeSlots : List Nat := []
  /-- The slots given out and given back so far, the latest first.  No code depends on it: it is kept as an
  account of the slots. -/
  transfers : List Transfer := []
  /-- Control does not reach the end of the code. -/
  dead : Bool := false
deriving Inhabited

namespace CodeBuffer

/-- An empty buffer; the first `reserved` slots are never given out. -/
def withReserved (reserved : Nat) : CodeBuffer := { nextSlot := reserved }

/-- Appends an instruction. -/
def push (b : CodeBuffer) (i : Instruction) : CodeBuffer :=
  { b with items := b.items.push (.instruction i), dead := i.endsBlock }

/-- A label that stands nowhere yet. -/
def newLabel (b : CodeBuffer) : Label × CodeBuffer := (b.labels, { b with labels := b.labels + 1 })

/-- Puts a label at the current position. -/
def place (b : CodeBuffer) (l : Label) : CodeBuffer :=
  { b with items := b.items.push (.label l), dead := false }

/-- A new label at the current position. -/
def here (b : CodeBuffer) : Label × CodeBuffer :=
  let (l, b) := b.newLabel
  (l, b.place l)

/-- Leaves a hole at the current position. -/
def hole (b : CodeBuffer) : Hole × CodeBuffer :=
  (b.holes.size, { b with items := b.items.push (.hole b.holes.size), holes := b.holes.push [] })

/-- Sets what a hole is filled with. -/
def fill (b : CodeBuffer) (h : Hole) (code : List Instruction) : CodeBuffer :=
  { b with holes := b.holes.setIfInBounds h code }

/-- Registers a handler for the code between two labels; of two that cover a position the earlier is
in force. -/
def addHandler (b : CodeBuffer) (first last target : Label) (catches : Option String)
    (stackDepth : Nat) : CodeBuffer :=
  { b with handlers := b.handlers.push { first, last, target, catches, stackDepth } }

/-- A slot that is not in use. -/
def allocSlot (b : CodeBuffer) : Nat × CodeBuffer :=
  match b.freeSlots with
  | s :: rest => (s, { b with freeSlots := rest, transfers := .taken s b.items.size :: b.transfers })
  | [] =>
    (b.nextSlot, { b with
      nextSlot := b.nextSlot + 1
      transfers := .taken b.nextSlot b.items.size :: b.transfers })

/-- Gives a slot back. -/
def freeSlot (b : CodeBuffer) (s : Nat) : CodeBuffer :=
  if b.freeSlots.contains s then { b with transfers := .given s b.items.size :: b.transfers }
  else { b with freeSlots := s :: b.freeSlots, transfers := .given s b.items.size :: b.transfers }

/-- Notes the name and the type of a slot between two labels. -/
def describeLocal (b : CodeBuffer) (name : String) (slot : Nat) (ty : Ty) (first last : Label) :
    CodeBuffer :=
  { b with locals := b.locals.push { name, slot, ty, first, last } }

/-! ### Layout -/

/-- Instructions laid out so far, what is left of the holes, and label positions. -/
structure Layout where
  instructions : Array Instruction
  holes : Array (List Instruction)
  labels : Array (Option Nat)

/-- Lays one item out; a hole is used up by its first place. -/
def Layout.add (out : Layout) : Item → Layout
  | .instruction i => { out with instructions := out.instructions.push i }
  | .label l => { out with labels := out.labels.setIfInBounds l (some out.instructions.size) }
  | .hole h =>
    { out with
      instructions := out.instructions ++ (out.holes[h]?.getD []).toArray
      holes := out.holes.setIfInBounds h [] }

/-- Lays the items out in order. -/
def layout (b : CodeBuffer) : Layout :=
  b.items.foldl Layout.add ⟨#[], b.holes, Array.replicate b.labels none⟩

/-- The position of a label that is in use. -/
def resolve (labels : Array (Option Nat)) (l : Label) : Except Error Nat :=
  match (labels[l]?).join with
  | some pc => .ok pc
  | none => .error (Error.internal ("label L" ++ toString l ++ " never placed"))

/-- A handler with its labels replaced by positions. -/
def resolveHandler (labels : Array (Option Nat)) (h : PendingHandler) : Except Error Handler := do
  return { first := ← resolve labels h.first, last := ← resolve labels h.last,
           target := ← resolve labels h.target, catches := h.catches, stackDepth := h.stackDepth }

/-- A described local with its labels replaced by positions. -/
def resolveLocal (labels : Array (Option Nat)) (v : PendingLocal) : Except Error LocalVar := do
  return { name := v.name, slot := v.slot, ty := v.ty,
           first := ← resolve labels v.first, last := ← resolve labels v.last }

/-- All labels in use have to stand somewhere. -/
def checkLabels (labels : Array (Option Nat)) : List Label → Except Error Unit
  | [] => .ok ()
  | l :: rest => do
    let _ ← resolve labels l
    checkLabels labels rest

/-- The finished code. -/
def finish (b : CodeBuffer) (maxStack : Nat) : Except Error Code := do
  let out := b.layout
  checkLabels out.labels (out.instructions.toList.flatMap Instruction.targets)
  let handlers ← b.handlers.toList.mapM (resolveHandler out.labels)
  let localVars ← b.locals.toList.mapM (resolveLocal out.labels)
  return { instructions := out.instructions, labels := out.labels, handlers, localVars, maxStack,
           maxLocals := b.nextSlot }

end CodeBuffer

end LispMachine
