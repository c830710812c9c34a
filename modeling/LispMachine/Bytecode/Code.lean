import LispMachine.Bytecode.Instruction

/-!
# Code

A finished method body: instructions, where each label stands, the ranges exceptions are handled in, and
the local variables for listings.
-/

namespace LispMachine

/-- Sends exceptions raised between `first` and `last` (exclusive) to `target`. -/
structure Handler where
  first : Nat
  last : Nat
  target : Nat
  /-- The class of exceptions handled; without one, all that can be caught. -/
  catches : Option String
  /-- The slots the handler expects below the exception. -/
  stackDepth : Nat
deriving DecidableEq, Inhabited

namespace Handler

/-- The handler is in force at a position. -/
def covers (h : Handler) (pc : Nat) : Bool := h.first ≤ pc && pc < h.last

end Handler

/-- A named local slot and the range it is in use. -/
structure LocalVar where
  name : String
  slot : Nat
  ty : Ty
  first : Nat
  last : Nat
deriving DecidableEq, Inhabited

/-- The code of a method: instructions, label positions, exception handlers, described locals, and
the room it needs. -/
structure Code where
  instructions : Array Instruction := #[]
  /-- The position of each label; a label that stands nowhere is `none`. -/
  labels : Array (Option Nat) := #[]
  handlers : List Handler := []
  localVars : List LocalVar := []
  maxStack : Nat := 0
  maxLocals : Nat := 0
deriving Inhabited

/-- The position of a label that stands nowhere: no code is that long. -/
def unplacedPosition : Nat := 0xffffffffffffffff

namespace Code

/-- Where a label stands. -/
def position? (code : Code) (label : Label) : Option Nat := (code.labels[label]?).join

/-- Equality; doubles in constants compare as numbers. -/
def same (a b : Code) : Bool :=
  a.instructions.size == b.instructions.size
    && (a.instructions.toList.zip b.instructions.toList).all (fun p => p.1.same p.2)
    && a.labels == b.labels && a.handlers == b.handlers && a.localVars == b.localVars
    && a.maxStack == b.maxStack && a.maxLocals == b.maxLocals

end Code

end LispMachine
