import LispMachine.Bytecode.Instruction

/-!
# The operand stack at compile time

The compiler follows the operand stack by types.  A record stands for one value; depth counts machine
slots, so that it compares with what the verifier computes.  An unreachable record says that control
never gets here: effects then change nothing.
-/

namespace LispMachine

/-- What the compiler knows of one value on the stack; behind code that never ends normally there is
an unreachable one. -/
inductive StackRecord where
  | typed (ty : Ty) (isConstant : Bool)
  | unreachable
deriving DecidableEq, Inhabited

namespace StackRecord

/-- Machine slots a value takes. -/
def width : StackRecord → Nat
  | .typed ty _ => ty.width
  | .unreachable => 0

/-- The record with its structure spelled out. -/
def detail : StackRecord → String
  | .typed ty isConstant =>
    "Typed \x7b ty: " ++ ty.detail ++ ", is_constant: "
      ++ (if isConstant then "true" else "false") ++ " \x7d"
  | .unreachable => "Unreachable"

end StackRecord

/-- Records with the top first, and the greatest depth seen. -/
structure TypeStack where
  records : List StackRecord := []
  max : Nat := 0
deriving DecidableEq, Inhabited

namespace TypeStack

/-- Machine slots of several values. -/
def slots (records : List StackRecord) : Nat := (records.map StackRecord.width).foldr (· + ·) 0

/-- Depth in machine slots. -/
def depth (s : TypeStack) : Nat := slots s.records

/-- How many values there are. -/
def size (s : TypeStack) : Nat := s.records.length

/-- Control does not get here. -/
def isUnreachable (s : TypeStack) : Bool := s.records.contains .unreachable

/-- The stack with the given records; the greatest depth counts on. -/
def withRecords (s : TypeStack) (records : List StackRecord) : TypeStack :=
  { records, max := Nat.max s.max (slots records) }

/-- Puts a value on top. -/
def push (s : TypeStack) (ty : Ty) (isConstant : Bool) : TypeStack :=
  s.withRecords (.typed ty isConstant :: s.records)

/-- Records that control does not get here. -/
def pushUnreachable (s : TypeStack) : TypeStack :=
  { s with records := .unreachable :: s.records }

def underflow : Error := Error.internal "compile-time operand stack underflow"

/-- The record on top. -/
def peek? (s : TypeStack) : Option StackRecord := s.records.head?

/-- The type of the top value, if it can be reached. -/
def topType? (s : TypeStack) : Option Ty :=
  match s.records with
  | .typed ty _ :: _ => some ty
  | _ => none

/-- The top value is known at compile time. -/
def topIsConstant (s : TypeStack) : Bool :=
  match s.records with
  | .typed _ isConstant :: _ => isConstant
  | _ => false

/-- The type of a value that is used as an operand. -/
def recordType : StackRecord → Except Error Ty
  | .typed ty _ => .ok ty
  | .unreachable => .error (Error.internal "unreachable value used as operand")

/-- Types of the top `n` values, the deepest first. -/
def topTypes (s : TypeStack) (n : Nat) : Except Error (List Ty) :=
  if s.records.length < n then .error underflow
  else (s.records.take n).reverse.mapM recordType

/-- Flags the top value as a constant. -/
def markConstant (s : TypeStack) : TypeStack :=
  match s.records with
  | .typed ty _ :: rest => { s with records := .typed ty true :: rest }
  | _ => s

/-- Takes the top off. -/
def pop (s : TypeStack) : Except Error StackRecord × TypeStack :=
  match s.records with
  | r :: rest => (.ok r, { s with records := rest })
  | [] => (.error underflow, s)

/-- Gives the top value another type; it is no longer constant. -/
def replaceTop (s : TypeStack) (ty : Ty) : Except Error Unit × TypeStack :=
  match s.pop with
  | (.ok _, s) => (.ok (), s.push ty false)
  | (.error e, s) => (.error e, s)

def widthMismatch (expected : Ty) (found : StackRecord) : Error :=
  Error.internal
    ("operand width mismatch: expected " ++ expected.toText ++ ", found " ++ found.detail)

/-- Pops operands, the first type being that of the top.  What was popped before a mismatch stays
popped. -/
def popAll (s : TypeStack) : List Ty → Except Error Unit × TypeStack
  | [] => (.ok (), s)
  | expected :: rest =>
    match s.pop with
    | (.error e, s) => (.error e, s)
    | (.ok found, s) =>
      if found.width ≠ expected.width then (.error (widthMismatch expected found), s)
      else s.popAll rest

/-- What an effect does to the stack; widths have to agree exactly. -/
def apply (s : TypeStack) (effect : Effect) : Except Error Unit × TypeStack :=
  if s.isUnreachable then (.ok (), s)
  else
    match effect with
    | .dupTop =>
      match s.records with
      | [] => (.error (Error.internal "dup on empty stack"), s)
      | top :: _ =>
        if top.width ≠ 1 then (.error (Error.internal "dup of a wide value"), s)
        else (.ok (), s.withRecords (top :: s.records))
    | .ops pops result =>
      match s.popAll pops.reverse with
      | (.error e, s) => (.error e, s)
      | (.ok (), s) =>
        match result with
        | some ty => (.ok (), s.push ty false)
        | none => (.ok (), s)

end TypeStack

end LispMachine
