import LispMachine.CallSite.Target
import LispMachine.Host.Classes
import LispMachine.Registry.Hierarchy

/-!
# The world of a session

Everything a session changes: the classes, the namespaces with their vars, the heap of objects, the call
sites of loaded classes, what was printed, and the counter that new names are drawn from.  An `Action`
changes the world and may fail; the world keeps what was changed before a failure.  An object keeps the
layout its class had when it was made.
-/

namespace LispMachine

/-- A var: its root value, its properties, and how often it has been bound. -/
structure VarCell where
  space : String
  name : String
  root : Option Value := none
  flags : VarFlags := {}
  epoch : Nat := 0
deriving Inhabited

/-- What the names in a namespace stand for: vars, classes by their simple names, and other namespaces
by aliases. -/
structure Space where
  mappings : Table String VarRef := {}
  imports : Table String String := {}
  aliases : Table String String := {}
deriving Inhabited

/-- An object, with the class as it was registered when the object was made. -/
structure Instance where
  cls : ClassInfo
  fields : Array Value
deriving Inhabited

/-- A remark on a program that still runs. -/
structure Warning where
  message : String
  span : Option Span := none
deriving Inhabited

/-- Everything programs can see and change. -/
structure World where
  options : Options := {}
  registry : Registry := {}
  vars : Array VarCell := #[]
  spaces : Table String Space := {}
  /-- The current namespace. -/
  current : String := Names.userSpace
  counter : Nat := 0
  /-- The names that have been made up, in their order; a record that nothing reads. -/
  given : Array String := #[]
  /-- How many protocol functions have been made. -/
  dispatchers : Nat := 0
  objects : Array Instance := #[]
  sites : Array CallSite.LinkedSite := #[]
  output : String := ""
  warnings : Array Warning := #[]
deriving Inhabited

/-- Why an action gives no value. -/
inductive Fault where
  | error (e : Error)
  /-- The action was not allowed to go on for longer. -/
  | outOfFuel
deriving Inhabited

/-- What changes the world and may fail; a failure keeps the changes made before. -/
abbrev Action := EStateM Fault World

namespace Action

def fail {α : Type} (e : Error) : Action α := throw (.error e)

def ofExcept {α : Type} : Except Error α → Action α
  | .ok a => pure a
  | .error e => fail e

end Action

namespace World

/-! ### Text of values -/

/-- The text of an object: the contents of a tuple, the message of whatever has one, or the class
alone.  `fuel` bounds how deep objects hold one another. -/
def objectTextWithin (w : World) : Nat → ObjectRef → String
  | 0, o => "#<" ++ o.className ++ ">"
  | fuel + 1, o =>
    let field := fun (name : String) => (w.objects[o.id]?).bind fun i =>
      (i.cls.slot? name).bind fun slot => i.fields[slot]?
    if o.className = Names.tuple then
      "#<Tuple " ++ ((field "items").getD .nil).textWith (w.objectTextWithin fuel) ++ ">"
    else
      match field "message" with
      | some (.str message) => "#<" ++ o.className ++ " " ++ message ++ ">"
      | _ => "#<" ++ o.className ++ ">"

/-- The text of an object. -/
def objectText (w : World) (o : ObjectRef) : String := w.objectTextWithin (w.objects.size + 1) o

/-- The readable text of a value. -/
def textOf (w : World) (v : Value) : String := v.textWith w.objectText

/-- The text of a value with strings and characters bare. -/
def bareTextOf (w : World) (v : Value) : String := v.bareWith w.objectText

/-! ### Objects -/

/-- The object a reference stands for. -/
def instance? (w : World) (o : ObjectRef) : Option Instance := w.objects[o.id]?

/-- A new object with all fields `nil`. -/
def allocate (w : World) (cls : ClassInfo) : ObjectRef × World :=
  let made : Instance := { cls, fields := Array.replicate cls.layout.length .nil }
  ({ id := w.objects.size, className := cls.name }, { w with objects := w.objects.push made })

def noField (field cls : String) : Error := Error.linkage ("no field " ++ field ++ " on " ++ cls)

/-- The slot of a field of an object. -/
def slotOf (w : World) (o : ObjectRef) (field : String) : Except Error Nat :=
  match (w.instance? o).bind fun i => i.cls.slot? field with
  | some slot => .ok slot
  | none => .error (noField field o.className)

/-- The value of a field. -/
def getField (w : World) (o : ObjectRef) (field : String) : Except Error Value := do
  let slot ← w.slotOf o field
  return ((w.instance? o).bind fun i => i.fields[slot]?).getD .nil

/-- Writes a slot of an object. -/
def storeSlot (w : World) (o : ObjectRef) (slot : Nat) (v : Value) : World :=
  { w with objects :=
    w.objects.modify o.id fun i => { i with fields := i.fields.setIfInBounds slot v } }

end World

namespace Action

/-- Reads something off the world that may fail. -/
def read {α : Type} (f : World → Except Error α) : Action α := do ofExcept (f (← get))

/-- Changes the world by a function that gives a result too. -/
def change {α : Type} (f : World → α × World) : Action α := modifyGet f

/-- A new object with all fields `nil`. -/
def allocate (cls : ClassInfo) : Action ObjectRef := change fun w => w.allocate cls

/-- The value of a field. -/
def getField (o : ObjectRef) (field : String) : Action Value := read fun w => w.getField o field

/-- Changes a field. -/
def setField (o : ObjectRef) (field : String) (v : Value) : Action Unit := do
  let slot ← read fun w => w.slotOf o field
  modify fun w => w.storeSlot o slot v

end Action

end LispMachine
