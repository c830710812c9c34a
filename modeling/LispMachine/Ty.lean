import LispMachine.Names
import LispMachine.Text.Quoted

/-!
# Static types

The types of operands and local slots: the unknown type, no value at all, four primitives that are
kept unboxed, and references to a class.
-/

namespace LispMachine

/-- Types of unboxed values. -/
inductive Prim where
  | boolean
  | char
  | long
  | double
deriving DecidableEq, Inhabited

namespace Prim

/-- The class of the boxed values. -/
def wrapper : Prim → String
  | .boolean => Names.boolean
  | .char => Names.character
  | .long => Names.long
  | .double => Names.double

/-- The primitive whose boxed values have the given class. -/
def ofWrapper? (name : String) : Option Prim :=
  if name = Names.boolean then some .boolean
  else if name = Names.character then some .char
  else if name = Names.long then some .long
  else if name = Names.double then some .double
  else none

/-- The name in a hint. -/
def name : Prim → String
  | .boolean => "boolean"
  | .char => "char"
  | .long => "long"
  | .double => "double"

/-- The name in class images and listings. -/
def title : Prim → String
  | .boolean => "Boolean"
  | .char => "Char"
  | .long => "Long"
  | .double => "Double"

end Prim

/-- The types the compiler tells apart. -/
inductive Ty where
  /-- Statically unknown. -/
  | any
  /-- No value. -/
  | void
  | prim (p : Prim)
  | cls (name : String)
deriving DecidableEq, Inhabited

namespace Ty

def object : Ty := .cls Names.object
def string : Ty := .cls Names.string
def long : Ty := .prim .long
def double : Ty := .prim .double
def boolean : Ty := .prim .boolean
def char : Ty := .prim .char

/-- Operand-stack slots a value occupies. -/
def width : Ty → Nat
  | .void => 0
  | .prim .long => 2
  | .prim .double => 2
  | _ => 1

/-- A value of the type is unboxed. -/
def isPrimitive : Ty → Bool
  | .prim _ => true
  | _ => false

/-- A value of the type is boxed. -/
def isReference : Ty → Bool
  | .any => true
  | .cls _ => true
  | _ => false

/-- The class a primitive is boxed in. -/
def boxed : Ty → Ty
  | .prim p => .cls p.wrapper
  | t => t

/-- The primitive a class boxes. -/
def unboxed? : Ty → Option Prim
  | .prim p => some p
  | .cls name => Prim.ofWrapper? name
  | _ => none

/-- The class of a reference type. -/
def className? : Ty → Option String
  | .cls name => some name
  | _ => none

/-- The type a hint with a reserved name stands for. -/
def ofHint? (hint : String) : Option Ty :=
  if hint = "long" ∨ hint = "int" ∨ hint = "short" ∨ hint = "byte" then some .long
  else if hint = "double" ∨ hint = "float" then some .double
  else if hint = "boolean" then some .boolean
  else if hint = "char" then some .char
  else if hint = "void" then some .void
  else none

/-- The type as it is written. -/
def toText : Ty → String
  | .any => "Any"
  | .void => "void"
  | .prim p => p.name
  | .cls name => name

/-- The type with its structure spelled out. -/
def detail : Ty → String
  | .any => "Any"
  | .void => "Void"
  | .prim p => "Prim(" ++ p.title ++ ")"
  | .cls name => "Class(" ++ Text.quote name ++ ")"

/-- A list of types with their structure spelled out. -/
def details (ts : List Ty) : String := "[" ++ ", ".intercalate (ts.map detail) ++ "]"

end Ty

end LispMachine
