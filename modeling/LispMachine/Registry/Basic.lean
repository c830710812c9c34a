import LispMachine.ClassFile.Basic
import LispMachine.Table

/-!
# The class registry

Descriptors of classes and methods, and the table they are registered in.  Registering computes the
layout of instances: inherited fields first.  A later registration under a name replaces the earlier one.
-/

namespace LispMachine

/-- What the methods of the built-in classes do. -/
inductive HostMethod where
  | nothing | bareText | hash | equals
  | longValue | doubleValue | compareLong | sameLong | parseLong | isNaN | parseDouble
  | absLong | absDouble | maxLong | maxDouble | minLong | minDouble | sqrt
  | sameText | length | upperCase | lowerCase | trim | substringFrom | substring | indexOfText
  | indexOfChar | charAt | containsText | startsWith | concat
  | isDigit | keywordName | symbolName | symbolQualifier | patternSource | patternMatches
  | count | vectorItem | mapValue | setContains
  | className | spaceName | varValue | varIsBound
  | keepItems | tupleSize | tupleItem | keepMessage | message
deriving DecidableEq, Inhabited

/-- Where the work of a method is described. -/
inductive MethodBody where
  | host (m : HostMethod)
  /-- The method of the owning class file at this position. -/
  | code (index : Nat)
  | abstract
deriving DecidableEq, Inhabited

/-- A method or constructor that can be called. -/
structure Method where
  owner : String
  name : String
  params : List Ty
  ret : Ty
  isStatic : Bool := false
  isVariadic : Bool := false
  body : MethodBody
deriving DecidableEq, Inhabited

namespace Method

def isAbstract (m : Method) : Bool := m.body == .abstract

/-- The last parameter of a variadic method takes any number of arguments. -/
def accepts (m : Method) (n : Nat) : Bool :=
  if m.isVariadic then m.params.length ≤ n + 1 else n == m.params.length

/-- Owner, name, parameters and result as one text. -/
def signature (m : Method) : String :=
  m.owner ++ "." ++ m.name ++ "(" ++ ", ".intercalate (m.params.map Ty.toText)
    ++ (if m.isVariadic then "..." else "") ++ ")"

/-- Both methods are called with the same arguments. -/
def sameParams (m n : Method) : Bool := m.params == n.params && m.isVariadic == n.isVariadic

end Method

/-- A field of a class. -/
structure FieldInfo where
  name : String
  ty : Ty
  isStatic : Bool := false
  isMutable : Bool := true
  constant : Option Value := none
deriving Inhabited

/-- Where the code of a class comes from. -/
inductive ClassOrigin where
  | host
  /-- A class file, and the place of its first call site in the store. -/
  | loaded (file : ClassFile) (firstSite : Nat)
deriving Inhabited

/-- A class that is known to the machine. -/
structure ClassInfo where
  /-- Tells the registrations under one name apart. -/
  serial : Nat := 0
  name : String
  superclass : Option String
  interfaces : List String := []
  flags : ClassFlags := {}
  fields : List FieldInfo := []
  methods : List Method := []
  constructors : List Method := []
  /-- Names of the instance fields, inherited ones first. -/
  layout : List String := []
  origin : ClassOrigin := .host
deriving Inhabited

namespace ClassInfo

/-- The last slot with the given name. -/
def slot? (c : ClassInfo) (field : String) : Option Nat :=
  (c.layout.reverse.findIdx? (· == field)).map fun i => c.layout.length - 1 - i

/-- A field that the class itself declares. -/
def declaredField? (c : ClassInfo) (name : String) : Option FieldInfo :=
  c.fields.find? fun f => f.name == name

/-- The superclass, then the interfaces. -/
def parents (c : ClassInfo) : List String := c.superclass.toList ++ c.interfaces

/-- The class file of a class that was loaded. -/
def file? (c : ClassInfo) : Option ClassFile :=
  match c.origin with
  | .loaded file _ => some file
  | .host => none

end ClassInfo

/-- All classes by name. -/
structure Registry where
  classes : Table String ClassInfo := {}
  /-- The serial of the next registration. -/
  next : Nat := 0
deriving Inhabited

namespace Registry

def find? (r : Registry) (name : String) : Option ClassInfo := r.classes.find? name

def contains (r : Registry) (name : String) : Bool := r.classes.contains name

/-- Fields of the superclass, then the instance fields declared here. -/
def layoutOf (inherited : List String) (fields : List FieldInfo) : List String :=
  inherited ++ (fields.filter fun f => !f.isStatic).map FieldInfo.name

/-- Adds a class; its parents have to be there. -/
def register (r : Registry) (c : ClassInfo) : Except Error (ClassInfo × Registry) := do
  let inherited ← match c.superclass with
    | none => pure []
    | some sup =>
      match r.find? sup with
      | some s => pure s.layout
      | none => throw (Error.linkage ("unknown superclass " ++ sup ++ " of " ++ c.name))
  match c.interfaces.find? fun i => !r.contains i with
  | some i => throw (Error.linkage ("unknown interface " ++ i ++ " of " ++ c.name))
  | none =>
    let c := { c with serial := r.next, layout := layoutOf inherited c.fields }
    return (c, { classes := r.classes.insert c.name c, next := r.next + 1 })

/-- Puts back what stood under a name before. -/
def reinstate (r : Registry) (name : String) (previous : Option ClassInfo) : Registry :=
  { r with classes := match previous with
    | some c => r.classes.insert name c
    | none => r.classes.erase name }

/-- All names, in ascending order. -/
def names (r : Registry) : List String := Value.sortTexts r.classes.keys

end Registry

end LispMachine
