import LispMachine.Bytecode.Code

/-!
# Class files

What the compiler makes of a class: its place in the hierarchy, fields, methods with their code, and the
call sites the code refers to.
-/

namespace LispMachine

/-- What a class may be used for. -/
structure ClassFlags where
  isFinal : Bool := false
  isInterface : Bool := false
  isAbstract : Bool := false
deriving DecidableEq, Inhabited

/-- A field of a class file. -/
structure FieldDef where
  name : String
  ty : Ty
  isStatic : Bool
  isMutable : Bool
  constant : Option Constant := none
deriving Inhabited

/-- A method of a class file; constructors are methods of a reserved name. -/
structure MethodDef where
  name : String
  params : List Ty
  paramNames : List String
  ret : Ty
  isStatic : Bool
  isVariadic : Bool
  /-- Abstract methods have none. -/
  code : Option Code
deriving Inhabited

/-- A class as the compiler emits it. -/
structure ClassFile where
  name : String
  superclass : String
  interfaces : List String := []
  flags : ClassFlags := {}
  fields : List FieldDef := []
  methods : List MethodDef := []
  sites : List SiteSpec := []
  source : Option String := none
deriving Inhabited

/-- Equality of what may be absent. -/
def sameOption {α : Type} (same : α → α → Bool) : Option α → Option α → Bool
  | none, none => true
  | some a, some b => same a b
  | _, _ => false

/-- Equality item by item. -/
def sameList {α : Type} (same : α → α → Bool) : List α → List α → Bool
  | [], [] => true
  | a :: as, b :: bs => same a b && sameList same as bs
  | _, _ => false

/-- Equality; doubles in constants compare as numbers. -/
def FieldDef.same (a b : FieldDef) : Bool :=
  a.name == b.name && a.ty == b.ty && a.isStatic == b.isStatic && a.isMutable == b.isMutable
    && sameOption Constant.same a.constant b.constant

/-- Equality; doubles in constants compare as numbers. -/
def MethodDef.same (a b : MethodDef) : Bool :=
  a.name == b.name && a.params == b.params && a.paramNames == b.paramNames && a.ret == b.ret
    && a.isStatic == b.isStatic && a.isVariadic == b.isVariadic
    && sameOption Code.same a.code b.code

namespace ClassFile

/-- Equality; doubles in constants compare as numbers. -/
def same (a b : ClassFile) : Bool :=
  a.name == b.name && a.superclass == b.superclass && a.interfaces == b.interfaces
    && a.flags == b.flags && sameList FieldDef.same a.fields b.fields
    && sameList MethodDef.same a.methods b.methods && sameList SiteSpec.same a.sites b.sites
    && a.source == b.source

/-- The position of the first method of a name. -/
def methodIndex? (c : ClassFile) (name : String) : Option Nat :=
  c.methods.findIdx? fun m => m.name == name

end ClassFile

end LispMachine
