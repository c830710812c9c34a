import LispMachine.ClassFile.Image
import LispMachine.ClassFile.Verifier
import LispMachine.Machine.Call

/-!
# Defining classes

A class is loaded from its image: the image is read back, its code is verified if the options say so, and
the class is registered with one cold call site for each specification.
-/

namespace LispMachine.Machine

/-- The value a static field starts with. -/
def fieldConstant : Constant → Option Value
  | .nil => some .nil
  | .bool b => some (.bool b)
  | .char c => some (.char c)
  | .long n => some (.int n)
  | .double x => some (.float x)
  | .str s => some (.str s)
  | .keyword k => some (.keywordNamed k)
  | _ => none

def fieldInfo (f : FieldDef) : FieldInfo :=
  { name := f.name, ty := f.ty, isStatic := f.isStatic, isMutable := f.isMutable
    constant := f.constant.bind fieldConstant }

/-- The descriptor of the method at a position of a class file. -/
def methodInfo (owner : String) (m : MethodDef) (index : Nat) : Method :=
  { owner, name := m.name, params := m.params, ret := m.ret, isStatic := m.isStatic
    isVariadic := m.isVariadic, body := if m.code.isSome then .code index else .abstract }

/-- The descriptor of a class file whose call sites start at `firstSite`. -/
def classInfo (file : ClassFile) (firstSite : Nat) : ClassInfo :=
  let methods := file.methods.zipIdx.map fun (m, i) => methodInfo file.name m i
  { name := file.name, superclass := some file.superclass, interfaces := file.interfaces
    flags := file.flags, fields := file.fields.map fieldInfo
    methods := methods.filter fun m => m.name != Names.constructor
    constructors := methods.filter fun m => m.name == Names.constructor
    origin := .loaded file firstSite }

/-- Registers a class file. -/
def registerFile (file : ClassFile) : Action ClassInfo := do
  let w ← get
  let (cls, registry) ← Action.ofExcept (w.registry.register (classInfo file w.sites.size))
  modify fun w =>
    { w with registry, sites := file.sites.foldl (fun sites spec => sites.push { spec }) w.sites }
  return cls

/-- Defines the class of an image. -/
def defineImage [Libraries] (bytes : List UInt8) : Action ClassInfo := do
  let file ← Action.ofExcept (ClassFile.ofBytes bytes)
  if (← get).options.verifyClasses then Action.ofExcept (Verifier.checkClass file)
  registerFile file

/-- Defines a class by way of its image. -/
def defineClass [Libraries] (file : ClassFile) : Action ClassInfo := defineImage file.toBytes

end LispMachine.Machine
