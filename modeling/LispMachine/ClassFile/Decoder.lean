import LispMachine.ClassFile.Encoder
import LispMachine.Json.Shape

/-!
# Class files from JSON

Reads back what the encoder writes.  Members may come in any order, unknown ones are ignored, and
numbers have to fit the width they are kept in.
-/

namespace LispMachine

namespace Json

/-- A member that has to be there and to decode. -/
def field? {α : Type} (key : String) (decode : Json → Option α) (j : Json) : Option α :=
  (j.member? key).bind decode

/-- A member that may be absent or `null`, and has to decode otherwise. -/
def optionalField? {α : Type} (key : String) (decode : Json → Option α) (j : Json) :
    Option (Option α) :=
  match j.optional? key with
  | none => some none
  | some v => (decode v).map some

/-- An array whose items all decode. -/
def list? {α : Type} (decode : Json → Option α) (j : Json) : Option (List α) :=
  j.arr?.bind fun items => items.mapM decode

/-- A number below `2 ^ bits`. -/
def word? (bits : Nat) (j : Json) : Option Nat :=
  j.nat?.bind fun n => if n < Nat.pow 2 bits then some n else none

/-- A number that fits a signed 64-bit word. -/
def int64? (j : Json) : Option Int64 :=
  j.int?.bind fun n => if -0x8000000000000000 ≤ n && n < 0x8000000000000000 then some (Int64.ofInt n) else none

/-- A text of exactly one character. -/
def char? (j : Json) : Option Char :=
  match j.str?.map String.toList with
  | some [c] => some c
  | _ => none

end Json

def Prim.ofJson? (j : Json) : Option Prim :=
  j.str?.bind fun s => [Prim.boolean, .char, .long, .double].find? fun p => p.title == s

def Ty.ofJson? (j : Json) : Option Ty :=
  match j.variant? with
  | some ("Any", none) => some .any
  | some ("Void", none) => some .void
  | some ("Prim", some p) => (Prim.ofJson? p).map .prim
  | some ("Class", some c) => c.str?.map .cls
  | _ => none

def Span.ofJson? (j : Json) : Option Span := do
  return { line := ← j.field? "line" (Json.word? 64), col := ← j.field? "col" (Json.word? 64),
           index := ← j.field? "index" (Json.word? 64) }

def Atom.ofJson? (j : Json) : Option Atom :=
  match j.variant? with
  | some ("Nil", none) => some .nil
  | some ("Bool", some b) => b.bool?.map .bool
  | some ("Char", some c) => c.char?.map .char
  | some ("Int", some n) => n.int64?.map .int
  | some ("Float", some x) => x.float?.map .float
  | some ("Str", some s) => s.str?.map .str
  | some ("Regex", some s) => s.str?.map .regex
  | some ("Keyword", some s) => s.str?.map .keyword
  | some ("Symbol", some s) => s.str?.map .symbol
  | _ => none

namespace Datum

def infoOfJson? (j : Json) : Option Info := do
  let span ← j.field? "span" Span.ofJson?
  let hint ← j.optionalField? "type_hint" Json.str?
  let flags ← match j.member? "flags" with
    | none => some []
    | some fs => fs.list? Json.str?
  return { span, hint, flags }

/-- A datum; `depth` bounds how deep it nests. -/
def ofJsonWithin? : Nat → Json → Option Datum
  | 0, _ => none
  | depth + 1, j => do
    let info ← infoOfJson? j
    let contents ← j.member? "kind"
    match contents.variant? with
    | some ("List", some items) =>
      (items.list? (ofJsonWithin? depth)).map fun ds => .list ds info
    | some ("Vector", some items) =>
      (items.list? (ofJsonWithin? depth)).map fun ds => .vector ds info
    | some ("Set", some items) =>
      (items.list? (ofJsonWithin? depth)).map fun ds => .set ds info
    | some ("Map", some entries) =>
      (entries.list? (pairOfJson? (ofJsonWithin? depth))).map fun es => .map es info
    | _ => (Atom.ofJson? contents).map fun a => .atom a info
where
  /-- A pair of data in an array. -/
  pairOfJson? (decode : Json → Option Datum) (j : Json) : Option (Datum × Datum) :=
    match j with
    | .arr [k, v] => do return (← decode k, ← decode v)
    | _ => none

def ofJson? (j : Json) : Option Datum := ofJsonWithin? (j.depth + 1) j

end Datum

def CollectionKind.ofJson? (j : Json) : Option CollectionKind :=
  j.str?.bind fun s => [CollectionKind.list, .vector, .map, .set].find? fun k => k.title == s

def Constant.ofJson? (j : Json) : Option Constant :=
  match j.variant? with
  | some ("Nil", none) => some .nil
  | some ("Bool", some b) => b.bool?.map .bool
  | some ("Char", some c) => c.char?.map .char
  | some ("Long", some n) => n.int64?.map .long
  | some ("Double", some x) => x.float?.map .double
  | some ("Str", some s) => s.str?.map .str
  | some ("Keyword", some s) => s.str?.map .keyword
  | some ("Symbol", some s) => s.str?.map .symbol
  | some ("Regex", some s) => s.str?.map .regex
  | some ("Class", some s) => s.str?.map .cls
  | some ("Namespace", some s) => s.str?.map .nameSpace
  | some ("Quoted", some d) => (Datum.ofJson? d).map .quoted
  | _ => none

def VarFlags.ofJson? (j : Json) : Option VarFlags := do
  return { isFinal := ← j.field? "is_final" Json.bool?
           isExpander := ← j.field? "is_macro" Json.bool?
           isDynamic := ← j.field? "is_dynamic" Json.bool?
           isPrivate := ← j.field? "is_private" Json.bool? }

def labelOfJson? (j : Json) : Option Label := j.word? 32

def slotOfJson? (j : Json) : Option Nat := j.word? 16

namespace Instruction

/-- An instruction without operands. -/
def ofName? : String → Option Instruction
  | "Nop" => some .nop
  | "Truthy" => some .truthy
  | "HashCode" => some .hashCode
  | "Equiv" => some .equiv
  | "Pop" => some .pop
  | "Pop2" => some .pop2
  | "Dup" => some .dup
  | "Throw" => some .throwTop
  | _ => none

def tysOfJson? (j : Json) : Option (List Ty) := j.list? Ty.ofJson?

/-- An instruction with operands. -/
def ofOperands? (tag : String) (j : Json) : Option Instruction :=
  match tag with
  | "Const" => (Constant.ofJson? j).map .const
  | "Load" => do return .load (← j.field? "slot" slotOfJson?) (← j.field? "ty" Ty.ofJson?)
  | "Store" => do return .store (← j.field? "slot" slotOfJson?) (← j.field? "ty" Ty.ofJson?)
  | "GetField" => do
    return .getField (← j.field? "owner" Json.str?) (← j.field? "name" Json.str?)
      (← j.field? "ty" Ty.ofJson?)
  | "PutField" => do
    return .putField (← j.field? "owner" Json.str?) (← j.field? "name" Json.str?)
      (← j.field? "ty" Ty.ofJson?)
  | "GetStatic" => do
    return .getStatic (← j.field? "owner" Json.str?) (← j.field? "name" Json.str?)
      (← j.field? "ty" Ty.ofJson?)
  | "VarRef" => do return .varRef (← j.field? "ns" Json.str?) (← j.field? "name" Json.str?)
  | "DefVar" => do
    return .defVar (← j.field? "ns" Json.str?) (← j.field? "name" Json.str?)
      (← j.field? "flags" VarFlags.ofJson?) (← j.field? "init" Json.bool?)
  | "SetVar" => do return .setVar (← j.field? "ns" Json.str?) (← j.field? "name" Json.str?)
  | "InvokeDynamic" => (j.word? 32).map .invokeDynamic
  | "InvokeSuper" => do
    return .invokeSuper (← j.field? "owner" Json.str?) (← j.field? "params" tysOfJson?)
  | "NewInstance" => do
    return .newInstance (← j.field? "class" Json.str?) (← j.field? "params" tysOfJson?)
  | "Box" => (Prim.ofJson? j).map .box
  | "Unbox" => (Prim.ofJson? j).map .unbox
  | "Convert" => do
    return .convert (← j.field? "from" Prim.ofJson?) (← j.field? "to" Prim.ofJson?)
  | "CheckCast" => j.str?.map .checkCast
  | "InstanceOf" => j.str?.map .instanceOf
  | "IfFalse" => (labelOfJson? j).map .ifFalse
  | "Goto" => (labelOfJson? j).map .goto
  | "LookupSwitch" => do
    return .lookupSwitch (← j.field? "keys" (Json.list? Json.int64?))
      (← j.field? "targets" (Json.list? labelOfJson?)) (← j.field? "default" labelOfJson?)
  | "TableSwitch" => do
    return .tableSwitch (← j.field? "low" Json.int64?)
      (← j.field? "targets" (Json.list? labelOfJson?)) (← j.field? "default" labelOfJson?)
  | "MakeCollection" => do
    return .makeCollection (← j.field? "kind" CollectionKind.ofJson?)
      (← j.field? "count" slotOfJson?)
  | "BuildSpliced" => do
    return .buildSpliced (← j.field? "kind" CollectionKind.ofJson?)
      (← j.field? "splices" (Json.list? Json.bool?))
  | "SwitchNs" => j.str?.map .switchSpace
  | "Import" => j.str?.map .importClass
  | "Return" => (Ty.ofJson? j).map .ret
  | _ => none

def ofJson? (j : Json) : Option Instruction :=
  match j.variant? with
  | some (name, none) => ofName? name
  | some (tag, some operands) => ofOperands? tag operands
  | none => none

end Instruction

def Handler.ofJson? (j : Json) : Option Handler := do
  return { first := ← j.field? "start" (Json.word? 64), last := ← j.field? "end" (Json.word? 64),
           target := ← j.field? "target" (Json.word? 64),
           catches := ← j.optionalField? "catch" Json.str?,
           stackDepth := ← j.field? "stack_depth" slotOfJson? }

def LocalVar.ofJson? (j : Json) : Option LocalVar := do
  return { name := ← j.field? "name" Json.str?, slot := ← j.field? "slot" slotOfJson?,
           ty := ← j.field? "ty" Ty.ofJson?, first := ← j.field? "start" (Json.word? 64),
           last := ← j.field? "end" (Json.word? 64) }

/-- The position of a label, the greatest 64-bit number standing for none. -/
def positionOfJson? (j : Json) : Option (Option Nat) :=
  (j.word? 64).map fun n => if n = unplacedPosition then none else some n

def Code.ofJson? (j : Json) : Option Code := do
  return { instructions := (← j.field? "instructions" (Json.list? Instruction.ofJson?)).toArray
           labels := (← j.field? "labels" (Json.list? positionOfJson?)).toArray
           handlers := ← j.field? "handlers" (Json.list? Handler.ofJson?)
           localVars := ← j.field? "local_vars" (Json.list? LocalVar.ofJson?)
           maxStack := ← j.field? "max_stack" slotOfJson?
           maxLocals := ← j.field? "max_locals" slotOfJson? }

def SiteKind.ofJson? (j : Json) : Option SiteKind :=
  match j.variant? with
  | some ("GlobalValue", some o) => do
    return .globalValue (← o.field? "ns" Json.str?) (← o.field? "name" Json.str?)
  | some ("GlobalCall", some o) => do
    return .globalCall (← o.field? "ns" Json.str?) (← o.field? "name" Json.str?)
  | some ("Invoke", none) => some .invoke
  | some ("InstanceMethod", some o) => (o.field? "name" Json.str?).map .instanceMethod
  | some ("StaticMethod", some o) => do
    return .staticMethod (← o.field? "class" Json.str?) (← o.field? "name" Json.str?)
  | some ("InstanceField", some o) => (o.field? "name" Json.str?).map .instanceField
  | some ("Constructor", some o) => (o.field? "class" Json.str?).map .construct
  | _ => none

def SiteSpec.ofJson? (j : Json) : Option SiteSpec := do
  return { kind := ← j.field? "kind" SiteKind.ofJson?
           argTypes := ← j.field? "arg_types" (Json.list? Ty.ofJson?)
           ret := ← j.field? "ret" Ty.ofJson?
           anyMask := ← j.field? "any_mask" (Json.word? 64)
           constant := ← j.optionalField? "constant" Constant.ofJson?
           span := ← j.optionalField? "span" Span.ofJson? }

def ClassFlags.ofJson? (j : Json) : Option ClassFlags := do
  return { isFinal := ← j.field? "is_final" Json.bool?
           isInterface := ← j.field? "is_interface" Json.bool?
           isAbstract := ← j.field? "is_abstract" Json.bool? }

def FieldDef.ofJson? (j : Json) : Option FieldDef := do
  return { name := ← j.field? "name" Json.str?, ty := ← j.field? "ty" Ty.ofJson?
           isStatic := ← j.field? "is_static" Json.bool?
           isMutable := ← j.field? "mutable" Json.bool?
           constant := ← j.optionalField? "constant" Constant.ofJson? }

def MethodDef.ofJson? (j : Json) : Option MethodDef := do
  return { name := ← j.field? "name" Json.str?
           params := ← j.field? "params" (Json.list? Ty.ofJson?)
           paramNames := ← j.field? "param_names" (Json.list? Json.str?)
           ret := ← j.field? "ret" Ty.ofJson?
           isStatic := ← j.field? "is_static" Json.bool?
           isVariadic := ← j.field? "is_varargs" Json.bool?
           code := ← j.optionalField? "code" Code.ofJson? }

def ClassFile.ofJson? (j : Json) : Option ClassFile := do
  return { name := ← j.field? "name" Json.str?
           superclass := ← j.field? "superclass" Json.str?
           interfaces := ← j.field? "interfaces" (Json.list? Json.str?)
           flags := ← j.field? "flags" ClassFlags.ofJson?
           fields := ← j.field? "fields" (Json.list? FieldDef.ofJson?)
           methods := ← j.field? "methods" (Json.list? MethodDef.ofJson?)
           sites := ← j.field? "call_sites" (Json.list? SiteSpec.ofJson?)
           source := ← j.optionalField? "source" Json.str? }

end LispMachine
