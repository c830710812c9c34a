import LispMachine.ClassFile.Basic
import LispMachine.Json.Basic

/-!
# Class files as JSON

How a class file is written.  Cases of a variant are tagged by their names, records are objects with
their members in a fixed order, and a label that stands nowhere is written as the greatest 64-bit number.
-/

namespace LispMachine

def Prim.toJson (p : Prim) : Json := .str p.title

def Ty.toJson : Ty → Json
  | .any => .str "Any"
  | .void => .str "Void"
  | .prim p => .tagged "Prim" p.toJson
  | .cls name => .tagged "Class" (.str name)

def Ty.listToJson (ts : List Ty) : Json := .arr (ts.map Ty.toJson)

def Span.toJson (s : Span) : Json :=
  .obj [("line", .ofNat s.line), ("col", .ofNat s.col), ("index", .ofNat s.index)]

def Atom.toJson : Atom → Json
  | .nil => .str "Nil"
  | .bool b => .tagged "Bool" (.bool b)
  | .char c => .tagged "Char" (.str c.toString)
  | .int n => .tagged "Int" (.int n.toInt)
  | .float x => .tagged "Float" (.float x)
  | .str s => .tagged "Str" (.str s)
  | .regex s => .tagged "Regex" (.str s)
  | .keyword s => .tagged "Keyword" (.str s)
  | .symbol s => .tagged "Symbol" (.str s)

namespace Datum

/-- The members besides the contents; a hint and flags only when there are any. -/
def infoMembers (i : Info) : List (String × Json) :=
  ("span", i.span.toJson)
    :: (match i.hint with
      | some h => [("type_hint", .str h)]
      | none => [])
    ++ (if i.flags.isEmpty then [] else [("flags", Json.ofStrings i.flags)])

/-- A datum around its written contents. -/
def withInfoJson (contents : Json) (i : Info) : Json := .obj (("kind", contents) :: infoMembers i)

mutual
def toJson : Datum → Json
  | .atom a i => withInfoJson a.toJson i
  | .list items i => withInfoJson (.tagged "List" (.arr (toJsons items))) i
  | .vector items i => withInfoJson (.tagged "Vector" (.arr (toJsons items))) i
  | .set items i => withInfoJson (.tagged "Set" (.arr (toJsons items))) i
  | .map entries i => withInfoJson (.tagged "Map" (.arr (toJsonPairs entries))) i

def toJsons : List Datum → List Json
  | [] => []
  | d :: ds => toJson d :: toJsons ds

def toJsonPairs : List (Datum × Datum) → List Json
  | [] => []
  | (k, v) :: es => .arr [toJson k, toJson v] :: toJsonPairs es
end

end Datum

def CollectionKind.toJson (k : CollectionKind) : Json := .str k.title

def Constant.toJson : Constant → Json
  | .nil => .str "Nil"
  | .bool b => .tagged "Bool" (.bool b)
  | .char c => .tagged "Char" (.str c.toString)
  | .long n => .tagged "Long" (.int n.toInt)
  | .double x => .tagged "Double" (.float x)
  | .str s => .tagged "Str" (.str s)
  | .keyword s => .tagged "Keyword" (.str s)
  | .symbol s => .tagged "Symbol" (.str s)
  | .regex s => .tagged "Regex" (.str s)
  | .cls s => .tagged "Class" (.str s)
  | .nameSpace s => .tagged "Namespace" (.str s)
  | .quoted d => .tagged "Quoted" d.toJson

def VarFlags.toJson (f : VarFlags) : Json :=
  .obj [("is_final", .bool f.isFinal), ("is_macro", .bool f.isExpander),
    ("is_dynamic", .bool f.isDynamic), ("is_private", .bool f.isPrivate)]

def labelsToJson (ls : List Label) : Json := .arr (ls.map .ofNat)

namespace Instruction

def slotToJson (tag : String) (slot : Nat) (ty : Ty) : Json :=
  .tagged tag (.obj [("slot", .ofNat slot), ("ty", ty.toJson)])

def fieldToJson (tag owner name : String) (ty : Ty) : Json :=
  .tagged tag (.obj [("owner", .str owner), ("name", .str name), ("ty", ty.toJson)])

def varToJson (tag space name : String) (more : List (String × Json)) : Json :=
  .tagged tag (.obj (("ns", .str space) :: ("name", .str name) :: more))

def toJson : Instruction → Json
  | .nop => .str "Nop"
  | .const c => .tagged "Const" c.toJson
  | .load slot ty => slotToJson "Load" slot ty
  | .store slot ty => slotToJson "Store" slot ty
  | .getField owner name ty => fieldToJson "GetField" owner name ty
  | .putField owner name ty => fieldToJson "PutField" owner name ty
  | .getStatic owner name ty => fieldToJson "GetStatic" owner name ty
  | .varRef space name => varToJson "VarRef" space name []
  | .defVar space name flags init =>
    varToJson "DefVar" space name [("flags", flags.toJson), ("init", .bool init)]
  | .setVar space name => varToJson "SetVar" space name []
  | .invokeDynamic site => .tagged "InvokeDynamic" (.ofNat site)
  | .invokeSuper owner params =>
    .tagged "InvokeSuper" (.obj [("owner", .str owner), ("params", Ty.listToJson params)])
  | .newInstance cls params =>
    .tagged "NewInstance" (.obj [("class", .str cls), ("params", Ty.listToJson params)])
  | .box p => .tagged "Box" p.toJson
  | .unbox p => .tagged "Unbox" p.toJson
  | .convert source target =>
    .tagged "Convert" (.obj [("from", source.toJson), ("to", target.toJson)])
  | .checkCast cls => .tagged "CheckCast" (.str cls)
  | .truthy => .str "Truthy"
  | .hashCode => .str "HashCode"
  | .equiv => .str "Equiv"
  | .instanceOf cls => .tagged "InstanceOf" (.str cls)
  | .ifFalse l => .tagged "IfFalse" (.ofNat l)
  | .goto l => .tagged "Goto" (.ofNat l)
  | .lookupSwitch keys targets default =>
    .tagged "LookupSwitch"
      (.obj [("keys", .arr (keys.map fun k => .int k.toInt)), ("targets", labelsToJson targets),
        ("default", .ofNat default)])
  | .tableSwitch low targets default =>
    .tagged "TableSwitch"
      (.obj [("low", .int low.toInt), ("targets", labelsToJson targets),
        ("default", .ofNat default)])
  | .makeCollection kind count =>
    .tagged "MakeCollection" (.obj [("kind", kind.toJson), ("count", .ofNat count)])
  | .buildSpliced kind splices =>
    .tagged "BuildSpliced" (.obj [("kind", kind.toJson), ("splices", .arr (splices.map .bool))])
  | .switchSpace name => .tagged "SwitchNs" (.str name)
  | .importClass name => .tagged "Import" (.str name)
  | .pop => .str "Pop"
  | .pop2 => .str "Pop2"
  | .dup => .str "Dup"
  | .throwTop => .str "Throw"
  | .ret ty => .tagged "Return" ty.toJson

end Instruction

def Handler.toJson (h : Handler) : Json :=
  .obj [("start", .ofNat h.first), ("end", .ofNat h.last), ("target", .ofNat h.target),
    ("catch", .ofOption (h.catches.map .str)), ("stack_depth", .ofNat h.stackDepth)]

def LocalVar.toJson (v : LocalVar) : Json :=
  .obj [("name", .str v.name), ("slot", .ofNat v.slot), ("ty", v.ty.toJson),
    ("start", .ofNat v.first), ("end", .ofNat v.last)]

def Code.toJson (c : Code) : Json :=
  .obj [("instructions", .arr (c.instructions.toList.map Instruction.toJson)),
    ("labels", .arr (c.labels.toList.map fun l => .ofNat (l.getD unplacedPosition))),
    ("handlers", .arr (c.handlers.map Handler.toJson)),
    ("local_vars", .arr (c.localVars.map LocalVar.toJson)),
    ("max_stack", .ofNat c.maxStack), ("max_locals", .ofNat c.maxLocals)]

def SiteKind.toJson : SiteKind → Json
  | .globalValue space name =>
    .tagged "GlobalValue" (.obj [("ns", .str space), ("name", .str name)])
  | .globalCall space name =>
    .tagged "GlobalCall" (.obj [("ns", .str space), ("name", .str name)])
  | .invoke => .str "Invoke"
  | .instanceMethod name => .tagged "InstanceMethod" (.obj [("name", .str name)])
  | .staticMethod cls name =>
    .tagged "StaticMethod" (.obj [("class", .str cls), ("name", .str name)])
  | .instanceField name => .tagged "InstanceField" (.obj [("name", .str name)])
  | .construct cls => .tagged "Constructor" (.obj [("class", .str cls)])

def SiteSpec.toJson (s : SiteSpec) : Json :=
  .obj [("kind", s.kind.toJson), ("arg_types", Ty.listToJson s.argTypes), ("ret", s.ret.toJson),
    ("any_mask", .ofNat s.anyMask), ("constant", .ofOption (s.constant.map Constant.toJson)),
    ("span", .ofOption (s.span.map Span.toJson))]

def ClassFlags.toJson (f : ClassFlags) : Json :=
  .obj [("is_final", .bool f.isFinal), ("is_interface", .bool f.isInterface),
    ("is_abstract", .bool f.isAbstract)]

def FieldDef.toJson (f : FieldDef) : Json :=
  .obj ([("name", .str f.name), ("ty", f.ty.toJson), ("is_static", .bool f.isStatic),
    ("mutable", .bool f.isMutable)]
    ++ match f.constant with
      | some c => [("constant", c.toJson)]
      | none => [])

def MethodDef.toJson (m : MethodDef) : Json :=
  .obj [("name", .str m.name), ("params", Ty.listToJson m.params),
    ("param_names", .ofStrings m.paramNames), ("ret", m.ret.toJson),
    ("is_static", .bool m.isStatic), ("is_varargs", .bool m.isVariadic),
    ("code", .ofOption (m.code.map Code.toJson))]

def ClassFile.toJson (c : ClassFile) : Json :=
  .obj ([("name", .str c.name), ("superclass", .str c.superclass),
    ("interfaces", .ofStrings c.interfaces), ("flags", c.flags.toJson),
    ("fields", .arr (c.fields.map FieldDef.toJson)),
    ("methods", .arr (c.methods.map MethodDef.toJson)),
    ("call_sites", .arr (c.sites.map SiteSpec.toJson))]
    ++ match c.source with
      | some s => [("source", .str s)]
      | none => [])

end LispMachine
