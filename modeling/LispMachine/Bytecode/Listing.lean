import LispMachine.Bytecode.Code
import LispMachine.Double.Printer

/-!
# Listings

Instructions and code as text.  The common instructions have short forms; the others spell their
structure out.
-/

namespace LispMachine.Listing

/-- A case with one unnamed part. -/
def tuple (title part : String) : String := title ++ "(" ++ part ++ ")"

/-- A case with named parts. -/
def record (title : String) (parts : List (String × String)) : String :=
  title ++ " \x7b " ++ ", ".intercalate (parts.map fun p => p.1 ++ ": " ++ p.2) ++ " \x7d"

def sequence (parts : List String) : String := "[" ++ ", ".intercalate parts ++ "]"

def flag (b : Bool) : String := if b then "true" else "false"

def int64 (n : Int64) : String := String.ofList (Double.intText n.toInt)

def span (s : Span) : String :=
  record "Span" [("line", toString s.line), ("col", toString s.col), ("index", toString s.index)]

def atom : Atom → String
  | .nil => "Nil"
  | .bool b => tuple "Bool" (flag b)
  | .char c => tuple "Char" (Text.quoteChar c)
  | .int n => tuple "Int" (int64 n)
  | .float x => tuple "Float" x.toText
  | .str s => tuple "Str" (Text.quote s)
  | .regex s => tuple "Regex" (Text.quote s)
  | .keyword s => tuple "Keyword" (Text.quote s)
  | .symbol s => tuple "Symbol" (Text.quote s)

/-- A datum around the text of its contents. -/
def withInfo (contents : String) (i : Info) : String :=
  record "Datum"
    [("kind", contents), ("span", span i.span),
      ("type_hint", (i.hint.map fun h => tuple "Some" (Text.quote h)).getD "None"),
      ("flags", sequence (i.flags.map Text.quote))]

mutual
def datum : Datum → String
  | .atom a i => withInfo (atom a) i
  | .list items i => withInfo (tuple "List" (sequence (data items))) i
  | .vector items i => withInfo (tuple "Vector" (sequence (data items))) i
  | .set items i => withInfo (tuple "Set" (sequence (data items))) i
  | .map entries i => withInfo (tuple "Map" (sequence (pairs entries))) i

def data : List Datum → List String
  | [] => []
  | d :: ds => datum d :: data ds

def pairs : List (Datum × Datum) → List String
  | [] => []
  | (k, v) :: es => ("(" ++ datum k ++ ", " ++ datum v ++ ")") :: pairs es
end

def constant : Constant → String
  | .nil => "Nil"
  | .bool b => tuple "Bool" (flag b)
  | .char c => tuple "Char" (Text.quoteChar c)
  | .long n => tuple "Long" (int64 n)
  | .double x => tuple "Double" x.toText
  | .str s => tuple "Str" (Text.quote s)
  | .keyword s => tuple "Keyword" (Text.quote s)
  | .symbol s => tuple "Symbol" (Text.quote s)
  | .regex s => tuple "Regex" (Text.quote s)
  | .cls s => tuple "Class" (Text.quote s)
  | .nameSpace s => tuple "Namespace" (Text.quote s)
  | .quoted d => tuple "Quoted" (datum d)

def label (l : Label) : String := tuple "LabelId" (toString l)

def varFlags (f : VarFlags) : String :=
  record "VarFlags"
    [("is_final", flag f.isFinal), ("is_macro", flag f.isExpander),
      ("is_dynamic", flag f.isDynamic), ("is_private", flag f.isPrivate)]

def slotAccess (title owner name : String) (ty : Ty) : String :=
  record title [("owner", Text.quote owner), ("name", Text.quote name), ("ty", ty.detail)]

def instruction : Instruction → String
  | .nop => "Nop"
  | .const c => "const " ++ constant c
  | .load slot ty => "load " ++ toString slot ++ " " ++ ty.toText
  | .store slot ty => "store " ++ toString slot ++ " " ++ ty.toText
  | .getField owner name ty => slotAccess "GetField" owner name ty
  | .putField owner name ty => slotAccess "PutField" owner name ty
  | .getStatic owner name ty => slotAccess "GetStatic" owner name ty
  | .varRef space name => record "VarRef" [("ns", Text.quote space), ("name", Text.quote name)]
  | .defVar space name flags init =>
    record "DefVar"
      [("ns", Text.quote space), ("name", Text.quote name), ("flags", varFlags flags),
        ("init", flag init)]
  | .setVar space name => record "SetVar" [("ns", Text.quote space), ("name", Text.quote name)]
  | .invokeDynamic site => "invokedynamic #" ++ toString site
  | .invokeSuper owner params =>
    record "InvokeSuper" [("owner", Text.quote owner), ("params", Ty.details params)]
  | .newInstance cls params =>
    record "NewInstance" [("class", Text.quote cls), ("params", Ty.details params)]
  | .box p => tuple "Box" p.title
  | .unbox p => tuple "Unbox" p.title
  | .convert source target => record "Convert" [("from", source.title), ("to", target.title)]
  | .checkCast cls => tuple "CheckCast" (Text.quote cls)
  | .truthy => "Truthy"
  | .hashCode => "HashCode"
  | .equiv => "Equiv"
  | .instanceOf cls => tuple "InstanceOf" (Text.quote cls)
  | .ifFalse l => "iffalse L" ++ toString l
  | .goto l => "goto L" ++ toString l
  | .lookupSwitch keys targets default =>
    record "LookupSwitch"
      [("keys", sequence (keys.map int64)), ("targets", sequence (targets.map label)),
        ("default", label default)]
  | .tableSwitch low targets default =>
    record "TableSwitch"
      [("low", int64 low), ("targets", sequence (targets.map label)), ("default", label default)]
  | .makeCollection kind count =>
    record "MakeCollection" [("kind", kind.title), ("count", toString count)]
  | .buildSpliced kind splices =>
    record "BuildSpliced" [("kind", kind.title), ("splices", sequence (splices.map flag))]
  | .switchSpace name => tuple "SwitchNs" (Text.quote name)
  | .importClass name => tuple "Import" (Text.quote name)
  | .pop => "Pop"
  | .pop2 => "Pop2"
  | .dup => "Dup"
  | .throwTop => "Throw"
  | .ret ty => tuple "Return" ty.detail

/-- A number right-aligned in four columns. -/
def column (n : Nat) : String :=
  let digits := Double.digitText n
  String.ofList (List.replicate (4 - digits.length) ' ' ++ digits)

/-- The labels that stand at a position, each on a line of its own, counting from `l`. -/
def labelLines (pc : Nat) : Label → List (Option Nat) → String
  | _, [] => ""
  | l, at? :: rest =>
    (if at? == some pc then "L" ++ toString l ++ ":\n" else "") ++ labelLines pc (l + 1) rest

/-- The lines of the instructions from position `pc` on. -/
def lines (labels : List (Option Nat)) : Nat → List Instruction → String
  | _, [] => ""
  | pc, i :: rest =>
    labelLines pc 0 labels ++ "  " ++ column pc ++ " " ++ instruction i ++ "\n"
      ++ lines labels (pc + 1) rest

/-- All instructions of a code with the labels before them. -/
def code (c : Code) : String := lines c.labels.toList 0 c.instructions.toList

end LispMachine.Listing
