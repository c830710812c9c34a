import LispMachine.Form.Basic

/-!
# Classes and their members

`new`, member access by `.`, and `instance?`.  Compiled code settles as much as static types allow; what is
left open becomes a call site.
-/

namespace LispMachine.Form

/-- A class named by a symbol. -/
def classArg (d : Datum) : FormM ClassInfo := do
  match d.symbol? with
  | none => FormM.fail (d.readingError ("Expected a class name, got: " ++ d.toText))
  | some name =>
    match (← FormM.world).resolveClass? name with
    | some c => return c
    | none =>
      match ← FormM.lookup name with
      | some (.cls c) => return c
      | _ => FormM.fail (d.compileError (unresolvedClass name))

/-- Emits a call left to be linked at run time. -/
def emitSite (kind : SiteKind) (argTypes : List Ty) (ret : Ty) (d : Datum) : FormM Unit :=
  FormM.emitCall { SiteSpec.new kind argTypes ret with span := some d.span }

/-- The types of the top `n` values. -/
def topTypes (n : Nat) : FormM (List Ty) := do FormM.ofExcept ((← FormM.stack).topTypes n)

/-! ### New -/

/-- The class and the arguments of a `new`. -/
def newParts (d : Datum) : FormM (ClassInfo × List Datum) := do
  match argsOf d with
  | [] => FormM.fail (d.readingError "new requires a class name")
  | cls :: args =>
    let c ← classArg cls
    if c.flags.isInterface || c.flags.isAbstract then
      FormM.fail (d.compileError
        ("Cannot instantiate abstract class or interface: " ++ c.name))
    else return (c, args)

/-- Arguments have exactly the representation that parameters take. -/
def fitsDirectly (r : Registry) : List Ty → List Ty → Bool
  | [], [] => true
  | arg :: args, param :: params =>
    (match Coercion.coerce r arg param with
      | .ok code => code.isEmpty
      | .error _ => false) && fitsDirectly r args params
  | _, _ => false

/-- How the constructor of a compiled `new` is found. -/
inductive Construction where
  /-- This constructor, with arguments as they are. -/
  | direct (m : Method)
  /-- By the arguments at run time. -/
  | dynamic
  /-- There is none. -/
  | none

/-- Which constructor the argument types decide on. -/
def planConstruction (r : Registry) (c : ClassInfo) (argTypes : List Ty) : Construction :=
  let candidates := Machine.constructorsOf c
  match Overload.resolveStatic r candidates argTypes with
  | .unique (_, m) =>
    if !m.isVariadic && fitsDirectly r argTypes m.params then .direct m else .dynamic
  | .ambiguous _ => .dynamic
  | .noMatch =>
    if (Overload.byArity candidates argTypes.length).isEmpty || !argTypes.contains .any then .none
    else .dynamic

def compileNew (h : Handlers) (d : Datum) : FormM Unit := do
  let (c, args) ← newParts d
  compileArgs h args
  if ← FormM.isUnreachable then return ()
  let argTypes ← topTypes args.length
  match planConstruction (← FormM.registry) c argTypes with
  | .direct m => FormM.emit (.newInstance c.name m.params)
  | .dynamic => emitSite (.construct c.name) argTypes (.cls c.name) d
  | .none =>
    FormM.fail (d.compileError
      ("No matching ctor found for class " ++ c.name ++ " taking " ++ toString argTypes.length
        ++ " args"))

def evaluateNew (h : Handlers) (d : Datum) : FormM Value := do
  let (c, args) ← newParts d
  let values ← evaluateArgs h args
  FormM.lift (Machine.instantiate h.call c values)

/-! ### Member access -/

/-- What a member form says; a leading `-` asks for a field. -/
structure Member where
  target : Datum
  name : String
  field : Option String
  args : List Datum

/-- The field a member name asks for. -/
def fieldName? (name : String) : Option String :=
  match name.toList with
  | '-' :: c :: cs => some (String.ofList (c :: cs))
  | _ => none

/-- The member name and the arguments, which may stand in a list of their own. -/
def memberCall (member : Datum) (rest : List Datum) : Datum × List Datum :=
  match member.list? with
  | some (head :: inner) => if rest.isEmpty then (head, inner) else (member, rest)
  | _ => (member, rest)

/-- The parts of a member access. -/
def memberParts (d : Datum) : Except Error Member :=
  match argsOf d with
  | target :: member :: rest =>
    let (head, args) := memberCall member rest
    match head.symbol? with
    | none => .error (head.readingError ("Malformed member expression: " ++ head.toText))
    | some name =>
      let field := fieldName? name
      if field.isSome && !args.isEmpty then
        .error (d.readingError ("Field access " ++ name ++ " takes no arguments"))
      else .ok { target, name, field, args }
  | _ =>
    .error (d.readingError "Malformed member expression, expecting (. target member ...)")

/-- The class a target names, if it names one. -/
def staticTarget? (target : Datum) : FormM (Option ClassInfo) := do
  match target.symbol? with
  | none => return none
  | some name =>
    match ← FormM.lookup name with
    | some (.cls c) => return some c
    | _ => return none

/-- The static field a member means: by a leading `-`, or by name when there are no arguments. -/
def staticField? (r : Registry) (c : ClassInfo) (m : Member) : Option (ClassInfo × FieldInfo) :=
  let field := m.field <|> if m.args.isEmpty then some m.name else none
  field.bind fun name => (r.findField? c.name name).filter fun f => f.2.isStatic

def noStaticField (d : Datum) (c : ClassInfo) (field : String) : Error :=
  d.compileError ("No such static field: " ++ c.name ++ "/" ++ field)

/-- What a call of a method leaves; nothing becomes `nil`. -/
def resultType (m : Method) : Ty := if m.ret = .void then .any else m.ret

def noMatchingMethod (d : Datum) (c : ClassInfo) (m : Member) (n : Nat) : Error :=
  d.compileError
    ("No matching method " ++ m.name ++ " found taking " ++ toString n ++ " args for class " ++ c.name)

/-- A call of a static method. -/
def compileStaticCall (h : Handlers) (d : Datum) (c : ClassInfo) (m : Member) : FormM Unit := do
  let candidates := (← FormM.registry).findMethods c.name m.name true
  compileArgs h m.args
  if ← FormM.isUnreachable then return ()
  let argTypes ← topTypes m.args.length
  let ret ← match Overload.resolveStatic (← FormM.registry) candidates argTypes with
    | .unique (_, method) => pure (resultType method)
    | .ambiguous _ => pure .any
    | .noMatch => FormM.fail (noMatchingMethod d c m argTypes.length)
  emitSite (.staticMethod c.name m.name) argTypes ret d

/-- A static field or method. -/
def compileStaticMember (h : Handlers) (d : Datum) (c : ClassInfo) (m : Member) : FormM Unit := do
  match staticField? (← FormM.registry) c m, m.field with
  | some (owner, f), _ => FormM.emit (.getStatic owner.name f.name f.ty)
  | none, some field => FormM.fail (noStaticField d c field)
  | none, none => compileStaticCall h d c m

/-- The type a field of a receiver is known to have. -/
def fieldType (r : Registry) (receiver : Option Ty) (field : String) : Ty :=
  let found := (receiver.bind Ty.className?).bind fun cls => r.findField? cls field
  match found with
  | some (_, f) => if f.isStatic then .any else f.ty
  | none => .any

/-- The type a method of a receiver is known to return. -/
def methodType (r : Registry) (receiver : Option Ty) (name : String) (argTypes : List Ty) : Ty :=
  match receiver.bind Ty.className? with
  | none => .any
  | some cls =>
    match Overload.resolveStatic r (r.findMethods cls name false) argTypes with
    | .unique (_, method) => resultType method
    | _ => .any

/-- A field or method of a value. -/
def compileInstanceMember (h : Handlers) (d : Datum) (m : Member) : FormM Unit := do
  compileBoxed h m.target
  let receiver ← FormM.topType?
  match m.field with
  | some field =>
    if ← FormM.isUnreachable then return ()
    let ret := fieldType (← FormM.registry) receiver field
    emitSite (.instanceField field) (← topTypes 1) ret d
  | none =>
    compileArgs h m.args
    if ← FormM.isUnreachable then return ()
    let argTypes ← topTypes (m.args.length + 1)
    let ret := methodType (← FormM.registry) receiver m.name argTypes.tail
    emitSite (.instanceMethod m.name) argTypes ret d

/-- A member access; what stands in front of it decides whether the member is static. -/
def compileDot (h : Handlers) (d : Datum) : FormM Unit := do
  let m ← FormM.ofExcept (memberParts d)
  match ← staticTarget? m.target with
  | some c => compileStaticMember h d c m
  | none => compileInstanceMember h d m

def evaluateStaticMember (h : Handlers) (d : Datum) (c : ClassInfo) (m : Member) : FormM Value := do
  match staticField? (← FormM.registry) c m, m.field with
  | some (_, f), _ =>
    match f.constant with
    | some v => return v
    | none =>
      FormM.fail (Error.linkage
        ("static field " ++ c.name ++ "/" ++ m.field.getD m.name ++ " has no value"))
  | none, some field => FormM.fail (noStaticField d c field)
  | none, none =>
    let values ← evaluateArgs h m.args
    FormM.lift (Machine.callStatic h.call c.name m.name values)

def evaluateInstanceMember (h : Handlers) (m : Member) : FormM Value := do
  let receiver ← FormM.withTail false (h.evaluate m.target)
  match m.field with
  | some field =>
    match receiver with
    | .object o => FormM.lift (Action.getField o field)
    | v => FormM.fail (World.noField field v.classText)
  | none =>
    let values ← evaluateArgs h m.args
    FormM.lift (Machine.callInstance h.call receiver m.name values)

def evaluateDot (h : Handlers) (d : Datum) : FormM Value := do
  let m ← FormM.ofExcept (memberParts d)
  match ← staticTarget? m.target with
  | some c => evaluateStaticMember h d c m
  | none => evaluateInstanceMember h m

/-! ### Instance tests -/

/-- The class and the form of an `instance?`. -/
def instanceTestParts (d : Datum) : FormM (ClassInfo × Datum) := do
  match argsOf d with
  | [cls, value] => return (← classArg cls, value)
  | _ => FormM.fail (d.readingError "instance? takes a class and a value")

def compileInstanceTest (h : Handlers) (d : Datum) : FormM Unit := do
  let (c, value) ← instanceTestParts d
  compileBoxed h value
  FormM.emit (.instanceOf c.name)

def evaluateInstanceTest (h : Handlers) (d : Datum) : FormM Value := do
  let (c, value) ← instanceTestParts d
  let v ← FormM.withTail false (h.evaluate value)
  return .bool ((← FormM.registry).instanceOf v c.name)

end LispMachine.Form
