import LispMachine.Form.Locals
import LispMachine.Form.Symbols

/-!
# Methods and constructors

How the methods of a class being emitted are compiled from forms, and how a class is finished: captures
become fields, and the constructor that sets them is added.
-/

namespace LispMachine.Form

/-! ### Methods -/

/-- A field that the body of a method sees as a local. -/
structure FieldBinding where
  name : String
  ty : Ty
  isMutable : Bool

/-- What is known about a method before its body is compiled. -/
structure MethodPlan where
  name : String
  params : List Ty := []
  paramNames : List String := []
  ret : Ty := .any
  isStatic : Bool := false
  isVariadic : Bool := false
  /-- What the receiver is called in the body. -/
  receiver : Option String := none
  fields : List FieldBinding := []
  /-- A `recur` may go back to the start of the body. -/
  recurs : Bool := true
  body : List Datum

namespace MethodPlan

/-- The slot of the first parameter. -/
def firstSlot (p : MethodPlan) : Nat := if p.isStatic then 0 else 1

/-- The parameters with their slots. -/
def slots (p : MethodPlan) : List (String × Nat × Ty) :=
  (p.paramNames.zip p.params).zipIdx.map fun ((name, ty), i) => (name, p.firstSlot + i, ty)

/-- The definition with its finished code. -/
def definition (p : MethodPlan) (code : Code) : MethodDef :=
  { name := p.name, params := p.params, paramNames := p.paramNames, ret := p.ret
    isStatic := p.isStatic, isVariadic := p.isVariadic, code := some code }

end MethodPlan

/-- Binds the fields and the receiver. -/
def bindReceiver (cls : String) (p : MethodPlan) : FormM Unit := do
  p.fields.forM fun f =>
    FormM.bindName { name := f.name, ty := f.ty, slot := .field f.name, isMutable := f.isMutable }
  match p.receiver with
  | some name => FormM.bindName { name, ty := .cls cls, slot := .this }
  | none => return ()

/-- Converts the top value to the type a method returns, and returns it. -/
def emitReturn (cls : String) (p : MethodPlan) : FormM Unit := do
  match ← FormM.topType? with
  | none => return ()
  | some ty =>
    match Coercion.coerce (← FormM.registry) ty p.ret with
    | .ok code =>
      FormM.emitAll code
      FormM.emit (.ret p.ret)
    | .error e =>
      let message := e.messageWith (← FormM.world).textOf
      FormM.fail (Error.compile (cls ++ "." ++ p.name ++ ": " ++ message))

/-- Runs with the start of a method as a loop to go back to, if the plan says so. -/
def withMethodLoop {α : Type} (p : MethodPlan) (head : Label) (m : FormM α) : FormM α :=
  if p.recurs then withLoop (.compiled head (p.slots.map Prod.snd) 0) m else m

/-- The code of a method, in a context of its own. -/
def compileMethodBody (h : Handlers) (cls : String) (p : MethodPlan) : FormM Unit :=
  FormM.withScope .field do
    bindReceiver cls p
    FormM.withScope .methodParam do
      let first ← FormM.here
      p.slots.forM fun (name, slot, ty) => FormM.bindName (.inSlot name ty slot)
      withMethodLoop p first (FormM.withTail true (compileBody h p.body))
      emitReturn cls p
      let last ← FormM.here
      p.slots.forM fun (name, slot, ty) => describe { name, slot, ty, first } last

def ownerOutOfRange : Error := Error.internal "method owner out of range"

/-- Compiles a method and adds it to the class at a position. -/
def buildMethod (h : Handlers) (owner : Nat) (p : MethodPlan) : FormM Unit := do
  match (← get).classes[owner]? with
  | none => FormM.fail ownerOutOfRange
  | some c =>
    let code := CodeBuffer.withReserved (p.params.length + p.firstSlot)
    let (_, context) ← FormM.withMethod { code, owner } (compileMethodBody h c.file.name p)
    let code ← FormM.ofExcept (context.code.finish context.stack.max)
    modify fun s =>
      { s with classes := s.classes.modify owner fun c => c.addMethod (p.definition code) }

/-- A method without a body. -/
def abstractMethod (name : String) (arity : Nat) : MethodDef :=
  { name, params := List.replicate arity .any
    paramNames := (List.range arity).map fun i => "p" ++ toString i
    ret := .any, isStatic := false, isVariadic := false, code := none }

/-! ### Constructors -/

/-- How instances of a class are set up. -/
inductive ConstructorPlan where
  /-- There is no constructor. -/
  | none
  /-- Captures alone. -/
  | captures
  /-- The declared fields, in order. -/
  | fields (own : List (String × Ty))
  /-- The first arguments go to a constructor of the superclass. -/
  | viaSuper (params : List Ty)

namespace ConstructorPlan

/-- The parameters passed on to the superclass. -/
def superParams : ConstructorPlan → List Ty
  | .viaSuper params => params
  | _ => []

/-- The fields that are set besides captures. -/
def ownFields : ConstructorPlan → List (String × Ty)
  | .fields own => own
  | _ => []

end ConstructorPlan

/-- The code of a constructor: the superclass first, then each field from its argument. -/
def constructorCode (owner superclass : String) (superParams : List Ty)
    (stored : List (String × Ty)) : List Instruction :=
  let this := Instruction.load 0 (.cls owner)
  let passed := superParams.zipIdx.map fun (ty, i) => Instruction.load (1 + i) ty
  let stores := stored.zipIdx.flatMap fun ((name, ty), i) =>
    [this, .load (1 + superParams.length + i) ty, .putField owner name ty]
  this :: passed ++ [Instruction.invokeSuper superclass superParams] ++ stores ++ [Instruction.ret .void]

/-- Follows the stack through code without branches. -/
def straightLineStack (stack : TypeStack) : List Instruction → Except Error TypeStack
  | [] => .ok stack
  | i :: rest => do
    let (result, stack) := stack.apply (← i.effect [])
    result
    straightLineStack stack rest

/-- Code without branches, with the first slots reserved for arguments. -/
def straightLine (reserved : Nat) (code : List Instruction) : Except Error Code := do
  let stack ← straightLineStack {} code
  (code.foldl CodeBuffer.push (CodeBuffer.withReserved reserved)).finish stack.max

/-- The constructor of a class, if it has one. -/
def constructorOf (c : ClassContext) (plan : ConstructorPlan) : Except Error (Option MethodDef) :=
  match plan with
  | .none => .ok Option.none
  | plan => do
    let stored := plan.ownFields ++ c.captures.map fun r => (r.field, r.ty)
    let params := plan.superParams ++ stored.map Prod.snd
    let paramNames := ((List.range plan.superParams.length).map fun i => "arg" ++ toString i)
      ++ stored.map Prod.fst
    let code ← straightLine (params.length + 1)
      (constructorCode c.file.name c.file.superclass plan.superParams stored)
    return some
      { name := Names.constructor, params, paramNames, ret := .void, isStatic := false
        isVariadic := false, code := some code }

/-! ### Finished classes -/

/-- A field set once, by the constructor. -/
def constantField (name : String) (ty : Ty) : FieldDef :=
  { name, ty, isStatic := false, isMutable := false }

/-- Adds a field unless one of its name is there. -/
def addField (fields : List FieldDef) (f : String × Ty) : List FieldDef :=
  if fields.any fun g => g.name == f.1 then fields else fields ++ [constantField f.1 f.2]

/-- The class file with fields for captures and a constructor. -/
def finishedFile (c : ClassContext) (plan : ConstructorPlan) : Except Error ClassFile := do
  let declared := plan.ownFields.foldl addField c.file.fields
  let fields := declared ++ c.captures.map fun r => constantField r.field r.ty
  let methods := c.file.methods ++ (← constructorOf c plan).toList
  return { c.file with fields, methods }

/-- Compiles the methods of a class, each planned when its turn comes, and finishes the class; also gives
what it captures. -/
def buildClass (h : Handlers) (file : ClassFile) (mode : ClassMode)
    (methods : List (Registry → MethodPlan)) (plan : ConstructorPlan) :
    FormM (ClassFile × List Capture) := do
  let (_, context) ← FormM.withClass { file, mode } fun owner =>
    methods.forM fun m => do buildMethod h owner (m (← FormM.registry))
  let file ← FormM.ofExcept (finishedFile context plan)
  return (file, context.captures)

/-- Loads a class. -/
def loadClass [Libraries] (file : ClassFile) : FormM ClassInfo := FormM.lift (Machine.defineClass file)

/-- A class file to start from. -/
def newFile (name superclass : String) : FormM ClassFile := do
  return { name, superclass, source := (← FormM.world).options.sourceName }

/-- A number not used before. -/
def nextId : FormM Nat := FormM.lift (Action.change World.nextId)

/-- Puts a name that was made up on record. -/
def noteName (name : String) : FormM Unit := FormM.lift (modify fun w => w.note name)

/-- The current namespace, spelled for use in class names. -/
def spaceStem : FormM String := do return munge (← FormM.world).current

/-- What a class is generated for. -/
inductive ClassUse where
  /-- A compiled top-level form. -/
  | eval
  /-- A function, with the name it may have. -/
  | fn (name : Option String)
  | proxy
deriving DecidableEq

/-- The name of a generated class, up to its number. -/
def ClassUse.stem (space : String) : ClassUse → String
  | .eval => space ++ "$eval__"
  | .fn name => space ++ "$" ++ (name.map munge).getD "fn" ++ "__"
  | .proxy => space ++ "$proxy__"

/-- A new name for a generated class. -/
def generatedName (use : ClassUse) : FormM String := do
  let space ← spaceStem
  let id ← nextId
  let name := use.stem space ++ toString id
  noteName name
  return name

/-! ### Captured values -/

/-- Loads captured locals from the enclosing method. -/
def loadCaptures (captures : List Capture) (span : Span) : FormM Unit :=
  FormM.withTail false (captures.forM fun r => compileName r.name span)

/-- The values of captured locals in interpreted code. -/
def captureValues (captures : List Capture) : FormM (List Value) :=
  captures.mapM fun r => evaluateName r.name

end LispMachine.Form
