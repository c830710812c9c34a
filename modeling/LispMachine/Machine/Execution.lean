import LispMachine.Machine.Linking
import LispMachine.Value.Data

/-!
# Executing code

One method body runs in a frame: a position in the code, an operand stack and local slots.  A long or a
double takes two operand slots, the upper one being `nil`.  What an instruction popped before it failed
stays popped; an error that can be caught goes to the first handler that covers the instruction, with the
stack cut down to the depth the handler declares.
-/

namespace LispMachine.Machine

/-- One activation of a method. -/
structure Frame where
  pc : Nat := 0
  /-- Operand slots, the top first. -/
  stack : List Value := []
  locals : Array Value := #[]
deriving Inhabited

/-- The state of a running method: its frame, and the world it runs in. -/
structure Running where
  frame : Frame
  world : World

/-- Steps of a running method. -/
abbrev Exec := EStateM Fault Running

namespace Exec

/-- An action from within a method. -/
def lift {α : Type} (a : Action α) : Exec α := fun s =>
  let { frame, world } := s
  match a world with
  | .ok x world => .ok x { frame, world }
  | .error e world => .error e { frame, world }

def fail {α : Type} (e : Error) : Exec α := throw (.error e)

def modifyFrame (f : Frame → Frame) : Exec Unit := modify fun s => { s with frame := f s.frame }

def registry : Exec Registry := do return (← get).world.registry

end Exec

/-! ### Operands -/

def underflow : Error := Error.internal "operand stack underflow"

/-- Puts one slot on the stack. -/
def pushSlot (v : Value) : Exec Unit :=
  Exec.modifyFrame fun f => { f with stack := v :: f.stack }

/-- Pushes a value of a type, in as many slots as the type takes. -/
def push (v : Value) (ty : Ty) : Exec Unit :=
  match ty.width with
  | 0 => pure ()
  | 1 => pushSlot v
  | _ => do
    pushSlot v
    pushSlot .nil

/-- Takes one slot off the stack. -/
def popSlot : Exec Value := do
  match (← get).frame.stack with
  | v :: rest =>
    Exec.modifyFrame fun f => { f with stack := rest }
    return v
  | [] => Exec.fail underflow

/-- Takes a value of a type off the stack; wide ones take two slots. -/
def pop (ty : Ty) : Exec Value :=
  match ty.width with
  | 0 => return .nil
  | 1 => popSlot
  | _ => do
    let _ ← popSlot
    popSlot

/-- Pops values, the first type being that of the top; gives them in stack order, the deepest first, in
front of `above`. -/
def popAll (above : List Value) : List Ty → Exec (List Value)
  | [] => return above
  | ty :: rest => do
    let v ← pop ty
    popAll (v :: above) rest

/-- Pops values of the given types, the last one being on top. -/
def popMany (types : List Ty) : Exec (List Value) := popAll [] types.reverse

/-- Pops `n` slots at once, or none; the deepest comes first. -/
def popSlots (n : Nat) : Exec (List Value) := do
  let stack := (← get).frame.stack
  if stack.length < n then Exec.fail underflow
  else
    Exec.modifyFrame fun f => { f with stack := stack.drop n }
    return (stack.take n).reverse

/-! ### Values -/

/-- Throws the exception of a failed cast. -/
def failCast {α : Type} (call : Caller) (v : Value) (expected : String) : Exec α := do
  Exec.fail (← Exec.lift (castError call v expected))

/-- The primitive inside a value. -/
def unbox (call : Caller) (v : Value) (p : Prim) : Exec Value :=
  match p, v with
  | .long, .int _ => return v
  | .double, .float _ => return v
  | .boolean, .bool _ => return v
  | .char, .char _ => return v
  | .double, .int n => return .float (Double.ofInt n.toInt)
  | p, v => failCast call v p.name

/-- Fails unless the value is `nil` or an instance of the class. -/
def checkClass (call : Caller) (v : Value) (cls : String) : Exec Unit := do
  if v.isNil || (← Exec.registry).instanceOf v cls then return ()
  else failCast call v cls

/-- A result as the type the compiler assumed. -/
def conform (call : Caller) (v : Value) (ty : Ty) : Exec Value :=
  match ty with
  | .prim p => unbox call v p
  | .cls cls => do
    checkClass call v cls
    return v
  | _ => return v

/-- Between longs and doubles; other values stay as they are. -/
def convert (target : Prim) (v : Value) : Value :=
  match target, v with
  | .double, .int n => .float (Double.ofInt n.toInt)
  | .long, .float x => .int x.truncate
  | _, v => v

def invalidPattern (source : String) : Error :=
  Error.reading ("invalid regex " ++ Text.quote source)

/-- The value of a pattern literal. -/
def patternValue [Libraries] (source : String) : Except Error Value :=
  if Libraries.isPattern source then .ok (.regex source) else .error (invalidPattern source)

def noSpace (name : String) : Error := Error.runtime ("no namespace " ++ name)

/-- The value of a constant. -/
def constantValue [Libraries] (w : World) : Constant → Except Error Value
  | .nil => .ok .nil
  | .bool b => .ok (.bool b)
  | .char c => .ok (.char c)
  | .long n => .ok (.int n)
  | .double x => .ok (.float x)
  | .str s => .ok (.str s)
  | .keyword k => .ok (.keywordNamed k)
  | .symbol s => .ok (.symbolNamed s)
  | .regex s => patternValue s
  | .cls name =>
    if w.registry.contains name then .ok (.cls name) else .error (World.classNotFound name)
  | .nameSpace name =>
    if w.spaces.contains name then .ok (.nameSpace name) else .error (noSpace name)
  | .quoted d => .ok d.toValue

/-- A collection of a kind from its items. -/
def buildCollection (kind : CollectionKind) (items : List Value) : Except Error Value :=
  match kind with
  | .list => .ok (.list items)
  | .vector => .ok (.vector items)
  | .set => .ok (.setOf items)
  | .map =>
    if items.length % 2 = 0 then .ok (.mapOf (Sequence.pairs items))
    else complain "map literal needs an even number of forms"

/-- Items with the flagged ones replaced by their elements. -/
def spliceItems : List Value → List Bool → Except Error (List Value)
  | v :: vs, true :: flags =>
    match v.items? with
    | some items => do return items ++ (← spliceItems vs flags)
    | none => complain ("cannot splice " ++ v.typeName)
  | v :: vs, false :: flags => do return v :: (← spliceItems vs flags)
  | _, _ => .ok []

/-! ### Instructions -/

/-- The code a method runs. -/
structure Body where
  code : Code
  /-- The specifications of the call sites of the class, and where the sites themselves start. -/
  sites : List SiteSpec
  firstSite : Nat

/-- What follows an instruction. -/
inductive Step where
  | next
  | jump (label : Label)
  | done (v : Value)

def noVar (space name : String) : Error := Error.runtime ("no var " ++ space ++ "/" ++ name)

/-- The var an instruction names. -/
def findVar (space name : String) : Exec VarRef := do
  match (← get).world.findVar? space name with
  | some v => return v
  | none => Exec.fail (noVar space name)

/-- The key of a switch. -/
def popKey : Exec Int64 := do
  match ← pop .long with
  | .int n => return n
  | v => Exec.fail (Error.internal ("switch on non-long " ++ (← get).world.textOf v))

/-- The object a field instruction works on. -/
def popObject (call : Caller) : Exec ObjectRef := do
  match ← popSlot with
  | .object o => return o
  | v => failCast call v "object"

/-- The target of a switch by its position. -/
def switchTarget (targets : List Label) (default : Label) (position : Option Nat) : Label :=
  (position.bind fun i => targets[i]?).getD default

/-- Calls through a call site of the body; its place goes to errors that have none. -/
def callSite (call : Caller) (body : Body) (i : Nat) (spec : SiteSpec) (args : List Value) :
    Action Value := fun w =>
  match invokeSite call (body.firstSite + i) args w with
  | .error (.error e) w =>
    .error (.error (match spec.span with
      | some span => e.atSpan span
      | none => e)) w
  | r => r

/-- Runs the constructor of a superclass on an object that is being made. -/
def superConstructor (call : Caller) (owner : String) (params : List Ty) (receiver : Value)
    (args : List Value) : Action Unit := do
  match (← get).registry.find? owner with
  | none => Action.fail (World.classNotFound owner)
  | some c =>
    match c.constructors.find? fun k => k.params == params with
    | none =>
      Action.fail (Error.linkage ("no constructor " ++ owner ++ "(" ++ Ty.details params ++ ")"))
    | some k =>
      let _ ← call (.invoke c k (some receiver) args)

/-- The value of a static field. -/
def staticField (r : Registry) (owner name : String) : Except Error Value :=
  match (r.findField? owner name).bind fun f => f.2.constant with
  | some v => .ok v
  | none => .error (Error.linkage ("no static field " ++ owner ++ "/" ++ name))

/-- Executes one instruction. -/
def step [Libraries] (call : Caller) (body : Body) (i : Instruction) : Exec Step := do
  match i with
  | .nop => return .next
  | .const c =>
    let v ← Exec.lift (Action.read fun w => constantValue w c)
    push v c.ty
    return .next
  | .load slot ty =>
    push (((← get).frame.locals[slot]?).getD .nil) ty
    return .next
  | .store slot ty =>
    let v ← pop ty
    Exec.modifyFrame fun f => { f with locals := f.locals.setIfInBounds slot v }
    return .next
  | .getField _ name ty =>
    let o ← popObject call
    push (← Exec.lift (Action.getField o name)) ty
    return .next
  | .putField _ name ty =>
    let v ← pop ty
    let o ← popObject call
    Exec.lift (Action.setField o name v)
    return .next
  | .getStatic owner name ty =>
    push (← Exec.lift (Action.read fun w => staticField w.registry owner name)) ty
    return .next
  | .varRef space name =>
    pushSlot (.var (← findVar space name))
    return .next
  | .defVar space name flags init =>
    let value ← if init then (do return some (← popSlot)) else pure none
    let v ← Exec.lift (Action.change fun w => (w.ensureSpace space).intern space name)
    Exec.lift (modify fun w => w.define v value flags)
    pushSlot (.var v)
    return .next
  | .setVar space name =>
    let value ← popSlot
    let v ← findVar space name
    Exec.lift (modify fun w => w.bindRoot v value)
    pushSlot value
    return .next
  | .invokeDynamic i =>
    match body.sites[i]? with
    | none => Exec.fail (Error.internal ("missing call site " ++ toString i))
    | some spec =>
      let args ← popMany spec.argTypes
      let result ← Exec.lift (callSite call body i spec args)
      push (← conform call result spec.ret) spec.ret
      return .next
  | .invokeSuper owner params =>
    let args ← popMany params
    let receiver ← popSlot
    Exec.lift (superConstructor call owner params receiver args)
    return .next
  | .newInstance cls params =>
    let args ← popMany params
    pushSlot (← Exec.lift (newInstance call cls params args))
    return .next
  | .box p =>
    pushSlot (← pop (.prim p))
    return .next
  | .unbox p =>
    push (← unbox call (← popSlot) p) (.prim p)
    return .next
  | .convert source target =>
    push (convert target (← pop (.prim source))) (.prim target)
    return .next
  | .checkCast cls =>
    let v ← popSlot
    checkClass call v cls
    pushSlot v
    return .next
  | .truthy =>
    pushSlot (.bool (← popSlot).truthy)
    return .next
  | .hashCode =>
    push (.int (Int64.ofInt (← popSlot).hashCode)) .long
    return .next
  | .equiv =>
    let b ← popSlot
    let a ← popSlot
    pushSlot (.bool (a == b))
    return .next
  | .instanceOf cls =>
    let v ← popSlot
    pushSlot (.bool ((← Exec.registry).instanceOf v cls))
    return .next
  | .ifFalse label =>
    match ← popSlot with
    | .bool false => return .jump label
    | .bool true => return .next
    | v => Exec.fail (Error.internal ("branch on non-boolean " ++ (← get).world.textOf v))
  | .goto label => return .jump label
  | .lookupSwitch keys targets default =>
    let key ← popKey
    return .jump (switchTarget targets default (keys.findIdx? (· == key)))
  | .tableSwitch low targets default =>
    let offset := (← popKey).toInt - low.toInt
    return .jump (switchTarget targets default (if 0 ≤ offset then some offset.toNat else none))
  | .makeCollection kind count =>
    let items ← popSlots (if kind = .map then count * 2 else count)
    pushSlot (← Exec.lift (Action.ofExcept (buildCollection kind items)))
    return .next
  | .buildSpliced kind splices =>
    let parts ← popSlots splices.length
    let items ← Exec.lift (Action.ofExcept (spliceItems parts splices))
    pushSlot (← Exec.lift (Action.ofExcept (buildCollection kind items)))
    return .next
  | .switchSpace name =>
    Exec.lift (modify fun w => w.enter name)
    pushSlot (.nameSpace name)
    return .next
  | .importClass name =>
    let w ← Exec.lift (Action.read fun w => w.importClass name)
    modify fun s => { s with world := w }
    pushSlot (.cls name)
    return .next
  | .pop =>
    let _ ← popSlot
    return .next
  | .pop2 =>
    let _ ← popSlots 2
    return .next
  | .dup =>
    match (← get).frame.stack with
    | v :: _ =>
      pushSlot v
      return .next
    | [] => Exec.fail underflow
  | .throwTop =>
    let v ← popSlot
    if v.isNil then Exec.fail (Error.runtime "Cannot throw nil") else Exec.fail (Error.thrown v)
  | .ret ty => return .done (← pop ty)

/-! ### Running -/

/-- The handler for an exception raised at a position. -/
def handlerFor (r : Registry) (code : Code) (pc : Nat) (exception : Value) : Option Handler :=
  code.handlers.find? fun h =>
    h.covers pc && match h.catches with
      | some cls => r.instanceOf exception cls
      | none => true

/-- The frame a handler starts with. -/
def Frame.handling (f : Frame) (h : Handler) (exception : Value) : Frame :=
  { f with pc := h.target, stack := exception :: f.stack.drop (f.stack.length - h.stackDepth) }

/-- Finds the frame that goes on after an error, or raises the error again. -/
def unwind (call : Caller) (body : Body) (e : Error) (f : Frame) : Action Frame := do
  if !e.isCatchable then Action.fail e
  else
    let exception ← exceptionOf call e
    match handlerFor (← get).registry body.code f.pc exception with
    | some h => return f.handling h exception
    | none => Action.fail e

/-- Where a jump goes. -/
def jumpTarget (code : Code) (l : Label) : Except Error Nat :=
  match code.labels[l]? with
  | some position => .ok (position.getD unplacedPosition)
  | none => .error (Error.internal ("unplaced label L" ++ toString l))

/-- Runs a frame to its end, for at most `fuel` instructions. -/
def runFrame [Libraries] (call : Caller) (body : Body) : Nat → Frame → Action Value
  | 0, _, w => .error .outOfFuel w
  | fuel + 1, f, w =>
    match body.code.instructions[f.pc]? with
    | none =>
      .error (.error (Error.internal ("pc " ++ toString f.pc ++ " past end of code"))) w
    | some i =>
      match step call body i { frame := f, world := w } with
      | .ok .next s => runFrame call body fuel { s.frame with pc := s.frame.pc + 1 } s.world
      | .ok (.done v) s => .ok v s.world
      | .ok (.jump l) s =>
        match jumpTarget body.code l with
        | .ok pc => runFrame call body fuel { s.frame with pc } s.world
        | .error e => .error (.error e) s.world
      | .error .outOfFuel s => .error .outOfFuel s.world
      | .error (.error e) s =>
        match unwind call body e s.frame s.world with
        | .ok f w => runFrame call body fuel f w
        | .error e w => .error e w

/-- Local slots: the receiver and the arguments, then `nil`. -/
def initialLocals (code : Code) (values : List Value) : Array Value :=
  values.toArray ++ Array.replicate (code.maxLocals - values.length) Value.nil

/-- Runs a method of a loaded class. -/
def execute [Libraries] (call : Caller) (fuel : Nat) (cls : ClassInfo) (index : Nat) (values : List Value) :
    Action Value :=
  match cls.origin with
  | .host => Action.fail (Error.internal (cls.name ++ " has no generated code"))
  | .loaded file firstSite =>
    match file.methods[index]? with
    | none =>
      Action.fail (Error.internal (cls.name ++ " has no method #" ++ toString index))
    | some m =>
      match m.code with
      | none => Action.fail (Error.runtime (cls.name ++ "." ++ m.name ++ " is abstract"))
      | some code =>
        runFrame call { code, sites := file.sites, firstSite } fuel
          { locals := initialLocals code values }

end LispMachine.Machine
