import LispMachine.Bytecode.CodeBuffer
import LispMachine.Bytecode.Coercion
import LispMachine.Bytecode.TypeStack
import LispMachine.Machine.Definition
import LispMachine.Scope.Lookup

/-!
# The state of working on a form

While a top-level form is evaluated or compiled, the world is joined by what is known about the text
around the form at hand: scopes, the classes and methods being emitted, loops that `recur` may go back to,
and whether the form is in tail position.
-/

namespace LispMachine

/-- What a class being emitted is for. -/
inductive ClassMode where
  | type
  | closure
  | anonymous
deriving DecidableEq, Inhabited

/-- An outer local that a class keeps in a field set by its constructor. -/
structure Capture where
  name : String
  field : String
  ty : Ty
deriving DecidableEq, Inhabited

/-- A class being emitted. -/
structure ClassContext where
  file : ClassFile
  mode : ClassMode
  captures : List Capture := []
deriving Inhabited

namespace ClassContext

/-- The class with one more method. -/
def addMethod (c : ClassContext) (m : MethodDef) : ClassContext :=
  { c with file := { c.file with methods := c.file.methods ++ [m] } }

end ClassContext

/-- A method being emitted. -/
structure MethodContext where
  code : CodeBuffer := {}
  stack : TypeStack := {}
  tryDepth : Nat := 0
  /-- The position of the owning class among those being emitted. -/
  owner : Nat
deriving Inhabited

/-- Where a `recur` goes back to. -/
inductive LoopTarget where
  /-- A label, with the slots that are rebound and their types. -/
  | compiled (head : Label) (slots : List (Nat × Ty)) (tryDepth : Nat)
  /-- The innermost interpreted loop. -/
  | evaluated (arity : Nat) (tryDepth : Nat)
deriving DecidableEq, Inhabited

namespace LoopTarget

/-- How many values `recur` has to hand over. -/
def arity : LoopTarget → Nat
  | .compiled _ slots _ => slots.length
  | .evaluated arity _ => arity

/-- How many `try` forms were open at the head of the loop. -/
def tryDepth : LoopTarget → Nat
  | .compiled _ _ d => d
  | .evaluated _ d => d

end LoopTarget

/-- A function class made while interpreting, to be used again for the same form with the same names in
scope. -/
structure InterpretedFn where
  form : Datum
  space : String
  locals : List String
  cls : ClassInfo
  captures : List Capture
deriving Inhabited

/-- What working on a form can see and change. -/
structure FormState where
  world : World
  scopes : Scopes := {}
  /-- Classes being emitted, the outermost first. -/
  classes : Array ClassContext := #[]
  /-- Methods being emitted, the innermost first. -/
  methods : List MethodContext := []
  /-- Loops around the form, the innermost first. -/
  loops : List LoopTarget := []
  /-- The form is in tail position. -/
  tail : Bool := false
  /-- Values an interpreted `recur` hands to its loop. -/
  recurSignal : Option (List Value) := none
  /-- Names generated in the open templates, the innermost first. -/
  templates : List (Table String String) := []
  /-- How many interpreted `try` forms are open. -/
  tryDepth : Nat := 0
  interpretedFns : Table Span (List InterpretedFn) := {}
deriving Inhabited

/-- Working on forms: may fail, and keeps what was changed before. -/
abbrev FormM := EStateM Fault FormState

namespace FormM

def fail {α : Type} (e : Error) : FormM α := throw (.error e)

def ofExcept {α : Type} : Except Error α → FormM α
  | .ok a => pure a
  | .error e => fail e

/-- An action on the world, which is handed over whole. -/
def lift {α : Type} (a : Action α) : FormM α := fun s =>
  let world := s.world
  let s := { s with world := {} }
  match a world with
  | .ok x world => .ok x { s with world }
  | .error e world => .error e { s with world }

def world : FormM World := do return (← get).world

def registry : FormM Registry := do return (← get).world.registry

/-- Gives errors a place unless they have one. -/
def atSpan {α : Type} (span : Span) (m : FormM α) : FormM α := fun s =>
  match m s with
  | .error (.error e) s => .error (.error (e.atSpan span)) s
  | r => r

/-- What follows runs whether the first part fails or not. -/
def andFinally {α : Type} (m : FormM α) (after : FormState → FormState) : FormM α := fun s =>
  match m s with
  | .ok a s => .ok a (after s)
  | .error e s => .error e (after s)

/-- How many methods are open; none while interpreting. -/
def level : FormM Nat := do return (← get).methods.length

/-- How many `try` forms are open in the method or in interpreted code. -/
def tryDepth : FormM Nat := do
  let s ← get
  return match s.methods with
    | m :: _ => m.tryDepth
    | [] => s.tryDepth

/-- What a name means here. -/
def lookup (name : String) : FormM (Option Resolution) := do
  let s ← get
  ofExcept (s.scopes.lookup s.world name s.methods.length)

/-- Makes a class known by its simple name in the current namespace. -/
def importClass (full : String) : FormM Unit := do
  let world ← ofExcept ((← get).world.importClass full)
  modify fun s => { s with world }

/-! ### The current method -/

def noMethod : Error := Error.internal "no method is being emitted"

/-- The method that code is emitted into. -/
def method : FormM MethodContext := do
  match (← get).methods with
  | m :: _ => return m
  | [] => fail noMethod

/-- What is on the stack of the current method. -/
def stack : FormM TypeStack := do return (← method).stack

/-- Changes the current method. -/
def modifyMethod (f : MethodContext → MethodContext) : FormM Unit := do
  match (← get).methods with
  | m :: rest => modify fun s => { s with methods := f m :: rest }
  | [] => fail noMethod

/-- Changes what is on the stack of the current method. -/
def modifyStack (f : TypeStack → TypeStack) : FormM Unit :=
  modifyMethod fun m => { m with stack := f m.stack }

/-- Changes the code of the current method. -/
def modifyCode (f : CodeBuffer → CodeBuffer) : FormM Unit :=
  modifyMethod fun m => { m with code := f m.code }

/-- Changes the code of the current method by a function that gives a result too. -/
def onCode {α : Type} (f : CodeBuffer → α × CodeBuffer) : FormM α := do
  let (a, code) := f (← method).code
  modifyCode fun _ => code
  return a

def newLabel : FormM Label := onCode CodeBuffer.newLabel

def place (l : Label) : FormM Unit := modifyCode fun c => c.place l

def here : FormM Label := onCode CodeBuffer.here

def allocSlot : FormM Nat := onCode CodeBuffer.allocSlot

/-- Control does not get to the end of the current method. -/
def isUnreachable : FormM Bool := do
  match (← get).methods with
  | m :: _ => return m.stack.isUnreachable
  | [] => return false

def topType? : FormM (Option Ty) := do return (← stack).topType?

/-! ### The current class -/

/-- The position of the class that owns the current method. -/
def ownerIndex : FormM Nat := do
  let s ← get
  match s.methods with
  | m :: _ => return m.owner
  | [] =>
    if s.classes.isEmpty then fail (Error.internal "no class is being emitted")
    else return s.classes.size - 1

/-- The class that owns the current method. -/
def currentClass : FormM ClassContext := do
  match (← get).classes[← ownerIndex]? with
  | some c => return c
  | none => fail (Error.internal "method owner out of range")

/-- Changes the class that owns the current method. -/
def modifyClass (f : ClassContext → ClassContext) : FormM Unit := do
  let i ← ownerIndex
  modify fun s => { s with classes := s.classes.modify i f }

def className : FormM String := do return (← currentClass).file.name

/-! ### Emitting -/

/-- Appends an instruction to the current method, unless control cannot get there. -/
def emit (i : Instruction) : FormM Unit := do
  let s ← get
  match s.methods with
  | [] => fail (Error.internal "emit outside of a method")
  | m :: _ =>
    if m.stack.isUnreachable then return ()
    else
      let sites := ((s.classes[m.owner]?).map fun c => c.file.sites).getD []
      let effect ← ofExcept (i.effect sites)
      let (result, stack) := m.stack.apply effect
      modifyStack fun _ => stack
      ofExcept result
      modifyCode fun c => c.push i
      if i.endsBlock then modifyStack TypeStack.pushUnreachable

/-- Appends instructions in order. -/
def emitAll (code : List Instruction) : FormM Unit := code.forM emit

/-- Pushes a constant and remembers that it is one. -/
def emitConstant (c : Constant) : FormM Unit := do
  emit (.const c)
  modifyStack TypeStack.markConstant

/-- Adds a call site to the current class and emits the call. -/
def emitCall (spec : SiteSpec) : FormM Unit := do
  let index := (← currentClass).file.sites.length
  modifyClass fun c => { c with file := { c.file with sites := c.file.sites ++ [spec] } }
  emit (.invokeDynamic index)

/-- Boxes the top value. -/
def boxTop : FormM Unit := do
  match ← topType? with
  | some ty => emitAll (Coercion.toBoxed ty)
  | none => return ()

/-- Drops the top value. -/
def popValue : FormM Unit := do
  match (← topType?).map Ty.width with
  | some 1 => emit .pop
  | some 2 => emit .pop2
  | _ => return ()

/-- Turns the top value into one of a type. -/
def coerceTop (target : Ty) : FormM Unit := do
  match ← topType? with
  | some ty => emitAll (← ofExcept (Coercion.coerce (← registry) ty target))
  | none => return ()

/-- Leaves the records of `base` with the result of the form on top, or nothing reachable when no path
gives a result. -/
def settle (base : List StackRecord) (result : Option Ty) : FormM Unit := do
  modifyStack fun s => s.withRecords base
  if base.contains .unreachable then return ()
  else
    match result with
    | some ty => modifyStack fun s => s.push ty false
    | none => modifyStack TypeStack.pushUnreachable

/-! ### Captures -/

/-- A field name for a capture that is not taken, trying numbers from `n` on. -/
def freshField (taken : List String) (base : String) : Nat → Nat → String
  | 0, n => base ++ "_" ++ toString n
  | fuel + 1, n =>
    let candidate := base ++ "_" ++ toString n
    if taken.contains candidate then freshField taken base fuel (n + 1) else candidate

/-- The field name of a new capture: the spelling of the name, numbered if it is taken. -/
def captureField (c : ClassContext) (name : String) : String :=
  let taken := c.captures.map Capture.field ++ c.file.fields.map FieldDef.name
  let base := munge name
  if taken.contains base then freshField taken base taken.length 1 else base

/-- Records that the current class captures a local; the same local is captured once. -/
def capture (name : String) (ty : Ty) : FormM Capture := do
  let c ← currentClass
  if c.mode = .type then
    fail (Error.compile
      (c.file.name ++ ": deftype methods cannot close over local " ++ name))
  else
    match c.captures.find? fun r => r.name == name with
    | some r => return r
    | none =>
      let r : Capture := { name, field := captureField c name, ty }
      modifyClass fun c => { c with captures := c.captures ++ [r] }
      return r

/-! ### Nesting -/

/-- Runs with the tail flag set, and puts it back. -/
def withTail {α : Type} (tail : Bool) (m : FormM α) : FormM α := do
  let saved := (← get).tail
  modify fun s => { s with tail }
  m.andFinally fun s => { s with tail := saved }

/-- Gives the slots of dropped frames back to the method they belong to. -/
def releaseSlots (frames : List ScopeFrame) (level : Nat) (s : FormState) : FormState :=
  match s.methods with
  | m :: rest =>
    if s.methods.length = level then
      let bindings := (frames.filter fun f => f.kind == .methodLet && f.level == level).flatMap
        fun f => f.bindings.reverse
      let code := bindings.foldl (fun (code : CodeBuffer) b =>
        match b.slot with
        | .local slot => code.freeSlot slot
        | _ => code) m.code
      { s with methods := { m with code } :: rest }
    else s
  | [] => s

/-- Runs inside a new scope, which is gone afterwards. -/
def withScope {α : Type} (kind : ScopeKind) (m : FormM α) : FormM α := do
  let s ← get
  let depth := s.scopes.depth
  let level := s.methods.length
  modify fun s => { s with scopes := s.scopes.push kind level }
  m.andFinally fun s =>
    let (dropped, scopes) := s.scopes.truncate depth
    releaseSlots dropped level { s with scopes }

/-- Adds a binding to the innermost scope. -/
def bindName (b : Binding) : FormM Unit := do
  let scopes ← ofExcept ((← get).scopes.bind b)
  modify fun s => { s with scopes }

/-- Emits into a new method and gives its finished context; loops and tail position do not reach across
methods. -/
def withMethod {α : Type} (context : MethodContext) (m : FormM α) : FormM (α × MethodContext) := do
  let saved ← get
  let depth := saved.methods.length
  modify fun s => { s with methods := context :: s.methods, loops := [] }
  let run : FormM (α × Option MethodContext) := do
    let a ← m
    let s ← get
    return (a, s.methods[s.methods.length - depth - 1]?)
  let (a, context) ← run.andFinally fun s =>
    { s with loops := saved.loops, tail := saved.tail,
             methods := s.methods.drop (s.methods.length - depth) }
  match context with
  | some context => return (a, context)
  | none => fail (Error.internal "method context lost")

/-- Emits a class, given its position, and gives its finished context. -/
def withClass {α : Type} (context : ClassContext) (m : Nat → FormM α) :
    FormM (α × ClassContext) := do
  let depth := (← get).classes.size
  modify fun s => { s with classes := s.classes.push context }
  let run : FormM (α × Option ClassContext) := do
    let a ← m depth
    return (a, (← get).classes[depth]?)
  let (a, context) ← run.andFinally fun s => { s with classes := s.classes.take depth }
  match context with
  | some context => return (a, context)
  | none => fail (Error.internal "class context lost")

/-- Raises a warning. -/
def warn (span : Option Span) (message : String) : FormM Unit :=
  lift (modify fun w => { w with warnings := w.warnings.push { message, span } })

end FormM

end LispMachine
