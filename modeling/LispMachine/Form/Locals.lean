import LispMachine.Form.Basic

/-!
# Locals and loops

`let` gives each local the type its value is known to have, or the hinted type where that can be imposed.
The locals of a `loop` are boxed, so that every `recur` can store into them.  A compiled `recur` is a jump;
an interpreted one hands its values to the innermost loop, which goes round again.
-/

namespace LispMachine.Form

/-! ### Bindings -/

/-- A local that is being bound: the symbol with its metadata, its name, and the form of its value. -/
structure LocalInit where
  target : Datum
  name : String
  init : Datum

/-- The locals of a binding vector, which has an even number of items. -/
def localInits : List Datum → Except Error (List LocalInit)
  | target :: init :: rest =>
    match target.symbol? with
    | some name =>
      if name.contains '/' then unsupported target
      else do return { target, name, init } :: (← localInits rest)
    | none => unsupported target
  | _ => .ok []
where
  unsupported (target : Datum) : Except Error (List LocalInit) :=
    .error (target.readingError ("Unsupported binding form: " ++ target.toText))

/-- The locals and the body of a `let` or a `loop`. -/
def bindingParts (form : String) (d : Datum) : Except Error (List LocalInit × List Datum) :=
  match argsOf d with
  | [] => .error (d.readingError (form ++ " requires a binding vector"))
  | bindings :: body =>
    match bindings.vector? with
    | none => .error (bindings.readingError (form ++ " requires a vector for its binding"))
    | some items =>
      if items.length % 2 = 0 then do return (← localInits items, body)
      else
        .error (bindings.readingError
          (form ++ " requires an even number of forms in binding vector"))

/-- A hint can be imposed on a value of an inferred type; if not, a warning is raised. -/
def hintApplies (l : LocalInit) (hint : String) (hinted inferred : Ty) : FormM Bool := do
  let w ← FormM.world
  if Coercion.compatible w.registry hinted inferred then return true
  else
    if w.options.warnOnHintMismatch then
      FormM.warn (some l.target.span)
        ("type hint " ++ hint ++ " of " ++ l.name ++ " does not match its inferred type "
          ++ inferred.toText)
    return false

/-- The type of a local whose value is on top; the value is converted to it. -/
def localType (l : LocalInit) : FormM Ty := do
  match ← FormM.topType?, l.target.hint with
  | none, none => return .any
  | none, some hint => resolveHint hint
  | some inferred, none => return inferred
  | some inferred, some hint =>
    let hinted ← resolveHint hint
    if ← hintApplies l hint hinted inferred then
      FormM.coerceTop hinted
      return hinted
    else return inferred

/-! ### Let -/

/-- A local in a slot, from a place in the code on. -/
structure PlacedLocal where
  name : String
  slot : Nat
  ty : Ty
  first : Label

/-- Stores the top value as a new local. -/
def storeLocal (ty : Ty) : FormM Nat := do
  let slot ← FormM.allocSlot
  FormM.emit (.store slot ty)
  return slot

/-- Tells where a local lives up to `last`. -/
def describe (l : PlacedLocal) (last : Label) : FormM Unit :=
  FormM.modifyCode fun c => c.describeLocal l.name l.slot l.ty l.first last

/-- Computes the value of a local and puts it into a slot. -/
def compileLocal (h : Handlers) (l : LocalInit) : FormM PlacedLocal := do
  FormM.withTail false (h.compile l.init)
  let ty ← localType l
  let slot ← storeLocal ty
  let first ← FormM.here
  FormM.bindName (.inSlot l.name ty slot)
  return { name := l.name, slot, ty, first }

def compileLet (h : Handlers) (d : Datum) : FormM Unit := do
  let (locals, body) ← FormM.ofExcept (bindingParts "let" d)
  FormM.withScope .methodLet do
    let placed ← locals.mapM (compileLocal h)
    compileBody h body
    let last ← FormM.here
    placed.forM fun l => describe l last

/-- The hint of an interpreted local has to name a type; it is held against a literal value. -/
def checkHint (l : LocalInit) : FormM Unit := do
  match l.target.hint with
  | none => return ()
  | some hint =>
    let hinted ← resolveHint hint
    match constantOf? l.init with
    | some c =>
      let _ ← hintApplies l hint hinted c.ty
    | none => return ()

/-- Binds a local to the value of its form. -/
def evaluateLocal (h : Handlers) (l : LocalInit) : FormM Unit := do
  let v ← FormM.withTail false (h.evaluate l.init)
  FormM.bindName (.holding l.name v)

def evaluateLet (h : Handlers) (d : Datum) : FormM Value := do
  let (locals, body) ← FormM.ofExcept (bindingParts "let" d)
  FormM.withScope .interpretedLet do
    locals.forM fun l => do
      checkHint l
      evaluateLocal h l
    evaluateBody h body

/-! ### Loop -/

/-- Runs with one more loop to go back to. -/
def withLoop {α : Type} (target : LoopTarget) (m : FormM α) : FormM α := do
  let saved := (← get).loops
  modify fun s => { s with loops := target :: saved }
  m.andFinally fun s => { s with loops := saved }

/-- Stores the boxed value of a local of a loop. -/
def compileLoopLocal (h : Handlers) (l : LocalInit) : FormM (String × Nat) := do
  compileBoxed h l.init
  let slot ← storeLocal .any
  FormM.bindName (.inSlot l.name .any slot)
  return (l.name, slot)

def compileLoop (h : Handlers) (d : Datum) : FormM Unit := do
  let (locals, body) ← FormM.ofExcept (bindingParts "loop" d)
  FormM.withScope .methodLet do
    let placed ← locals.mapM (compileLoopLocal h)
    let head ← FormM.here
    let target : LoopTarget :=
      .compiled head (placed.map fun l => (l.2, .any)) (← FormM.tryDepth)
    withLoop target (FormM.withTail true (compileBody h body))
    let last ← FormM.here
    placed.forM fun l => describe { name := l.1, slot := l.2, ty := .any, first := head } last

/-- Takes the values a `recur` left. -/
def takeSignal : FormM (Option (List Value)) :=
  modifyGet fun s => (s.recurSignal, { s with recurSignal := none })

/-- Runs the body of an interpreted loop until it ends without a `recur`. -/
def evaluateRounds (body : FormM Value) : Nat → FormM Value
  | 0 => throw .outOfFuel
  | rounds + 1 => do
    let v ← FormM.withTail true body
    match ← takeSignal with
    | none => return v
    | some values =>
      let scopes ← FormM.ofExcept ((← get).scopes.rebindTop values)
      modify fun s => { s with scopes }
      evaluateRounds body rounds

def evaluateLoop (h : Handlers) (d : Datum) : FormM Value := do
  let (locals, body) ← FormM.ofExcept (bindingParts "loop" d)
  FormM.withScope .interpretedLet do
    locals.forM (evaluateLocal h)
    let target : LoopTarget := .evaluated locals.length (← FormM.tryDepth)
    (withLoop target (evaluateRounds (evaluateBody h body) h.rounds)).andFinally fun s =>
      { s with recurSignal := none }

/-! ### Recur -/

/-- The loop a `recur` with `n` arguments goes back to. -/
def recurTarget (d : Datum) (n : Nat) : FormM LoopTarget := do
  let s ← get
  match s.loops with
  | [] => FormM.fail (d.compileError "recur outside of a loop or fn")
  | target :: _ =>
    if !s.tail then FormM.fail (d.compileError "Can only recur from tail position")
    else if target.arity ≠ n then
      FormM.fail (d.compileError
        ("Mismatched argument count to recur, expected: " ++ toString target.arity ++ " args, got: "
          ++ toString n))
    else if target.tryDepth ≠ (← FormM.tryDepth) then
      FormM.fail (d.compileError "Cannot recur across try")
    else return target

/-- Compiles an argument of a `recur` for the local it is stored into. -/
def compileRecurArg (h : Handlers) (arg : Datum) (ty : Ty) : FormM Unit := do
  h.compile arg
  if ty = .any then FormM.boxTop else FormM.coerceTop ty

/-- All arguments are computed before any local is overwritten. -/
def compileRecur (h : Handlers) (d : Datum) : FormM Unit := do
  let args := argsOf d
  match ← recurTarget d args.length with
  | .evaluated .. => FormM.fail (Error.internal "interpreted loop target in compiled code")
  | .compiled head slots _ =>
    FormM.withTail false ((args.zip slots).forM fun (arg, _, ty) => compileRecurArg h arg ty)
    slots.reverse.forM fun (slot, ty) => FormM.emit (.store slot ty)
    FormM.emit (.goto head)

def evaluateRecur (h : Handlers) (d : Datum) : FormM Value := do
  let args := argsOf d
  let _ ← recurTarget d args.length
  let values ← evaluateArgs h args
  modify fun s => { s with recurSignal := some values }
  return .nil

end LispMachine.Form
