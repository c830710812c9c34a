import LispMachine.Form.Locals

/-!
# Exceptions

`throw` and `try`.  A compiled `try` stores its value in a local, so that every exit leaves the stack as it
was.  The clauses of `finally` are emitted once for each way out; handlers are listed in the order of the
clauses, with the one that runs `finally` for pending exceptions last.
-/

namespace LispMachine.Form

/-! ### Throw -/

/-- The form whose value is thrown. -/
def thrownForm (d : Datum) : Except Error Datum :=
  match argsOf d with
  | [value] => .ok value
  | _ => .error (d.readingError "throw takes exactly one argument")

def compileThrow (h : Handlers) (d : Datum) : FormM Unit := do
  let value ← FormM.ofExcept (thrownForm d)
  compileBoxed h value
  FormM.emit .throwTop

def evaluateThrow (h : Handlers) (d : Datum) : FormM Value := do
  let value ← FormM.ofExcept (thrownForm d)
  match ← FormM.withTail false (h.evaluate value) with
  | .nil => FormM.fail (Error.runtime "Cannot throw nil")
  | v => FormM.fail (Error.thrown v)

/-! ### The parts of a `try` -/

/-- A `catch` clause. -/
structure CatchClause where
  cls : String
  name : String
  body : List Datum

/-- The parts of a `try` form. -/
structure TryParts where
  body : List Datum
  catches : List CatchClause := []
  finally? : Option (List Datum) := none

/-- The head of a `catch` or `finally` clause. -/
def clauseHead? (d : Datum) : Option String :=
  d.head?.filter fun head => head == "catch" || head == "finally"

/-- The parts of a `catch` clause. -/
def catchClause (w : World) (clause : Datum) : Except Error CatchClause :=
  match argsOf clause with
  | cls :: name :: body =>
    match cls.symbol? with
    | none => .error (cls.readingError (unresolvedClass cls.toText))
    | some className =>
      match w.resolveClass? className with
      | none => .error (cls.compileError (unresolvedClass className))
      | some c =>
        match name.symbol?.filter fun n => !n.contains '/' with
        | some n => .ok { cls := c.name, name := n, body }
        | none =>
          .error (name.readingError ("Bad binding form, expected symbol, got: " ++ name.toText))
  | _ => .error (clause.readingError "catch requires a class and a binding name")

/-- Adds the clauses behind the body; `finally` comes last. -/
def TryParts.addAll (w : World) (parts : TryParts) : List Datum → Except Error TryParts
  | [] => .ok parts
  | clause :: rest =>
    match clauseHead? clause with
    | some "catch" => do
      let c ← catchClause w clause
      TryParts.addAll w { parts with catches := parts.catches ++ [c] } rest
    | some _ =>
      if rest.isEmpty then .ok { parts with finally? := some (argsOf clause) }
      else .error (clause.readingError "finally clause must be last in try expression")
    | none =>
      .error (clause.readingError "Only catch or finally clause can follow catch in try expression")

/-- Splits a `try` form; nothing may follow its `finally`. -/
def tryParts (w : World) (d : Datum) : Except Error TryParts :=
  let args := argsOf d
  let isBody := fun (d : Datum) => (clauseHead? d).isNone
  TryParts.addAll w { body := args.takeWhile isBody } (args.dropWhile isBody)

/-! ### Compiled `try` -/

/-- A handled range of code and what every exit from it shares. -/
structure TryFrame where
  /-- The records below the `try`, and their depth. -/
  base : List StackRecord
  depth : Nat
  /-- The slot of the value. -/
  result : Nat
  /-- Where all exits lead. -/
  after : Label
  finally? : Option (List Datum)

/-- The code of `finally`, the value of which is dropped. -/
def compileFinally (h : Handlers) : Option (List Datum) → FormM Unit
  | none => return ()
  | some body => do
    FormM.withTail false (compileBody h body)
    FormM.popValue

/-- Stores the value of a body that has been compiled. -/
def storeResult (t : TryFrame) : FormM Unit := do
  FormM.boxTop
  FormM.emit (.store t.result .any)

/-- Leaves a handled range by way of `finally`, if control gets there; tells whether it does. -/
def leaveTry (h : Handlers) (t : TryFrame) : FormM Bool := do
  if ← FormM.isUnreachable then return false
  else
    compileFinally h t.finally?
    FormM.emit (.goto t.after)
    return true

/-- Starts a handler with a value of the given type on the stack. -/
def startHandler (t : TryFrame) (ty : Ty) (l : Label) : FormM Unit := do
  FormM.modifyStack fun s => (s.withRecords t.base).push ty false
  FormM.place l

/-- Compiles a `catch` clause for a handled range; gives its own range and whether it gets to its end. -/
def compileCatch (h : Handlers) (t : TryFrame) (range : Label × Label) (c : CatchClause) :
    FormM ((Label × Label) × Bool) := do
  let handler ← FormM.newLabel
  FormM.modifyCode fun code => code.addHandler range.1 range.2 handler (some c.cls) t.depth
  let ty : Ty := .cls c.cls
  startHandler t ty handler
  let last ← FormM.withScope .methodLet do
    let slot ← storeLocal ty
    let first ← FormM.here
    FormM.bindName (.inSlot c.name ty slot)
    compileBody h c.body
    storeResult t
    let last ← FormM.here
    describe { name := c.name, slot, ty, first } last
    return last
  return ((handler, last), ← leaveTry h t)

/-- The handler that runs `finally` for an exception no clause caught, then throws it again. -/
def compilePending (h : Handlers) (t : TryFrame) (ranges : List (Label × Label)) : FormM Unit := do
  if t.finally?.isSome then
    let handler ← FormM.newLabel
    ranges.forM fun range =>
      FormM.modifyCode fun code => code.addHandler range.1 range.2 handler none t.depth
    startHandler t .any handler
    let pending ← storeLocal .any
    compileFinally h t.finally?
    FormM.emit (.load pending .any)
    FormM.emit .throwTop
    FormM.modifyCode fun code => code.freeSlot pending

/-- The body, the clauses and `finally`; tells whether control gets behind the `try`. -/
def compileRegions (h : Handlers) (parts : TryParts) (t : TryFrame) : FormM Bool := do
  let first ← FormM.here
  compileBody h parts.body
  storeResult t
  let last ← FormM.here
  let through ← leaveTry h t
  let caught ← parts.catches.mapM (compileCatch h t (first, last))
  compilePending h t ((first, last) :: caught.map Prod.fst)
  return through || caught.any Prod.snd

/-- Runs with one more `try` around, in the current method. -/
def withinTry {α : Type} (m : FormM α) : FormM α := do
  FormM.modifyMethod fun c => { c with tryDepth := c.tryDepth + 1 }
  m.andFinally fun s =>
    match s.methods with
    | c :: rest => { s with methods := { c with tryDepth := c.tryDepth - 1 } :: rest }
    | [] => s

def compileTry (h : Handlers) (d : Datum) : FormM Unit := do
  let parts ← FormM.ofExcept (tryParts (← FormM.world) d)
  if ← FormM.isUnreachable then return ()
  let stack ← FormM.stack
  let result ← FormM.allocSlot
  let after ← FormM.newLabel
  let t : TryFrame :=
    { base := stack.records, depth := stack.depth, result, after, finally? := parts.finally? }
  let reachable ← withinTry (compileRegions h parts t)
  FormM.modifyStack fun s => s.withRecords t.base
  if reachable then
    FormM.place after
    FormM.emit (.load result .any)
  else FormM.modifyStack TypeStack.pushUnreachable
  FormM.modifyCode fun code => code.freeSlot result

/-! ### Interpreted `try` -/

/-- The value of an action, or its error; running out of fuel is passed on. -/
def attempt {α : Type} (m : FormM α) : FormM (Except Error α) := fun s =>
  match m s with
  | .ok a s => .ok (.ok a) s
  | .error (.error e) s => .ok (.error e) s
  | .error .outOfFuel s => .error .outOfFuel s

/-- The body, and the first `catch` clause that fits what it throws. -/
def evaluateProtected (h : Handlers) (parts : TryParts) : FormM Value := do
  match ← attempt (evaluateBody h parts.body) with
  | .ok v => return v
  | .error e =>
    if e.isCatchable && !parts.catches.isEmpty then
      let exception ← FormM.lift (Machine.exceptionOf h.call e)
      let r ← FormM.registry
      match parts.catches.find? fun c => r.instanceOf exception c.cls with
      | none => FormM.fail e
      | some c =>
        FormM.withScope .interpretedLet do
          FormM.bindName (.holding c.name exception)
          evaluateBody h c.body
    else FormM.fail e

def evaluateTry (h : Handlers) (d : Datum) : FormM Value := do
  let parts ← FormM.ofExcept (tryParts (← FormM.world) d)
  modify fun s => { s with tryDepth := s.tryDepth + 1 }
  let outcome ← attempt (evaluateProtected h parts)
  modify fun s => { s with tryDepth := s.tryDepth - 1 }
  match parts.finally? with
  | some body =>
    let _ ← FormM.withTail false (evaluateBody h body)
  | none => pure ()
  FormM.ofExcept outcome

end LispMachine.Form
