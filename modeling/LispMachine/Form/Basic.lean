import LispMachine.Form.Expansion

/-!
# Working on forms

Forms are either evaluated at once or compiled into the current method.  Whatever works on a form with
parts takes `Handlers`, which work on the parts, so that the recursion through forms is in one place.
-/

namespace LispMachine

/-- How to run code, evaluate a form, and compile a form; `rounds` bounds how often a loop goes round. -/
structure Handlers where
  call : Caller
  rounds : Nat
  evaluate : Datum → FormM Value
  compile : Datum → FormM Unit

namespace Form

/-- The parts of a form behind its head. -/
def argsOf (d : Datum) : List Datum := (d.list?.getD []).drop 1

def unbound (name : String) : Error :=
  Error.unbound ("Unable to resolve symbol: " ++ name ++ " in this context")

/-- What a name means here; it has to mean something. -/
def resolve (name : String) : FormM Resolution := do
  match ← FormM.lookup name with
  | some r => return r
  | none => FormM.fail (unbound name)

/-- The message about a name that stands for no class. -/
def unresolvedClass (name : String) : String := "Unable to resolve classname: " ++ name

/-- The type a hint stands for: a reserved name, or a class. -/
def resolveHint (hint : String) : FormM Ty := do
  match Ty.ofHint? hint with
  | some ty => return ty
  | none =>
    match (← FormM.world).resolveClass? hint with
    | some c => return .cls c.name
    | none => FormM.fail (Error.compile (unresolvedClass hint))

/-! ### Constants -/

/-- The constant an atom folds to; symbols fold to none. -/
def atomConstant? : Atom → Option Constant
  | .nil => some .nil
  | .bool b => some (.bool b)
  | .char c => some (.char c)
  | .int n => some (.long n)
  | .float x => some (.double x)
  | .str s => some (.str s)
  | .regex s => some (.regex s)
  | .keyword k => some (.keyword k)
  | .symbol _ => none

mutual
/-- The datum needs no evaluation. -/
def isConstant : Datum → Bool
  | .atom a _ => (atomConstant? a).isSome
  | .list .. => false
  | .vector items _ => areConstant items
  | .set items _ => areConstant items
  | .map entries _ => entriesConstant entries

def areConstant : List Datum → Bool
  | [] => true
  | d :: ds => isConstant d && areConstant ds

def entriesConstant : List (Datum × Datum) → Bool
  | [] => true
  | (k, v) :: es => isConstant k && isConstant v && entriesConstant es
end

/-- The constant a datum folds to; a collection folds when all its items do. -/
def constantOf? (d : Datum) : Option Constant :=
  match d with
  | .atom a _ => atomConstant? a
  | d => if isConstant d then some (.quoted d) else none

def notLiteral (d : Datum) : Error := Error.internal (d.toText ++ " is not a literal")

/-- The constant of a literal. -/
def literalConstant (d : Datum) : Except Error Constant :=
  match constantOf? d with
  | some c => .ok c
  | none => .error (notLiteral d)

/-- The constant a quoted datum is kept as. -/
def quotedConstant (d : Datum) : Except Error Constant :=
  match d with
  | .atom (.symbol name) _ => .ok (.symbol name)
  | .atom a _ =>
    match atomConstant? a with
    | some c => .ok c
    | none => .error (Error.internal "unquotable literal")
  | d => .ok (.quoted d)

/-! ### Emission -/

def leftValues (d : Datum) (n : Int) : Error :=
  Error.internal
    (d.tag ++ " form left " ++ String.ofList (Double.intText n) ++ " values instead of one")

/-- Emits the code of a form, which has to leave one value more on the stack, unless control does not get
to its end. -/
def emitForm (d : Datum) (code : FormM Unit) : FormM Unit := do
  let before := (← FormM.stack).size
  code.atSpan d.span
  let stack ← FormM.stack
  if stack.isUnreachable || stack.size = before + 1 then return ()
  else FormM.fail ((leftValues d ((stack.size : Int) - before)).atSpan d.span)

/-- Compiles forms in sequence and keeps the value of the last; only the last is in tail position. -/
def compileBody (h : Handlers) : List Datum → FormM Unit
  | [] => FormM.emitConstant .nil
  | [last] => h.compile last
  | d :: rest => do
    FormM.withTail false (h.compile d)
    FormM.popValue
    compileBody h rest

/-- Evaluates forms in sequence; gives the value of the last. -/
def evaluateBody (h : Handlers) : List Datum → FormM Value
  | [] => return .nil
  | [last] => h.evaluate last
  | d :: rest => do
    let _ ← FormM.withTail false (h.evaluate d)
    evaluateBody h rest

/-- Evaluates forms in order. -/
def evaluateEach (h : Handlers) : List Datum → FormM (List Value)
  | [] => return []
  | d :: rest => do
    let v ← h.evaluate d
    let vs ← evaluateEach h rest
    return v :: vs

/-- Evaluates arguments, which are not in tail position. -/
def evaluateArgs (h : Handlers) (args : List Datum) : FormM (List Value) :=
  FormM.withTail false (evaluateEach h args)

/-- Compiles arguments, which are not in tail position. -/
def compileArgs (h : Handlers) (args : List Datum) : FormM Unit :=
  FormM.withTail false (args.forM h.compile)

/-- A form that is not in tail position, with its value boxed. -/
def compileBoxed (h : Handlers) (d : Datum) : FormM Unit := do
  FormM.withTail false (h.compile d)
  FormM.boxTop

/-! ### Collections -/

/-- The kind of a collection, its items in order, and its size. -/
def collectionParts? : Datum → Option (CollectionKind × List Datum × Nat)
  | .vector items _ => some (.vector, items, items.length)
  | .set items _ => some (.set, items, items.length)
  | .list items _ => some (.list, items, items.length)
  | .map entries _ => some (.map, entries.flatMap fun (k, v) => [k, v], entries.length)
  | .atom .. => none

def noItems : Error := Error.internal "collection form without items"

/-- Compiles forms one after the other and boxes each value. -/
def compileBoxedEach (h : Handlers) : List Datum → FormM Unit
  | [] => return ()
  | d :: rest => do
    h.compile d
    FormM.boxTop
    compileBoxedEach h rest

/-- A collection is built from its boxed items. -/
def compileCollection (h : Handlers) (d : Datum) : FormM Unit := do
  match collectionParts? d with
  | none => FormM.fail noItems
  | some (kind, items, count) =>
    FormM.withTail false (compileBoxedEach h items)
    FormM.emit (.makeCollection kind count)

/-- The items are evaluated in the order of writing. -/
def evaluateCollection (h : Handlers) (d : Datum) : FormM Value := do
  match collectionParts? d with
  | none => FormM.fail noItems
  | some (kind, items, _) =>
    let values ← evaluateArgs h items
    FormM.ofExcept (Machine.buildCollection kind values)

end Form

end LispMachine
