import LispMachine.Datum.Printer
import LispMachine.Form.State

/-!
# Expansion

Rewriting a form until its head is neither a derived form nor a var flagged as an expander.  Derived forms
are rewritten into the special forms; an expander is called with the unevaluated arguments as data.
-/

namespace LispMachine.Expansion

/-- How many steps an expansion may take. -/
def maxSteps : Nat := 1024

/-- Heads that `derive?` expands by name. -/
def derivedForms : List String :=
  ["when", "when-not", "if-not", "cond", "and", "or", "->", "->>", "defn", "defn-", "comment"]

/-! ### Derived forms -/

/-- A form headed by a symbol, all at one place. -/
def formOf (head : String) (args : List Datum) (span : Span) : Datum :=
  .ofList (.symbol head span :: args) span

/-- `when` and `when-not`: a conditional with a body and no other branch. -/
def whenForm (head : String) (args : List Datum) (d : Datum) : Except Error Datum :=
  match args with
  | [] => .error (d.readingError (head ++ " requires a test"))
  | test :: body =>
    let block := formOf "do" body d.span
    if head = "when" then .ok (formOf "if" [test, block] d.span)
    else .ok (formOf "if" [test, .nil d.span, block] d.span)

/-- `if-not`: a conditional with its branches exchanged. -/
def ifNotForm (args : List Datum) (d : Datum) : Except Error Datum :=
  match args with
  | [test, whenFalse] => .ok (formOf "if" [test, .nil d.span, whenFalse] d.span)
  | [test, whenFalse, whenTrue] => .ok (formOf "if" [test, whenTrue, whenFalse] d.span)
  | _ => .error (d.readingError "if-not takes a test and one or two branches")

/-- Tests and results as nested conditionals. -/
def condClauses (span : Span) : List Datum → Datum
  | test :: result :: rest => formOf "if" [test, result, condClauses span rest] span
  | _ => .nil span

/-- `cond`: a chain of conditionals. -/
def condForm (args : List Datum) (d : Datum) : Except Error Datum :=
  if args.length % 2 = 0 then .ok (condClauses d.span args)
  else .error (d.readingError "cond requires an even number of forms")

/-- One step of `and` or `or` with two or more arguments. -/
def shortCircuit (op temp : String) (first : Datum) (rest : List Datum) (span : Span) : Datum :=
  let t := Datum.symbol temp span
  let others := formOf op rest span
  let branch := if op = "and" then formOf "if" [t, others, t] span else formOf "if" [t, t, others] span
  formOf "let" [.ofVector [t, first] span, branch] span

/-- Puts a form into a step of a threading form. -/
def threadStep (last : Bool) (acc step : Datum) : Datum :=
  match step.list? with
  | some (head :: args) =>
    .ofList (if last then head :: args ++ [acc] else head :: acc :: args) step.span
  | _ => .ofList [step, acc] step.span

/-- Threads a value through forms, as their first argument or as their last. -/
def threadForm (last : Bool) (args : List Datum) (d : Datum) : Except Error Datum :=
  match args with
  | [] => .error (d.readingError "threading requires an initial value")
  | init :: steps => .ok (steps.foldl (threadStep last) init)

/-- Leaves out a text in front of other forms. -/
def skipDoc : List Datum → List Datum
  | doc :: more => if doc.isStr && !more.isEmpty then more else doc :: more
  | [] => []

/-- `defn`: a definition whose value is a function. -/
def defnForm (isPrivate : Bool) (args : List Datum) (d : Datum) : Except Error Datum :=
  match args with
  | [] => .error (d.readingError "defn requires a name")
  | name :: rest =>
    match name.symbol? with
    | none => .error (name.readingError "First argument to defn must be a symbol")
    | some fnName =>
      match skipDoc rest with
      | [] => .error (d.readingError ("defn " ++ name.toText ++ " has no parameter vector"))
      | rest =>
        let target := if isPrivate then name.addFlag "private" else name
        let fnForm := formOf "fn" (.symbol fnName name.span :: rest) d.span
        .ok (formOf "def" [target, fnForm] d.span)

/-! ### Members of classes -/

/-- A name behind a leading dot. -/
def memberName? (head : String) : Option String :=
  match head.toList with
  | '.' :: c :: cs => if c == '.' then none else some (String.ofList (c :: cs))
  | _ => none

/-- A name in front of a trailing dot. -/
def constructedName? (head : String) : Option String :=
  match head.toList.reverse with
  | '.' :: c :: cs => if c == '.' then none else some (String.ofList (c :: cs).reverse)
  | _ => none

/-- Member access by shorthand: `(.m x …)`, `(Class. …)` and `(Class/m …)`. -/
def memberForm (w : World) (head : String) (args : List Datum) (d : Datum) :
    Except Error (Option Datum) :=
  match memberName? head with
  | some member =>
    match args with
    | [] => .error (d.readingError ("Malformed member expression: (" ++ head ++ ")"))
    | target :: rest => .ok (some (formOf "." (target :: .symbol member d.span :: rest) d.span))
  | none =>
    match constructedName? head with
    | some cls => .ok (some (formOf "new" (.symbol cls d.span :: args) d.span))
    | none =>
      match splitQualified head with
      | (some q, member) =>
        if (w.resolveClass? q).isSome then
          .ok (some (formOf "." (.symbol q d.span :: .symbol member d.span :: args) d.span))
        else .ok none
      | (none, _) => .ok none

/-! ### Steps -/

/-- A name for a temporary. -/
def gensym (stem : String) : FormM String := FormM.lift (Action.change fun w => w.gensym stem)

/-- One step of `and` or `or`. -/
def junction (op : String) (empty : Datum) (args : List Datum) (d : Datum) : FormM Datum := do
  match args with
  | [] => return empty
  | [only] => return only
  | first :: rest => return shortCircuit op (← gensym op) first rest d.span

/-- One expansion of a derived form, or nothing if the form is none. -/
def derive? (d : Datum) : FormM (Option Datum) := do
  match d.list? with
  | none => return none
  | some items =>
    match items with
    | [] => return none
    | headDatum :: args =>
      match headDatum.symbol? with
      | none => return none
      | some head =>
        if head = "when" ∨ head = "when-not" then
          return some (← FormM.ofExcept (whenForm head args d))
        else if head = "if-not" then return some (← FormM.ofExcept (ifNotForm args d))
        else if head = "cond" then return some (← FormM.ofExcept (condForm args d))
        else if head = "and" then
          return some (← junction "and" (.ofAtom (.bool true) d.span) args d)
        else if head = "or" then return some (← junction "or" (.nil d.span) args d)
        else if head = "->" ∨ head = "->>" then
          return some (← FormM.ofExcept (threadForm (head == "->>") args d))
        else if head = "defn" ∨ head = "defn-" then
          return some (← FormM.ofExcept (defnForm (head == "defn-") args d))
        else if head = "comment" then return some (.nil d.span)
        else FormM.ofExcept (memberForm (← FormM.world) head args d)

/-- Calls an expander with the unevaluated arguments. -/
def applyExpander [Libraries] (call : Caller) (v : VarRef) (d : Datum) : FormM Datum := do
  let callee ← FormM.lift (Action.read fun w => w.valueOf v)
  let args := (d.list?.getD []).drop 1
  let result ← (FormM.lift (call (.apply callee (args.map Datum.toValue)))).atSpan d.span
  FormM.ofExcept (result.toDatum d.span)

/-- One step of expansion, or nothing if the form stays as it is. -/
def expandOnce [Libraries] (call : Caller) (d : Datum) : FormM (Option Datum) := do
  match d.head? with
  | none => return none
  | some head =>
    match ← FormM.lookup head with
    | some (.var v) =>
      if ((← FormM.world).flagsOf v).isExpander then return some (← applyExpander call v d)
      else return none
    | some _ => return none
    | none => derive? d

/-- Expands a form that came from `origin`, with `left` steps allowed after `steps` of them. -/
def expandWithin [Libraries] (call : Caller) (origin : Datum) : Nat → Nat → Datum → FormM (Datum × Nat)
  | 0, _, _ =>
    FormM.fail (origin.compileError ("macro expansion of " ++ origin.toText ++ " does not terminate"))
  | left + 1, steps, d => do
    match ← expandOnce call d with
    | none => return (d, steps)
    | some next =>
      if next.sameShape d then return (d, steps)
      else expandWithin call origin left (steps + 1) next

/-- Expands a form as far as it goes; also gives the number of steps. -/
def expand [Libraries] (call : Caller) (d : Datum) : FormM (Datum × Nat) :=
  expandWithin call d (maxSteps + 1) 0 d

end LispMachine.Expansion
