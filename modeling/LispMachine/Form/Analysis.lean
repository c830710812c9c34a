import LispMachine.Form.Special

/-!
# What a form is

Every form is a literal, a name, a collection, or a call: of a special form, of a global function, or of
whatever its head evaluates to.  A form headed by an expander or a derived form stands for its expansion.
`Form.handlers` ties the recursion through forms: the parts of a form get one unit of fuel less.
-/

namespace LispMachine.Form

/-- What a call is headed by. -/
inductive Callee where
  | special (f : SpecialForm)
  | global (v : VarRef)
  | computed
deriving Inhabited

/-- Tells what a head means; a name has to mean something. -/
def calleeOf (head : Datum) : FormM Callee := do
  match head.symbol? with
  | none => return .computed
  | some name =>
    match ← FormM.lookup name with
    | some (.var v) =>
      match (← FormM.world).root? v with
      | some (.special f) => return .special f
      | _ => return .global v
    | some _ => return .computed
    | none => FormM.fail ((unbound name).atSpan head.span)

/-! ### Compiling -/

/-- A form analysed for compilation. -/
inductive Analysis where
  | constant (c : Constant)
  | name
  | collection
  /-- The form stands for another one. -/
  | expanded (d : Datum)
  | special (f : SpecialForm)
  | globalCall (v : VarRef)
  | call
deriving Inhabited

namespace Analysis

/-- The constant a form folds to. -/
def constant? : Analysis → Option Constant
  | .constant c => some c
  | _ => none

end Analysis

/-- Analyses a call. -/
def analyseCall [Libraries] (call : Caller) (head d : Datum) : FormM Analysis := do
  let (expansion, _) ← Expansion.expand call d
  if !expansion.sameShape d then return .expanded expansion
  else
    match ← calleeOf head with
    | .special .quote => return .constant (← FormM.ofExcept (quotedDatum d >>= quotedConstant))
    | .special f => return .special f
    | .global v => return .globalCall v
    | .computed => return .call

/-- Analyses a form. -/
def analyse [Libraries] (call : Caller) (d : Datum) : FormM Analysis :=
  FormM.atSpan d.span <|
    match d with
    | .atom (.symbol _) _ => return .name
    | .atom .. => do return .constant (← FormM.ofExcept (literalConstant d))
    | .list [] _ => return .constant (.quoted d)
    | .list (head :: _) _ => analyseCall call head d
    | _ =>
      match constantOf? d with
      | some c => return .constant c
      | none => return .collection

/-- What a global function is known to return: final vars keep their functions. -/
def globalResult (w : World) (v : VarRef) : Ty :=
  match w.root? v with
  | some (.function f) => if (w.flagsOf v).isFinal && f.result ≠ .void then f.result else .any
  | _ => .any

/-- Calls the value of a var. -/
def compileGlobalCall (h : Handlers) (d : Datum) (v : VarRef) : FormM Unit := do
  let args := argsOf d
  compileArgs h args
  if ← FormM.isUnreachable then return ()
  let argTypes ← topTypes args.length
  let ret := globalResult (← FormM.world) v
  emitSite (.globalCall v.space v.name) argTypes ret d

/-- A call of whatever the head evaluates to, which is the first operand. -/
def compileCall (h : Handlers) (d : Datum) : FormM Unit := do
  let items := d.list?.getD []
  compileArgs h items
  if ← FormM.isUnreachable then return ()
  let argTypes ← topTypes items.length
  let constant := (items.head?.bind Datum.keyword?).map Constant.keyword
  FormM.emitCall { SiteSpec.new .invoke argTypes .any with constant, span := some d.span }

/-- Emits the code of an analysed form. -/
def emitAnalysed [Libraries] (h : Handlers) (d : Datum) (a : Analysis) : FormM Unit :=
  emitForm d <|
    match a with
    | .constant c => FormM.emitConstant c
    | .name => compileSymbol d
    | .collection => compileCollection h d
    | .expanded e => h.compile e
    | .special f => compileSpecial h f d
    | .globalCall v => compileGlobalCall h d v
    | .call => compileCall h d

/-- Compiles a form of any kind. -/
def compileForm [Libraries] (h : Handlers) (d : Datum) : FormM Unit := do
  emitAnalysed h d (← analyse h.call d)

/-! ### Evaluating -/

/-- Evaluates head and arguments from left to right, then applies. -/
def evaluateCall [Libraries] (h : Handlers) (head : Datum) (args : List Datum) (d : Datum) : FormM Value := do
  let (expansion, _) ← Expansion.expand h.call d
  if !expansion.sameShape d then h.evaluate expansion
  else
    match ← calleeOf head with
    | .special f => evaluateSpecial h f d
    | .global v =>
      let w ← FormM.world
      FormM.ofExcept (checkVarValue w v)
      let callee ← FormM.ofExcept (w.valueOf v)
      let values ← evaluateArgs h args
      FormM.lift (h.call (.apply callee values))
    | .computed =>
      let callee ← FormM.withTail false (h.evaluate head)
      let values ← evaluateArgs h args
      FormM.lift (h.call (.apply callee values))

/-- Evaluates a form of any kind. -/
def evaluateForm [Libraries] (h : Handlers) (d : Datum) : FormM Value :=
  FormM.atSpan d.span <|
    match d with
    | .atom (.symbol _) _ => evaluateSymbol d
    | .atom .. => return d.toValue
    | .list [] _ => return .list []
    | .list (head :: args) _ => evaluateCall h head args d
    | _ => evaluateCollection h d

/-! ### Recursion -/

/-- Handlers that do nothing for lack of fuel. -/
def exhausted : Handlers :=
  { call := fun _ => throw .outOfFuel, rounds := 0
    evaluate := fun _ => throw .outOfFuel, compile := fun _ => throw .outOfFuel }

/-- Work on forms; `fuel` bounds how deep forms nest and how long code runs. -/
def handlers [Libraries] : Nat → Handlers
  | 0 => exhausted
  | fuel + 1 =>
    { call := Machine.call fuel, rounds := fuel
      evaluate := fun d => evaluateForm (handlers fuel) d
      compile := fun d => compileForm (handlers fuel) d }

end LispMachine.Form
