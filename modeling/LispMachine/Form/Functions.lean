import LispMachine.Form.Methods

/-!
# Functions

A `fn` becomes a class with one method for each arity; the locals it captures are the parameters of the
constructor.  Interpreted code makes the class once and uses it again while the names in scope are the
same.
-/

namespace LispMachine.Form

/-- The name of a parameter, which has no qualifier. -/
def paramName (param : Datum) : Except Error String :=
  match param.symbol? with
  | none => .error (param.readingError ("Unsupported binding form: " ++ param.toText))
  | some name =>
    if name.contains '/' then
      .error (param.readingError ("Can't use qualified name as parameter: " ++ name))
    else .ok name

/-! ### Arities -/

/-- One arity of a function; the last parameter of a variadic one takes the rest. -/
structure FnArity where
  names : List String
  isVariadic : Bool
  body : List Datum

namespace FnArity

/-- How many arguments there have to be. -/
def required (a : FnArity) : Nat := if a.isVariadic then a.names.length - 1 else a.names.length

end FnArity

/-- The names of parameters, and whether the last one takes the rest. -/
def paramNames (params : Datum) : List Datum → Except Error (List String × Bool)
  | [] => .ok ([], false)
  | p :: rest =>
    if p.symbol? = some "&" then
      match rest with
      | [] => .error (params.readingError "Missing parameter name after &")
      | [last] => do return ([← paramName last], true)
      | _ => .error (params.readingError "Only one parameter may follow &")
    else do
      let name ← paramName p
      let (names, isVariadic) ← paramNames params rest
      return (name :: names, isVariadic)

def noParamVector (params : Datum) : Error :=
  params.readingError ("Parameter declaration " ++ params.toText ++ " should be a vector")

/-- One arity of a function from its parameters and its body. -/
def fnArity (params : Datum) (body : List Datum) : Except Error FnArity :=
  match params.vector? with
  | none => .error (noParamVector params)
  | some items => do
    let (names, isVariadic) ← paramNames params items
    return { names, isVariadic, body }

/-- An arity in a list of its own. -/
def arityClause (clause : Datum) : Except Error FnArity :=
  match clause.list? with
  | some (params :: body) => fnArity params body
  | _ => .error (clause.readingError ("Invalid fn arity: " ++ clause.toText))

/-- Arities can be told apart by the number of arguments. -/
def checkArities (d : Datum) (arities : List FnArity) : Except Error Unit :=
  let variadic := arities.filter FnArity.isVariadic
  let fixed := (arities.filter fun a => !a.isVariadic).map fun a => a.names.length
  if variadic.length > 1 then
    .error (d.readingError "Can't have more than 1 variadic overload")
  else if ¬ fixed.Nodup then
    .error (d.readingError "Can't have 2 overloads with same arity")
  else if variadic.any fun v => fixed.any fun n => v.required < n then
    .error (d.readingError
      "Can't have fixed arity function with more params than variadic function")
  else .ok ()

/-- The name and the rest of a `fn`. -/
def fnName (args : List Datum) : Option String × List Datum :=
  match args with
  | first :: rest =>
    match first.symbol? with
    | some name => (some name, rest)
    | none => (none, args)
  | [] => (none, [])

/-- The name and the arities of a `fn`. -/
def fnParts (d : Datum) : Except Error (Option String × List FnArity) := do
  let (name, rest) := fnName (argsOf d)
  let arities ← match rest with
    | [] => throw (d.readingError "fn requires a parameter vector")
    | params :: body =>
      if params.vector?.isSome then do pure [← fnArity params body] else rest.mapM arityClause
  checkArities d arities
  return (name, arities)

/-! ### The class of a function -/

/-- The method of an arity. -/
def arityPlan (name : Option String) (a : FnArity) : MethodPlan :=
  { name := Names.invoke, params := a.names.map fun _ => .any, paramNames := a.names
    isVariadic := a.isVariadic, receiver := name, body := a.body }

/-- Compiles the class of a `fn`; also gives what it captures. -/
def buildFn (h : Handlers) (d : Datum) : FormM (ClassFile × List Capture) := do
  let (name, arities) ← FormM.ofExcept (fnParts d)
  let file := { ← newFile (← generatedName (.fn name)) Names.object with
    interfaces := [Names.fn], flags := { isFinal := true } }
  buildClass h file .closure (arities.map fun a _ => arityPlan name a) .captures

/-- Makes the class of a `fn`; also gives what it captures. -/
def defineFn [Libraries] (h : Handlers) (d : Datum) : FormM (ClassInfo × List Capture) := do
  let (file, captures) ← buildFn h d
  return (← loadClass file, captures)

/-- A function becomes a class whose instances hold the captured values. -/
def compileFn [Libraries] (h : Handlers) (d : Datum) : FormM Unit := do
  let (cls, captures) ← defineFn h d
  loadCaptures captures d.span
  FormM.emit (.newInstance cls.name (captures.map Capture.ty))

/-- The class made earlier for a form with the same names in scope. -/
def knownFn? (d : Datum) (space : String) (locals : List String) (s : FormState) :
    Option InterpretedFn :=
  ((s.interpretedFns.find? d.span).getD []).find? fun f =>
    f.space == space && f.locals == locals && f.form.same d

/-- The class of an interpreted `fn` and what it captures. -/
def interpretedFn [Libraries] (h : Handlers) (d : Datum) : FormM (ClassInfo × List Capture) := do
  let space := (← FormM.world).current
  let locals := (← get).scopes.visibleNames
  match knownFn? d space locals (← get) with
  | some f => return (f.cls, f.captures)
  | none =>
    let (cls, captures) ← defineFn h d
    let made : InterpretedFn := { form := d, space, locals, cls, captures }
    modify fun s =>
      let known := (s.interpretedFns.find? d.span).getD []
      { s with interpretedFns := s.interpretedFns.insert d.span (known ++ [made]) }
    return (cls, captures)

/-- An instance of the function's class, which is made once per form and scope. -/
def evaluateFn [Libraries] (h : Handlers) (d : Datum) : FormM Value := do
  let (cls, captures) ← interpretedFn h d
  let values ← captureValues captures
  FormM.lift (Machine.newInstance h.call cls.name (captures.map Capture.ty) values)

end LispMachine.Form
