import LispMachine.Form.Functions

/-!
# Types and protocols

`deftype` makes a class with declared fields and methods; the class is announced before its methods are
compiled, so that they can construct and name it, and the announcement is taken back if they fail.
`defprotocol` makes an interface and, for each of its methods, a function that calls the method on its
first argument.
-/

namespace LispMachine.Form

/-! ### Method definitions -/

/-- A method defined in a class body. -/
structure TypeMethod where
  name : String
  /-- What the receiver is called. -/
  this : String
  params : List String
  body : List Datum

def namelessMethod (name : Datum) : Error := name.readingError "Method name must be a symbol"

def invalidMethod (spec : Datum) : Error :=
  spec.readingError ("Invalid method definition: " ++ spec.toText)

/-- A method whose first parameter is the receiver. -/
def typeMethod (spec : Datum) : Except Error TypeMethod :=
  match spec.list? with
  | some (name :: params :: body) =>
    match name.symbol? with
    | none => .error (namelessMethod name)
    | some n =>
      match params.vector? with
      | none => .error (noParamVector params)
      | some [] =>
        .error (spec.readingError ("Method " ++ n ++ " must take at least one arg (this)"))
      | some (this :: rest) => do
        return { name := n, this := ← paramName this, params := ← rest.mapM paramName, body }
  | _ => .error (invalidMethod spec)

/-- Interfaces and methods of a class body, one item at a time. -/
def classItem (w : World) (found : List ClassInfo × List TypeMethod) (spec : Datum) :
    Except Error (List ClassInfo × List TypeMethod) :=
  match spec.symbol? with
  | none => do return (found.1, found.2 ++ [← typeMethod spec])
  | some name =>
    match w.resolveClass? name with
    | none => .error (spec.compileError (unresolvedClass name))
    | some c =>
      if c.name = Names.object then .ok found
      else if c.flags.isInterface then .ok (found.1 ++ [c], found.2)
      else .error (spec.compileError (c.name ++ " is not an interface"))

/-- The first declaration of a method with a fixed arity among some classes. -/
def declaredMethod? (r : Registry) (owners : List String) (name : String) (arity : Nat) :
    Option Method :=
  owners.findSome? fun owner =>
    ((r.findMethods owner name false).find? fun c =>
      !c.2.isVariadic && c.2.params.length == arity).map Prod.snd

/-- The plan of a method, with the types of the declaration it implements. -/
def methodPlan (r : Registry) (owners : List String) (m : TypeMethod) : MethodPlan :=
  let plan : MethodPlan :=
    { name := m.name, params := m.params.map fun _ => .any, paramNames := m.params
      receiver := some m.this, body := m.body }
  match declaredMethod? r owners m.name m.params.length with
  | some declared => { plan with params := declared.params, ret := declared.ret }
  | none => plan

/-- The full name of a type of the current namespace. -/
def typeName (name : Datum) : FormM String := do
  match name.symbol?.filter fun n => !n.contains '/' && !n.contains '.' with
  | some simple => return (← spaceStem) ++ "." ++ simple
  | none => FormM.fail (name.readingError ("Invalid type name: " ++ name.toText))

/-! ### Types -/

/-- A declared field with its type and whether it may be assigned. -/
def typeField (field : Datum) : FormM FieldBinding := do
  let ty ← match field.hint with
    | some hint => resolveHint hint
    | none => pure .any
  return { name := ← FormM.ofExcept (paramName field), ty, isMutable := field.hasFlag "mutable" }

/-- What is known of a type before its methods are compiled. -/
def announcement (full : String) (interfaces : List String) (fields : List FieldBinding) :
    ClassInfo :=
  let init : Method :=
    { owner := full, name := Names.constructor, params := fields.map FieldBinding.ty, ret := .void
      body := .abstract }
  { name := full, superclass := some Names.object, interfaces, flags := { isFinal := true }
    fields := fields.map fun f => { name := f.name, ty := f.ty, isMutable := f.isMutable }
    constructors := [init] }

def setRegistry (r : Registry) : FormM Unit :=
  FormM.lift (modify fun w => { w with registry := r })

/-- Announces a type. -/
def announce (full : String) (interfaces : List String) (fields : List FieldBinding) :
    FormM Unit := do
  let (_, r) ← FormM.ofExcept ((← FormM.registry).register (announcement full interfaces fields))
  setRegistry r
  FormM.importClass full

/-- A class file with the declared fields of a type. -/
def typeFile (full : String) (interfaces : List String) (fields : List FieldBinding) :
    FormM ClassFile := do
  return { ← newFile full Names.object with
    interfaces, flags := { isFinal := true }
    fields := fields.map fun f =>
      { name := f.name, ty := f.ty, isStatic := false, isMutable := f.isMutable } }

/-- Compiles the class of a type. -/
def buildType (h : Handlers) (full : String) (interfaces : List String) (fields : List FieldBinding)
    (methods : List TypeMethod) : FormM ClassFile := do
  let file ← typeFile full interfaces fields
  let owners := interfaces ++ [Names.object]
  let (file, _) ← buildClass h file .type
    (methods.map fun m r => { methodPlan r owners m with fields })
    (.fields (fields.map fun f => (f.name, f.ty)))
  return file

/-- Puts back what stood under a name if an action fails. -/
def orReinstate {α : Type} (full : String) (previous : Option ClassInfo) (m : FormM α) : FormM α :=
  fun s =>
    match m s with
    | .error e s =>
      .error e { s with world :=
        { s.world with registry := s.world.registry.reinstate full previous } }
    | r => r

/-- Defines the class of a `deftype` form and imports it. -/
def defineType [Libraries] (h : Handlers) (d : Datum) : FormM ClassInfo := do
  match argsOf d with
  | name :: fieldVector :: specs =>
    let full ← typeName name
    match fieldVector.vector? with
    | none => FormM.fail (fieldVector.readingError "deftype fields must be a vector")
    | some items =>
      let fields ← items.mapM typeField
      let (interfaces, methods) ← FormM.ofExcept
        (specs.foldlM (classItem (← FormM.world)) ([], []))
      let interfaces := interfaces.map ClassInfo.name
      let previous := (← FormM.registry).find? full
      announce full interfaces fields
      let cls ← orReinstate full previous do
        loadClass (← buildType h full interfaces fields methods)
      FormM.importClass cls.name
      return cls
  | _ => FormM.fail (d.readingError "deftype requires a name and a field vector")

def compileType [Libraries] (h : Handlers) (d : Datum) : FormM Unit := do
  let cls ← defineType h d
  FormM.emit (.importClass cls.name)

def evaluateType [Libraries] (h : Handlers) (d : Datum) : FormM Value := do
  return .cls (← defineType h d).name

/-! ### Protocols -/

/-- The arities a protocol method declares, without the receiver. -/
def protocolArities (name : String) : List Datum → Except Error (List Nat)
  | [] => .ok []
  | sig :: rest =>
    match sig.vector? with
    | some [] =>
      .error (sig.readingError ("Protocol method " ++ name ++ " must take at least one arg"))
    | some params => do return (params.length - 1) :: (← protocolArities name rest)
    | none =>
      if sig.isStr then protocolArities name rest
      else .error (sig.readingError ("Invalid signature for " ++ name ++ ": " ++ sig.toText))

/-- The name and the arities of a protocol method. -/
def protocolMethod (spec : Datum) : Except Error (String × List Nat) :=
  match spec.list? with
  | some (name :: sigs) =>
    match name.symbol? with
    | none => .error (name.readingError "Protocol method name must be a symbol")
    | some n => do
      let arities ← protocolArities n sigs
      if arities.isEmpty then
        throw (spec.readingError ("Protocol method " ++ n ++ " declares no signature"))
      else return (n, arities)
  | _ => .error (spec.readingError ("Invalid protocol method: " ++ spec.toText))

/-- Binds a var to a function that calls a method on its first argument. -/
def defineDispatcher (w : World) (method : String) : World :=
  let f : Function := .dispatcher w.dispatchers method
  let (v, w) := { w with dispatchers := w.dispatchers + 1 }.intern w.current method
  w.define v (some (.function f)) {}

/-- Defines the interface of a protocol and a dispatching function per method. -/
def defineProtocol [Libraries] (d : Datum) : FormM ClassInfo := do
  match argsOf d with
  | [] => FormM.fail (d.readingError "defprotocol requires a name")
  | name :: specs =>
    let full ← typeName name
    let methods ← FormM.ofExcept ((specs.filter fun s => !s.isStr).mapM protocolMethod)
    let cls ← loadClass { ← newFile full Names.object with
      flags := { isInterface := true, isAbstract := true }
      methods := methods.flatMap fun (n, arities) => arities.map (abstractMethod n) }
    FormM.importClass cls.name
    FormM.lift (modify fun w => methods.foldl (fun w m => defineDispatcher w m.1) w)
    return cls

def compileProtocol [Libraries] (d : Datum) : FormM Unit := do
  let cls ← defineProtocol d
  FormM.emit (.importClass cls.name)

def evaluateProtocol [Libraries] (d : Datum) : FormM Value := do
  return .cls (← defineProtocol d).name

end LispMachine.Form
