import LispMachine.Form.Types

/-!
# Proxies

A `proxy` is an instance of a class made on the spot, which extends one class and implements interfaces.
Its constructor passes its first arguments on to a constructor of the superclass; captured locals follow.
-/

namespace LispMachine.Form

/-- The class of a proxy, the constructor of the superclass, and what is captured. -/
structure ProxyClass where
  cls : ClassInfo
  superConstructor : Method
  captures : List Capture

namespace ProxyClass

/-- The parameters of the constructor. -/
def params (p : ProxyClass) : List Ty := p.superConstructor.params ++ p.captures.map Capture.ty

end ProxyClass

/-- The class vector, the constructor arguments and the methods of a `proxy`. -/
def proxyParts (d : Datum) : Except Error (List Datum × List Datum × List Datum) :=
  match argsOf d with
  | classes :: args :: specs =>
    match classes.vector?, args.vector? with
    | none, _ => .error (classes.readingError "proxy classes must be a vector")
    | some _, none => .error (args.readingError "proxy constructor arguments must be a vector")
    | some cs, some as => .ok (cs, as, specs)
  | _ => .error (d.readingError "proxy requires a class vector and an argument vector")

/-- The class that a proxy extends or implements. -/
def proxyClassArg (w : World) (d : Datum) : Except Error ClassInfo :=
  match d.symbol? with
  | none => .error (d.readingError ("Expected a class name, got: " ++ d.toText))
  | some name =>
    match w.resolveClass? name with
    | some c => .ok c
    | none => .error (d.compileError (unresolvedClass name))

/-- The superclass, which comes first or is the root class, and the interfaces. -/
def splitParents (w : World) (classes : List ClassInfo) :
    Except Error (ClassInfo × List ClassInfo) :=
  let besideRoot : Except Error (ClassInfo × List ClassInfo) :=
    match w.resolveClass? Names.object with
    | some root => .ok (root, classes)
    | none => .error (Error.internal "lang.Object is not registered")
  match classes with
  | first :: rest => if first.flags.isInterface then besideRoot else .ok (first, rest)
  | [] => besideRoot

/-- The parents of a proxy: a class that is not final, and interfaces. -/
def proxyParents (w : World) (d : Datum) (classes : List Datum) :
    Except Error (ClassInfo × List ClassInfo) := do
  let (superclass, interfaces) ← splitParents w (← classes.mapM (proxyClassArg w))
  if superclass.flags.isFinal then
    throw (d.compileError ("Cannot proxy final class " ++ superclass.name))
  match interfaces.find? fun c => !c.flags.isInterface with
  | some c => throw (d.compileError (c.name ++ " is not an interface"))
  | none => return (superclass, interfaces)

/-- The constructor of the superclass that takes `n` arguments, a fixed one first. -/
def superConstructor (superclass : ClassInfo) (n : Nat) (d : Datum) : Except Error Method :=
  let fixed := superclass.constructors.find? fun k => !k.isVariadic && k.params.length == n
  match fixed <|> superclass.constructors.find? fun k => k.accepts n with
  | some k => .ok k
  | none =>
    .error (d.compileError
      ("No matching ctor found for proxy superclass " ++ superclass.name ++ " taking "
        ++ toString n ++ " args"))

/-- A method whose receiver is called `this`. -/
def proxyMethod (spec : Datum) : Except Error TypeMethod :=
  match spec.list? with
  | some (name :: params :: body) =>
    match name.symbol?, params.vector? with
    | none, _ => .error (namelessMethod name)
    | some _, none => .error (params.readingError "Parameter declaration should be a vector")
    | some n, some items => do
      return { name := n, this := "this", params := ← items.mapM paramName, body }
  | _ => .error (invalidMethod spec)

/-- Compiles the class of a proxy; also gives the constructor of the superclass and what is captured. -/
def buildProxy (h : Handlers) (d : Datum) : FormM (ClassFile × Method × List Capture) := do
  let (classes, args, specs) ← FormM.ofExcept (proxyParts d)
  let (superclass, interfaces) ← FormM.ofExcept (proxyParents (← FormM.world) d classes)
  let init ← FormM.ofExcept (superConstructor superclass args.length d)
  let methods ← FormM.ofExcept (specs.mapM proxyMethod)
  let file := { ← newFile (← generatedName .proxy) superclass.name with
    interfaces := interfaces.map ClassInfo.name, flags := { isFinal := true } }
  let owners := superclass.name :: file.interfaces
  let (file, captures) ← buildClass h file .anonymous (methods.map fun m r => methodPlan r owners m)
    (.viaSuper init.params)
  return (file, init, captures)

/-- Makes the class of a proxy. -/
def defineProxy [Libraries] (h : Handlers) (d : Datum) : FormM ProxyClass := do
  let (file, superConstructor, captures) ← buildProxy h d
  return { cls := ← loadClass file, superConstructor, captures }

/-! ### Instances -/

/-- The constructor arguments of a `proxy`. -/
def proxyArgs (d : Datum) : List Datum := (((argsOf d)[1]?).bind Datum.vector?).getD []

/-- Compiles arguments, each for its parameter. -/
def compileFixedArgs (h : Handlers) (args : List (Datum × Ty)) : FormM Unit :=
  args.forM fun (arg, param) => do
    h.compile arg
    (FormM.coerceTop param).atSpan arg.span

/-- Packs the arguments of a variadic tail, which are on the stack, into one vector. -/
def packSuperTail (m : Method) (fixed tail : Nat) : FormM Unit := do
  if ← FormM.isUnreachable then return ()
  let types ← FormM.ofExcept ((← FormM.stack).topTypes tail)
  match Overload.tailPlan (← FormM.registry) m (m.params.take fixed ++ types) with
  | .direct => FormM.coerceTop (.cls Names.vector)
  | .wrap _ count => FormM.emit (.makeCollection .vector count)

/-- Pushes the arguments of a constructor of the superclass. -/
def compileSuperArgs (h : Handlers) (m : Method) (args : List Datum) : FormM Unit :=
  FormM.withTail false <|
    if m.isVariadic then
      match m.params.length with
      | 0 => FormM.fail (Error.internal "variadic constructor without a parameter")
      | fixed + 1 => do
        compileFixedArgs h (args.zip (m.params.take fixed))
        let tail := args.drop fixed
        compileBoxedEach h tail
        packSuperTail m fixed tail.length
    else compileFixedArgs h (args.zip m.params)

def compileProxy [Libraries] (h : Handlers) (d : Datum) : FormM Unit := do
  let p ← defineProxy h d
  compileSuperArgs h p.superConstructor (proxyArgs d)
  loadCaptures p.captures d.span
  FormM.emit (.newInstance p.cls.name p.params)

def evaluateProxy [Libraries] (h : Handlers) (d : Datum) : FormM Value := do
  let p ← defineProxy h d
  let values ← evaluateArgs h (proxyArgs d)
  let prepared := Overload.prepareArgs (← FormM.registry) p.superConstructor values
  let captured ← captureValues p.captures
  FormM.lift (Machine.newInstance h.call p.cls.name p.params (prepared ++ captured))

end LispMachine.Form
