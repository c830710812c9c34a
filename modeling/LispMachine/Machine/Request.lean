import LispMachine.Overload
import LispMachine.World.Basic
import LispMachine.World.Spaces

/-!
# Requests to the machine

Running code comes down to two requests: applying a value, and running a method.  Whatever may lead to
further code takes a `Caller`, the way to make such requests, so that recursion through running code is
in one place.
-/

namespace LispMachine

/-- What the machine can be asked to run. -/
inductive Request where
  | apply (callee : Value) (args : List Value)
  /-- Runs a method of a class; `receiver` is absent for static methods. -/
  | invoke (cls : ClassInfo) (m : Method) (receiver : Option Value) (args : List Value)

/-- How requests are answered; whatever needs to run code takes one. -/
abbrev Caller := Request → Action Value

namespace Machine

open Registry (Candidate)

def wrongArity (n : Nat) (what : String) : Error :=
  Error.arity ("wrong number of args (" ++ toString n ++ ") passed to " ++ what)

/-! ### Function objects -/

/-- The method a call of a function object runs: one of exactly this arity, or the variadic one. -/
def selectInvoke (cls : ClassInfo) (n : Nat) : Except Error Method :=
  let invokes := cls.methods.filter fun m => m.name == Names.invoke && !m.isAbstract
  match invokes.find? fun m => !m.isVariadic && m.params.length == n with
  | some m => .ok m
  | none =>
    match invokes.find? fun m => m.isVariadic && m.params.length ≤ n + 1 with
    | some m => .ok m
    | none => .error (wrongArity n cls.name)

/-- Collects the arguments behind the fixed parameters of a variadic function into a list. -/
def packRest (m : Method) (args : List Value) : List Value :=
  if m.isVariadic then
    let fixed := m.params.length - 1
    let rest := args.drop fixed
    args.take fixed ++ [if rest.isEmpty then Value.nil else Value.list rest]
  else args

/-- The class of an object, if its instances can be called. -/
def functionClass? (w : World) (o : ObjectRef) : Option ClassInfo :=
  if w.registry.isSubclass o.className Names.fn then (w.instance? o).map Instance.cls else none

/-! ### Objects -/

/-- Makes an object and runs the constructor with exactly these parameter types. -/
def newInstance (call : Caller) (cls : String) (params : List Ty) (args : List Value) :
    Action Value := do
  match (← get).registry.find? cls with
  | none => Action.fail (World.classNotFound cls)
  | some c =>
    if c.flags.isAbstract then Action.fail (Error.runtime ("cannot instantiate " ++ c.name))
    else
      match c.constructors.find? fun k => k.params == params with
      | none =>
        Action.fail (Error.linkage
          ("no constructor " ++ c.name ++ "(" ++ Ty.details params ++ ")"))
      | some k =>
        let o ← Action.allocate c
        let _ ← call (.invoke c k (some (.object o)) args)
        return .object o

/-- The constructors of a class as candidates of a call. -/
def constructorsOf (c : ClassInfo) : List Candidate := c.constructors.map fun k => (c, k)

/-- Makes an object, the constructor being chosen by the arguments. -/
def instantiate (call : Caller) (c : ClassInfo) (args : List Value) : Action Value := do
  let r := (← get).registry
  let choice ← Action.ofExcept
    (Overload.resolveDynamic r (constructorsOf c) args ("new " ++ c.name))
  let k := choice.candidate.2
  newInstance call c.name k.params (Overload.prepareArgs r k args)

def noStaticMethod (cls name : String) : Error :=
  Error.linkage ("no static method " ++ cls ++ "/" ++ name)

def noMethod (cls name : String) : Error :=
  Error.linkage ("no method " ++ name ++ " on " ++ cls)

/-- The static method a call means. -/
def resolveStaticCall (r : Registry) (cls name : String) (args : List Value) :
    Except Error Overload.DynamicResolution :=
  match r.findMethods cls name true with
  | [] => .error (noStaticMethod cls name)
  | candidates => Overload.resolveDynamic r candidates args (cls ++ "/" ++ name)

/-- The instance method a call means. -/
def resolveInstanceCall (r : Registry) (cls name : String) (args : List Value) :
    Except Error Overload.DynamicResolution :=
  match r.findMethods cls name false with
  | [] => .error (noMethod cls name)
  | candidates => Overload.resolveDynamic r candidates args (cls ++ "." ++ name)

/-- Runs the static method that the arguments choose. -/
def callStatic (call : Caller) (cls name : String) (args : List Value) : Action Value := do
  let r := (← get).registry
  let choice ← Action.ofExcept (resolveStaticCall r cls name args)
  let (owner, m) := choice.candidate
  call (.invoke owner m none (Overload.prepareArgs r m args))

/-- Runs the method of a receiver that the arguments choose. -/
def callInstance (call : Caller) (receiver : Value) (name : String) (args : List Value) :
    Action Value := do
  match receiver.className? with
  | none => Action.fail (Error.runtime ("cannot call ." ++ name ++ " on nil"))
  | some cls =>
    let r := (← get).registry
    let choice ← Action.ofExcept (resolveInstanceCall r cls name args)
    let (owner, m) := choice.candidate
    call (.invoke owner m (some receiver) (Overload.prepareArgs r m args))

/-! ### Exceptions -/

/-- An exception of a class with a message. -/
def makeException (call : Caller) (cls message : String) : Action Value :=
  newInstance call cls [.string] [.str message]

/-- The value a handler sees for an error. -/
def exceptionOf (call : Caller) (e : Error) : Action Value :=
  match e.cause with
  | .thrown v => pure v
  | .failure .linkage message => makeException call Names.linkageError message
  | .failure .arity message => makeException call Names.arityError message
  | .failure .runtime message => makeException call Names.exception message
  | .failure _ _ => Action.fail e

/-- The error of a value that is not of the expected type. -/
def castError (call : Caller) (v : Value) (expected : String) : Action Error := fun w =>
  match makeException call Names.classCast (v.classText ++ " cannot be cast to " ++ expected) w with
  | .ok exception w => .ok (Error.thrown exception) w
  | .error (.error e) w => .ok e w
  | .error .outOfFuel w => .error .outOfFuel w

end Machine

end LispMachine
