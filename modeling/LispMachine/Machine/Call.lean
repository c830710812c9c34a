import LispMachine.Machine.Execution
import LispMachine.Machine.HostMethods

/-!
# The machine

Carrying out requests: applying functions, keywords, maps, vectors, sets and vars, and running methods.
`call` ties the knot: requests that code makes while it runs get one unit of fuel less.
-/

namespace LispMachine.Machine

/-- Looks a keyword up in a map. -/
def applyKeyword (w : World) (k : Value) (args : List Value) : Except Error Value :=
  match args with
  | [.map entries] => .ok ((Value.lookup? k entries).getD .nil)
  | [.map entries, fallback] => .ok ((Value.lookup? k entries).getD fallback)
  | [_] => .ok .nil
  | [_, fallback] => .ok fallback
  | _ => .error (wrongArity args.length (w.textOf k))

/-- A map applied to a key looks it up; the second argument is for an absent key. -/
def applyMap (entries : List (Value × Value)) : List Value → Except Error Value
  | [key] => .ok ((Value.lookup? key entries).getD .nil)
  | [key, fallback] => .ok ((Value.lookup? key entries).getD fallback)
  | _ => .error (Error.arity "a map takes one or two arguments")

/-- A vector applied to an index. -/
def applyVector (items : List Value) : List Value → Except Error Value
  | [.int i] => itemAt items i
  | _ => .error (Error.runtime "a vector takes one integer argument")

/-- A set applied to a member gives the member. -/
def applySet (items : List Value) : List Value → Except Error Value
  | [key] => .ok (if Value.isMember key items then key else .nil)
  | _ => .error (Error.arity "a set takes one argument")

def cannotCall (v : Value) : Error := Error.runtime (v.classText ++ " cannot be called")

/-- Applies a value to arguments. -/
def applyValue (call : Caller) (callee : Value) (args : List Value) : Action Value := do
  match callee with
  | .function f => callFunction call f args
  | .object o =>
    match functionClass? (← get) o with
    | some cls =>
      let m ← Action.ofExcept (selectInvoke cls args.length)
      call (.invoke cls m (some callee) (packRest m args))
    | none => Action.fail (cannotCall callee)
  | .keyword _ => Action.read fun w => applyKeyword w callee args
  | .map entries => Action.ofExcept (applyMap entries args)
  | .vector items => Action.ofExcept (applyVector items args)
  | .set items => Action.ofExcept (applySet items args)
  | .var v => call (.apply (← Action.read fun w => w.valueOf v) args)
  | v => Action.fail (cannotCall v)

/-- Runs a method; `fuel` bounds the instructions of its own body. -/
def runMethod [Libraries] (call : Caller) (fuel : Nat) (cls : ClassInfo) (m : Method)
    (receiver : Option Value) (args : List Value) : Action Value :=
  match m.body with
  | .host h => runHostMethod h receiver args
  | .abstract =>
    Action.fail (Error.runtime ("abstract method " ++ m.signature ++ " has no implementation"))
  | .code index =>
    if m.isStatic then execute call fuel cls index args
    else
      match receiver with
      | some this => execute call fuel cls index (this :: args)
      | none => Action.fail (Error.internal (m.signature ++ " invoked without receiver"))

/-- Carries out a request, with a way to make further ones. -/
def perform [Libraries] (call : Caller) (fuel : Nat) : Request → Action Value
  | .apply callee args => applyValue call callee args
  | .invoke cls m receiver args => runMethod call fuel cls m receiver args

/-- Carries out a request; `fuel` bounds how deep requests nest and how long each body runs. -/
def call [Libraries] : Nat → Caller
  | 0, _ => throw .outOfFuel
  | fuel + 1, request => perform (call fuel) fuel request

/-- More fuel than any session that ends makes use of. -/
def plenty : Nat := 1000000000000000

end LispMachine.Machine
