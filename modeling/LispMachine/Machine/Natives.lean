import LispMachine.Machine.Display
import LispMachine.Native.Arithmetic
import LispMachine.Native.Sequences

/-!
# Running the built-in functions

What each built-in function does with its arguments, whose number has been checked before.
-/

namespace LispMachine.Machine

/-- An argument, which the arity guarantees. -/
def argument (args : List Value) (i : Nat) : Value := (args[i]?).getD .nil

def complain {α : Type} (message : String) : Except Error α := .error (Error.runtime message)

/-! ### Names -/

/-- A symbol from a text or a symbol. -/
def symbolFrom : Value → Except Error Value
  | .str s => .ok (.symbolNamed s)
  | .symbol s => .ok (.symbol s)
  | v => complain ("cannot make a symbol from " ++ v.typeName)

/-- A keyword from a text, a symbol or a keyword. -/
def keywordFrom : Value → Except Error Value
  | .str s => .ok (.keywordNamed s)
  | .symbol s => .ok (.keyword s)
  | .keyword k => .ok (.keyword k)
  | v => complain ("cannot make a keyword from " ++ v.typeName)

/-- The name of a symbol or a keyword, without its qualifier; a text is its own name. -/
def nameOf : Value → Except Error Value
  | .str s => .ok (.str s)
  | .symbol s => .ok (.str s.name)
  | .keyword k => .ok (.str k.name)
  | v => complain (v.typeName ++ " has no name")

/-- The stem a new name starts with. -/
def stemOf : Option Value → Except Error String
  | none => .ok "G"
  | some (.str s) => .ok s
  | some (.symbol s) => .ok s.name
  | some v => complain ("gensym prefix must be a string, got " ++ v.typeName)

/-- The class of a value, which has to be registered. -/
def classOf (w : World) (v : Value) : Except Error Value :=
  match v.className? with
  | none => .ok .nil
  | some cls => if w.registry.contains cls then .ok (.cls cls) else .error (World.classNotFound cls)

/-- The message of an object that has one. -/
def messageOf (w : World) : Value → Except Error Value
  | .object o =>
    match w.getField o "message" with
    | .ok v => .ok v
    | .error _ => .ok .nil
  | _ => .ok .nil

/-! ### Printing -/

/-- Writes a line to the output. -/
def printLine (text : String) : Action Value := do
  modify fun w => { w with output := w.output ++ text ++ "\n" }
  return .nil

/-! ### Functions of functions -/

/-- All but the last argument, with the elements of the last one behind them. -/
def spread : List Value → Except Error (List Value)
  | [] => .error (Error.arity "apply needs arguments")
  | [last] =>
    match last.items? with
    | some items => .ok items
    | none => complain ("apply cannot spread " ++ last.typeName)
  | v :: vs => do return v :: (← spread vs)

/-- Applies a function to each item, in order. -/
def mapItems (call : Caller) (f : Value) : List Value → Action (List Value)
  | [] => return []
  | x :: xs => do
    let y ← call (.apply f [x])
    let ys ← mapItems call f xs
    return y :: ys

/-- The items a function holds of. -/
def filterItems (call : Caller) (f : Value) : List Value → Action (List Value)
  | [] => return []
  | x :: xs => do
    let keep ← call (.apply f [x])
    let rest ← filterItems call f xs
    return if keep.truthy then x :: rest else rest

/-- Folds items from the left. -/
def foldItems (call : Caller) (f acc : Value) : List Value → Action Value
  | [] => return acc
  | x :: xs => do foldItems call f (← call (.apply f [acc, x])) xs

/-- Folds from the first item on; without items the function is called without arguments. -/
def reduce (call : Caller) (f : Value) : List Value → Action Value
  | [coll] => do
    match ← Action.ofExcept (Sequence.elements "reduce" coll) with
    | [] => call (.apply f [])
    | x :: xs => foldItems call f x xs
  | [init, coll] => do
    foldItems call f init (← Action.ofExcept (Sequence.elements "reduce" coll))
  | _ => Action.fail (Error.arity "reduce takes two or three arguments")

/-! ### All built-in functions -/

/-- A built-in function that neither calls functions nor looks at the world. -/
def pureNative (n : Native) (args : List Value) : Except Error Value :=
  let x := argument args 0
  let y := argument args 1
  let elements := fun op => Sequence.elements op x
  match n with
  | .add => Arithmetic.sum args
  | .mul => Arithmetic.product args
  | .sub => Arithmetic.difference args
  | .div => Arithmetic.quotient args
  | .mod => Arithmetic.modulo x y
  | .inc => Arithmetic.add "inc" x (.int 1)
  | .dec => Arithmetic.sub "dec" x (.int 1)
  | .lt => Arithmetic.ordered "<" (· == .lt) args
  | .gt => Arithmetic.ordered ">" (· == .gt) args
  | .le => Arithmetic.ordered "<=" (· != .gt) args
  | .ge => Arithmetic.ordered ">=" (· != .lt) args
  | .eq => .ok (.bool (Arithmetic.allSame args))
  | .notEq => .ok (.bool (!Arithmetic.allSame args))
  | .identical => .ok (.bool (x == y))
  | .not => .ok (.bool (!x.truthy))
  | .isNil => .ok (.bool x.isNil)
  | .isZero => Arithmetic.isZero x
  | .isEven => Arithmetic.parity "even?" true x
  | .isOdd => Arithmetic.parity "odd?" false x
  | .identity => .ok x
  | .symbol => symbolFrom x
  | .keyword => keywordFrom x
  | .name => nameOf x
  | .list => .ok (.list args)
  | .vector => .ok (.vector args)
  | .hashMap => Sequence.hashMap args
  | .hashSet => .ok (.setOf args)
  | .vec => (elements "vec").map .vector
  | .seq => (elements "seq").map Sequence.listOrNil
  | .count => (elements "count").map fun items => .int (Int64.ofNat items.length)
  | .isEmpty => (elements "empty?").map fun items => .bool items.isEmpty
  | .first => (elements "first").map fun items => argument items 0
  | .second => (elements "second").map fun items => argument items 1
  | .rest => (elements "rest").map fun items => .list (items.drop 1)
  | .next => (elements "next").map fun items => Sequence.listOrNil (items.drop 1)
  | .nth => do Sequence.nth (← elements "nth") y args[2]?
  | .cons => (Sequence.elements "cons" y).map fun items => .list (x :: items)
  | .conj => Sequence.conj x (args.drop 1)
  | .concat => (Sequence.concat args).map .list
  | .listStar => (Sequence.listStar args).map .list
  | .get => .ok (Sequence.get x y (argument args 2))
  | .assoc => Sequence.assoc x (args.drop 1)
  | .contains => .ok (.bool (Sequence.contains x y))
  | _ => .error (Error.internal "not a pure function")

/-- Runs a built-in function. -/
def runNative (call : Caller) (n : Native) (args : List Value) : Action Value :=
  let x := argument args 0
  match n with
  | .str => do return .str (String.join (← displayAll call false args))
  | .prStr => do return .str (" ".intercalate (← displayAll call true args))
  | .println => do printLine (" ".intercalate (← displayAll call false args))
  | .prn => do printLine (" ".intercalate (← displayAll call true args))
  | .classOf => Action.read fun w => classOf w x
  | .gensym => do
    let stem ← Action.ofExcept (stemOf args.head?)
    let name ← Action.change fun w => w.gensym stem
    return .symbolNamed name
  | .exMessage => Action.read fun w => messageOf w x
  | .apply => do
    let args ← Action.ofExcept (spread (args.drop 1))
    call (.apply x args)
  | .map => do
    let items ← Action.ofExcept (Sequence.elements "map" (argument args 1))
    return .list (← mapItems call x items)
  | .filter => do
    let items ← Action.ofExcept (Sequence.elements "filter" (argument args 1))
    return .list (← filterItems call x items)
  | .reduce => reduce call x (args.drop 1)
  | n => Action.ofExcept (pureNative n args)

/-- Calls a function after checking the number of arguments. -/
def callFunction (call : Caller) (f : Function) (args : List Value) : Action Value :=
  if f.arity.accepts args.length then
    match f with
    | .native n => runNative call n args
    | .dispatcher _ method => callInstance call (argument args 0) method (args.drop 1)
  else Action.fail (wrongArity args.length f.title)

end LispMachine.Machine
