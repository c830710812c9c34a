import LispMachine.Host.Text
import LispMachine.Machine.Natives
import LispMachine.Libraries.Basic

/-!
# Running the methods of the built-in classes

What each method does with its receiver and arguments.
-/

namespace LispMachine.Machine

def wrongClass (expected : String) (v : Value) : Error :=
  Error.runtime ("expected " ++ expected ++ ", got " ++ v.classText)

def missingArgument : Error := Error.arity "missing argument"

/-- The receiver, which instance methods have to be given. -/
def receiverOf : Option Value → Except Error Value
  | some v => .ok v
  | none => .error (Error.internal "instance method invoked without receiver")

/-- The receiver as a text. -/
def textReceiver (this : Option Value) : Except Error String := do
  match ← receiverOf this with
  | .str s => return s
  | v => .error (wrongClass Names.string v)

/-- An argument as an integer. -/
def longArg (args : List Value) (i : Nat) : Except Error Int64 :=
  match args[i]? with
  | some (.int n) => .ok n
  | some v => .error (wrongClass Names.long v)
  | none => .error missingArgument

/-- An argument as a floating-point number; integers widen. -/
def doubleArg (args : List Value) (i : Nat) : Except Error Double :=
  match args[i]? with
  | some (.float x) => .ok x
  | some (.int n) => .ok (Double.ofInt n.toInt)
  | some v => .error (wrongClass Names.double v)
  | none => .error missingArgument

/-- An argument as a text. -/
def textArg (args : List Value) (i : Nat) : Except Error String :=
  match args[i]? with
  | some (.str s) => .ok s
  | some v => .error (wrongClass Names.string v)
  | none => .error missingArgument

/-- An argument as a character. -/
def charArg (args : List Value) (i : Nat) : Except Error Char :=
  match args[i]? with
  | some (.char c) => .ok c
  | some v => .error (wrongClass Names.character v)
  | none => .error missingArgument

/-- The size of a text or a collection. -/
def sizeOf : Value → Except Error Value
  | .list items => .ok (.int (Int64.ofNat items.length))
  | .vector items => .ok (.int (Int64.ofNat items.length))
  | .map entries => .ok (.int (Int64.ofNat entries.length))
  | .set items => .ok (.int (Int64.ofNat items.length))
  | v => .error (wrongClass "collection" v)

/-- The item at a position. -/
def itemAt (items : List Value) (i : Int64) : Except Error Value :=
  match Sequence.item? items i with
  | some v => .ok v
  | none => .error (Sequence.outOfBounds i)

def longOrder (a b : Int64) : Int64 := if a < b then -1 else if a = b then 0 else 1

def longMax (a b : Int64) : Int64 := if a < b then b else a

def longMin (a b : Int64) : Int64 := if b < a then b else a

/-- The field of the receiver. -/
def fieldOf (w : World) (this : Option Value) (field : String) : Except Error Value := do
  match ← receiverOf this with
  | .object o => w.getField o field
  | v => .error (wrongClass "object" v)

/-- A method that leaves the world as it is. -/
def observe [Libraries] (w : World) (m : HostMethod) (this : Option Value) (args : List Value) :
    Except Error Value := do
  match m with
  | .bareText => return .str (w.bareTextOf (← receiverOf this))
  | .hash => return .int (Int64.ofInt (← receiverOf this).hashCode)
  | .equals =>
    let v ← receiverOf this
    return .bool ((args.head?.map fun a => v == a).getD false)
  | .longValue =>
    match ← receiverOf this with
    | .int n => return .int n
    | .float x => return .int x.truncate
    | v => .error (wrongClass Names.number v)
  | .doubleValue =>
    match ← receiverOf this with
    | .int n => return .float (Double.ofInt n.toInt)
    | .float x => return .float x
    | v => .error (wrongClass Names.number v)
  | .compareLong =>
    match ← receiverOf this with
    | .int n => return .int (longOrder n (← longArg args 0))
    | v => .error (wrongClass Names.long v)
  | .sameLong => return .int (← longArg args 0)
  | .parseLong => Host.parseLong (← textArg args 0)
  | .isNaN =>
    match ← receiverOf this with
    | .float x => return .bool x.isNaN
    | v => .error (wrongClass Names.double v)
  | .parseDouble => Host.parseDouble (← textArg args 0)
  | .absLong =>
    let n ← longArg args 0
    return .int (if n < 0 then -n else n)
  | .absDouble => return .float (← doubleArg args 0).abs
  | .maxLong => return .int (longMax (← longArg args 0) (← longArg args 1))
  | .maxDouble => return .float ((← doubleArg args 0).max (← doubleArg args 1))
  | .minLong => return .int (longMin (← longArg args 0) (← longArg args 1))
  | .minDouble => return .float ((← doubleArg args 0).min (← doubleArg args 1))
  | .sqrt => return .float (← doubleArg args 0).sqrt
  | .sameText => return .str (← textReceiver this)
  | .length => return .int (Int64.ofNat (← textReceiver this).length)
  | .upperCase => return .str (Text.toUpper (← textReceiver this))
  | .lowerCase => return .str (Text.toLower (← textReceiver this))
  | .trim => return .str (Text.trim (← textReceiver this))
  | .substringFrom =>
    let s ← textReceiver this
    Host.substring s (← longArg args 0) (Int64.ofNat s.length)
  | .substring =>
    let s ← textReceiver this
    Host.substring s (← longArg args 0) (← longArg args 1)
  | .indexOfText =>
    let s ← textReceiver this
    return Host.indexOf s (← textArg args 0)
  | .indexOfChar =>
    let c ← charArg args 0
    return Host.indexOf (← textReceiver this) c.toString
  | .charAt =>
    let i ← longArg args 0
    Host.charAt (← textReceiver this) i
  | .containsText =>
    let s ← textReceiver this
    return .bool (Host.find? (← textArg args 0).toList 0 s.toList).isSome
  | .startsWith =>
    let s ← textReceiver this
    return .bool ((← textArg args 0).toList.isPrefixOf s.toList)
  | .concat =>
    let s ← textReceiver this
    return .str (s ++ (← textArg args 0))
  | .isDigit => return .bool (← charArg args 0).isDigit
  | .keywordName =>
    match ← receiverOf this with
    | .keyword k => return .str k.name
    | v => .error (wrongClass Names.keyword v)
  | .symbolName =>
    match ← receiverOf this with
    | .symbol s => return .str s.name
    | v => .error (wrongClass Names.symbol v)
  | .symbolQualifier =>
    match ← receiverOf this with
    | .symbol s => return (s.qualifier.map Value.str).getD .nil
    | v => .error (wrongClass Names.symbol v)
  | .patternSource =>
    match ← receiverOf this with
    | .regex s => return .str s
    | v => .error (wrongClass Names.pattern v)
  | .patternMatches =>
    match ← receiverOf this with
    | .regex s =>
      let text ← textArg args 0
      return .bool (Libraries.matchesIn s text)
    | v => .error (wrongClass Names.pattern v)
  | .count => sizeOf (← receiverOf this)
  | .vectorItem =>
    match ← receiverOf this with
    | .vector items => itemAt items (← longArg args 0)
    | v => .error (wrongClass Names.vector v)
  | .mapValue =>
    match ← receiverOf this with
    | .map entries => return (args.head?.bind fun k => Value.lookup? k entries).getD .nil
    | v => .error (wrongClass Names.map v)
  | .setContains =>
    match ← receiverOf this with
    | .set items => return .bool ((args.head?.map fun k => Value.isMember k items).getD false)
    | v => .error (wrongClass Names.set v)
  | .className =>
    match ← receiverOf this with
    | .cls name => return .str name
    | v => .error (wrongClass Names.cls v)
  | .spaceName =>
    match ← receiverOf this with
    | .nameSpace name => return .str name
    | v => .error (wrongClass Names.nameSpace v)
  | .varValue =>
    match ← receiverOf this with
    | .var v => w.valueOf v
    | v => .error (wrongClass Names.var v)
  | .varIsBound =>
    match ← receiverOf this with
    | .var v => return .bool (w.root? v).isSome
    | v => .error (wrongClass Names.var v)
  | .tupleSize => sizeOf (← fieldOf w this "items")
  | .tupleItem =>
    let i ← longArg args 0
    match ← fieldOf w this "items" with
    | .vector items => itemAt items i
    | v => .error (wrongClass Names.vector v)
  | .message => fieldOf w this "message"
  | .nothing => return .nil
  | .keepItems => return .nil
  | .keepMessage => return .nil

/-- Sets a field of the receiver. -/
def keep (this : Option Value) (field : String) (v : Value) : Action Value := do
  match ← Action.ofExcept (receiverOf this) with
  | .object o =>
    Action.setField o field v
    return .nil
  | v => Action.fail (wrongClass "object" v)

/-- The items a tuple is made from. -/
def tupleItems : List Value → Value
  | .vector items :: _ => .vector items
  | .list items :: _ => .vector items
  | _ => .vector []

/-- Runs a method of a built-in class. -/
def runHostMethod [Libraries] (m : HostMethod) (this : Option Value) (args : List Value) : Action Value :=
  match m with
  | .keepItems => keep this "items" (tupleItems args)
  | .keepMessage => keep this "message" (args.head?.getD .nil)
  | m => Action.read fun w => observe w m this args

end LispMachine.Machine
