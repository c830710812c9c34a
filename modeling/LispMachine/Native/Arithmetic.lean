import LispMachine.Error

/-!
# Arithmetic

Arithmetic on longs is exact: a result that does not fit 64 bits is an error, never a wrapped number.
As soon as a double takes part the work goes on in doubles.
-/

namespace LispMachine.Arithmetic

/-- The long with a given value, if there is one. -/
def fit? (n : Int) : Option Int64 :=
  if -0x8000000000000000 ≤ n ∧ n < 0x8000000000000000 then some (Int64.ofInt n) else none

/-- The two kinds of numbers. -/
inductive Number where
  | int (n : Int64)
  | float (x : Double)

namespace Number

/-- Integers widen. -/
def toDouble : Number → Double
  | .int n => Double.ofInt n.toInt
  | .float x => x

end Number

/-- The number a value is; `op` names the operation in errors. -/
def number (op : String) : Value → Except Error Number
  | .int n => .ok (.int n)
  | .float x => .ok (.float x)
  | v => .error (Error.runtime (op ++ " expects numbers, got " ++ v.classText))

def overflow (op : String) : Error := Error.runtime ("integer overflow in " ++ op)

/-- The integer result, unless it overflows. -/
def checked (op : String) (n : Int) : Except Error Value :=
  match fit? n with
  | some n => .ok (.int n)
  | none => .error (overflow op)

/-- An operation by its effect on integers and on doubles. -/
def arith (op : String) (onInts : Int → Int → Int) (onDoubles : Double → Double → Double)
    (a b : Value) : Except Error Value := do
  match ← number op a, ← number op b with
  | .int x, .int y => checked op (onInts x.toInt y.toInt)
  | x, y => return .float (onDoubles x.toDouble y.toDouble)

def add (op : String) : Value → Value → Except Error Value := arith op (· + ·) Double.add
def sub (op : String) : Value → Value → Except Error Value := arith op (· - ·) Double.sub
def mul (op : String) : Value → Value → Except Error Value := arith op (· * ·) Double.mul

/-- Combines values from the left. -/
def foldFrom (f : Value → Value → Except Error Value) : Value → List Value → Except Error Value
  | acc, [] => .ok acc
  | acc, v :: vs => do foldFrom f (← f acc v) vs

def sum (args : List Value) : Except Error Value := foldFrom (add "+") (.int 0) args

def product (args : List Value) : Except Error Value := foldFrom (mul "*") (.int 1) args

/-- Subtraction from the first argument; negation of a single one. -/
def difference : List Value → Except Error Value
  | [] => .error (Error.runtime "- needs an argument")
  | [x] => sub "-" (.int 0) x
  | x :: rest => foldFrom (sub "-") x rest

def divideByZero : Error := Error.runtime "Divide by zero"

/-- Longs divide to a long when nothing remains and to a double otherwise. -/
def divide (a b : Value) : Except Error Value := do
  match ← number "/" a, ← number "/" b with
  | .int x, .int y =>
    if y = 0 then .error divideByZero
    else if x = Int64.minValue ∧ y = -1 then .error (overflow "/")
    else if Int.tmod x.toInt y.toInt = 0 then checked "/" (Int.tdiv x.toInt y.toInt)
    else return .float ((Double.ofInt x.toInt).div (Double.ofInt y.toInt))
  | _, .int 0 => .error divideByZero
  | x, y => return .float (x.toDouble.div y.toDouble)

/-- Division of the first argument by the others; the inverse of a single one. -/
def quotient : List Value → Except Error Value
  | [] => .error (Error.runtime "/ needs an argument")
  | [x] => divide (.int 1) x
  | x :: rest => foldFrom divide x rest

/-- The remainder that is never negative. -/
def modulo (a b : Value) : Except Error Value := do
  match ← number "mod" a, ← number "mod" b with
  | .int x, .int y =>
    if y = 0 then .error divideByZero
    else if x = Int64.minValue ∧ y = -1 then .error (overflow "mod")
    else checked "mod" (Int.emod x.toInt y.toInt)
  | _, .int 0 => .error divideByZero
  | x, y => return .float (x.toDouble.remEuclid y.toDouble)

/-! ### Comparing -/

/-- The order of two numbers. -/
def compare (op : String) (a b : Value) : Except Error Ordering := do
  match ← number op a, ← number op b with
  | .int x, .int y => return Ord.compare x.toInt y.toInt
  | x, y =>
    match x.toDouble.compare? y.toDouble with
    | some o => return o
    | none => .error (Error.runtime (op ++ " cannot order NaN"))

/-- Whether neighbours are all in the accepted order; the first that are not end the comparison. -/
def ordered (op : String) (accept : Ordering → Bool) : List Value → Except Error Value
  | a :: b :: rest => do
    if accept (← compare op a b) then ordered op accept (b :: rest) else return .bool false
  | _ => .ok (.bool true)

/-- Equality that also compares longs with doubles. -/
def same (a b : Value) : Bool :=
  match a, b with
  | .int n, .float x => (Double.ofInt n.toInt).eq x
  | .float x, .int n => (Double.ofInt n.toInt).eq x
  | a, b => a == b

/-- Neighbours are all equal. -/
def allSame : List Value → Bool
  | a :: b :: rest => same a b && allSame (b :: rest)
  | _ => true

def isZero (v : Value) : Except Error Value := do
  match ← number "zero?" v with
  | .int n => return .bool (n == 0)
  | .float x => return .bool x.isZero

/-- Whether a long is even, or odd. -/
def parity (op : String) (wantEven : Bool) : Value → Except Error Value
  | .int n => .ok (.bool ((n.toInt % 2 == 0) == wantEven))
  | v => .error (Error.runtime (op ++ " expects a long, got " ++ v.typeName))

end LispMachine.Arithmetic
