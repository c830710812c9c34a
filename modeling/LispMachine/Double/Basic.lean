/-!
# Double-precision numbers

IEEE 754 binary64 numbers as words, with every operation computed exactly on naturals and rounded
once, to nearest with ties to even.  A result that is not a number is the negative quiet one unless
an operand already was not a number; that operand is then the result.

Equality and order go through `Double.key`, which places the finite and infinite numbers on the
integers and sends both zeros to `0`.
-/

namespace LispMachine

/-- A binary64 number, given by its 64 bits. -/
structure Double where
  bits : UInt64
deriving DecidableEq, Inhabited

namespace Double

/-! ### Anatomy -/

/-- The bit pattern of a nonnegative number, as a natural below `2 ^ 63`. -/
def magnitude (x : Double) : Nat := x.bits.toNat % 0x8000000000000000

def isNegative (x : Double) : Bool := 0x8000000000000000 ≤ x.bits.toNat

/-- The magnitude of infinity. -/
def infinityMagnitude : Nat := 0x7FF0000000000000

def isNaN (x : Double) : Bool := infinityMagnitude < x.magnitude

def isInfinite (x : Double) : Bool := x.magnitude == infinityMagnitude

def isFinite (x : Double) : Bool := x.magnitude < infinityMagnitude

def isZero (x : Double) : Bool := x.magnitude == 0

/-- A number from its sign and magnitude. -/
def ofMagnitude (negative : Bool) (m : Nat) : Double :=
  ⟨UInt64.ofNat (if negative then 0x8000000000000000 + m else m)⟩

def zero : Double := ofMagnitude false 0

/-- Infinity with a given sign. -/
def infinity (negative : Bool) : Double := ofMagnitude negative infinityMagnitude

/-- The number an invalid operation gives. -/
def invalid : Double := ofMagnitude true 0x7FF8000000000000

/-- Not a number, as a literal denotes it. -/
def nan (negative : Bool) : Double := ofMagnitude negative 0x7FF8000000000000

/-- The other sign, also of zero and NaN. -/
def neg (x : Double) : Double := ofMagnitude (!x.isNegative) x.magnitude

/-- Without the sign. -/
def abs (x : Double) : Double := ofMagnitude false x.magnitude

/-- Significand and exponent of a finite number: `|x| = significand * 2 ^ exponent`. -/
def significand (x : Double) : Nat :=
  let e := x.magnitude / 0x10000000000000
  let f := x.magnitude % 0x10000000000000
  if e == 0 then f else 0x10000000000000 + f

/-- The exponent of the last place. -/
def exponent (x : Double) : Int :=
  let e : Nat := x.magnitude / 0x10000000000000
  (if e == 0 then 1 else (e : Int)) - 1075

/-! ### Rounding -/

/-- The quotient rounded to the nearest natural, a half going to the even neighbour. -/
def roundDiv (num den : Nat) : Nat :=
  let q := num / den
  let r := num % den
  if den < 2 * r || (2 * r == den && q % 2 == 1) then q + 1 else q

/-- `2 ^ e` as a fraction. -/
def powNum (e : Int) : Nat := Nat.pow 2 e.toNat
def powDen (e : Int) : Nat := Nat.pow 2 (-e).toNat

/-- The exponent `e` with `2 ^ e ≤ num / den < 2 ^ (e + 1)`, for a positive quotient. -/
def floorLog (num den : Nat) : Int :=
  let k : Int := (num.log2 : Int) - den.log2
  if den * powNum k ≤ num * powDen k then k else k - 1

/-- The number nearest to `num / den`, with the given sign. -/
def ofRatio (negative : Bool) (num den : Nat) : Double :=
  if num == 0 then ofMagnitude negative 0
  else
    let unit := max (floorLog num den - 52) (-1074)
    let m := roundDiv (num * powDen unit) (den * powNum unit)
    let bits := (unit + 1074).toNat * 0x10000000000000 + m
    ofMagnitude negative (min bits infinityMagnitude)

/-- The number nearest to `m * 2 ^ e`; a zero takes the sign `zeroNegative`. -/
def ofScaled (zeroNegative : Bool) (m e : Int) : Double :=
  if m == 0 then ofMagnitude zeroNegative 0
  else ofRatio (m < 0) (m.natAbs * powNum e) (powDen e)

/-- The nearest number to an integer. -/
def ofInt (n : Int) : Double := ofScaled false n 0

/-! ### Order -/

/-- Position on the number line; both zeros are at `0`. -/
def key (x : Double) : Int := if x.isNegative then -(x.magnitude : Int) else x.magnitude

/-- Numeric equality: nothing equals a number that is not one. -/
def eq (x y : Double) : Bool := !x.isNaN && !y.isNaN && x.key == y.key

/-- The order of the numbers; a NaN is not comparable. -/
def lt (x y : Double) : Bool := !x.isNaN && !y.isNaN && x.key < y.key

/-- How two numbers compare; undefined when one of them is not a number. -/
def compare? (x y : Double) : Option Ordering :=
  if x.isNaN || y.isNaN then none else some (compare x.key y.key)

/-- The larger number; one that is not a number loses. -/
def max (x y : Double) : Double :=
  if x.isNaN then y else if y.isNaN then x else if x.lt y then y else x

/-- The smaller number; one that is not a number loses. -/
def min (x y : Double) : Double :=
  if x.isNaN then y else if y.isNaN then x else if y.lt x then y else x

/-! ### Arithmetic -/

/-- The significand with its sign. -/
def signedSignificand (x : Double) : Int :=
  if x.isNegative then -(x.significand : Int) else x.significand

/-- The sum, rounded to nearest. -/
def add (x y : Double) : Double :=
  if x.isNaN then x
  else if y.isNaN then y
  else if x.isInfinite then
    if y.isInfinite && x.isNegative != y.isNegative then invalid else x
  else if y.isInfinite then y
  else
    let e := Min.min x.exponent y.exponent
    let sum := x.signedSignificand * powNum (x.exponent - e) +
      y.signedSignificand * powNum (y.exponent - e)
    ofScaled (x.isNegative && y.isNegative) sum e

/-- The difference, rounded to nearest. -/
def sub (x y : Double) : Double :=
  if x.isNaN then x else if y.isNaN then y else x.add y.neg

/-- The product, rounded to nearest. -/
def mul (x y : Double) : Double :=
  let negative := x.isNegative != y.isNegative
  if x.isNaN then x
  else if y.isNaN then y
  else if x.isInfinite || y.isInfinite then
    if x.isZero || y.isZero then invalid else infinity negative
  else
    ofScaled negative (x.signedSignificand * y.signedSignificand) (x.exponent + y.exponent)

/-- The quotient, rounded to nearest. -/
def div (x y : Double) : Double :=
  let negative := x.isNegative != y.isNegative
  if x.isNaN then x
  else if y.isNaN then y
  else if x.isInfinite then if y.isInfinite then invalid else infinity negative
  else if y.isInfinite then ofMagnitude negative 0
  else if y.isZero then if x.isZero then invalid else infinity negative
  else
    let e := x.exponent - y.exponent
    ofRatio negative (x.significand * powNum e) (y.significand * powDen e)

/-- The remainder of the truncated quotient; it has the sign of `x`. -/
def rem (x y : Double) : Double :=
  if x.isNaN then x
  else if y.isNaN then y
  else if x.isInfinite || y.isZero then invalid
  else if y.isInfinite then x
  else
    let e := Min.min x.exponent y.exponent
    let r := (x.significand * powNum (x.exponent - e)) % (y.significand * powNum (y.exponent - e))
    ofScaled x.isNegative (if x.isNegative then -(r : Int) else r) e

/-- The remainder that is not negative. -/
def remEuclid (x y : Double) : Double :=
  let r := x.rem y
  if r.lt zero then r.add y.abs else r

/-- The integer square root of `n` that has at most `bits` bits, added to `root`. -/
def sqrtAux (n : Nat) : Nat → Nat → Nat
  | 0, root => root
  | bits + 1, root =>
    let next := root + Nat.pow 2 bits
    sqrtAux n bits (if next * next ≤ n then next else root)

/-- The square root, rounded to nearest; NaN below zero. -/
def sqrt (x : Double) : Double :=
  if x.isNaN || x.isZero then x
  else if x.isNegative then invalid
  else if x.isInfinite then x
  else
    let shift : Nat := if x.exponent % 2 == 0 then 112 else 113
    let n := x.significand * Nat.pow 2 shift
    let root := sqrtAux n 84 0
    let sticky := if root * root == n then 0 else 1
    ofScaled false (2 * root + sticky : Nat) ((x.exponent - shift) / 2 - 1)

/-! ### Conversion -/

/-- The integer part, kept within 64 bits; `0` for what is not a number. -/
def truncate (x : Double) : Int64 :=
  if x.isNaN then 0
  else if x.isInfinite then if x.isNegative then Int64.minValue else Int64.maxValue
  else
    let n : Int := (x.significand * powNum x.exponent) / powDen x.exponent
    let n := if x.isNegative then -n else n
    if n < Int64.minValue.toInt then Int64.minValue
    else if Int64.maxValue.toInt < n then Int64.maxValue
    else Int64.ofInt n

/-- The 32-bit hash of the words; both zeros hash alike. -/
def hash32 (x : Double) : UInt32 :=
  let bits := if x.isZero then 0 else x.bits
  (bits ^^^ (bits >>> 32)).toUInt32

end Double

end LispMachine
