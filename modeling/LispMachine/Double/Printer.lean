import LispMachine.Double.Basic

/-!
# Numbers as text

A number is written by its shortest digits, the fewest that read back as it: for one digit, two digits
and so on, the two neighbours of the number on that decimal grid are tested against the interval of reals
that round to it; the first grid with a hit wins, and of two hits the nearer.  The digits stand
positionally when the size of the number allows and with an exponent otherwise.  A `NumberFormat` says
where positional notation ends and how what is not finite is written.
-/

namespace LispMachine.Double

/-! ### Shortest decimals -/

/-- A decimal `digits * 10 ^ scale`. -/
structure Decimal where
  digits : Nat
  scale : Int
deriving DecidableEq

/-- The reals that round to a positive number, in quarters of its last place: its own position and the
two ends; `closed` says whether the ends belong to it. -/
structure Interval where
  low : Nat
  middle : Nat
  high : Nat
  closed : Bool

/-- At a power of two the lower neighbour is half as far away as the upper one. -/
def interval (x : Double) : Interval :=
  let m := x.significand
  let narrow := m == 0x10000000000000 && x.magnitude / 0x10000000000000 != 1
  { low := if narrow then 4 * m - 1 else 4 * m - 2
    middle := 4 * m
    high := 4 * m + 2
    closed := m % 2 == 0 }

/-- The exponent `k` with `10 ^ k ≤ num / den < 10 ^ (k + 1)`, searched upwards from `k`. -/
def decimalExponentAux (num den : Nat) : Nat → Int → Int
  | 0, k => k
  | fuel + 1, k =>
    let next := k + 1
    if den * Nat.pow 10 next.toNat ≤ num * Nat.pow 10 (-next).toNat then decimalExponentAux num den fuel next
    else k

/-- The exponent of the first decimal digit of a positive quotient. -/
def decimalExponent (num den : Nat) : Int :=
  let k := floorLog num den * 30103 / 100000
  decimalExponentAux num den 4 (k - 2)

/-- The nearest point of a decimal grid that an interval admits, as a count of grid steps, if it admits
one.  The interval is stretched by `scale`, and `step` is the distance between two points of the grid. -/
def Interval.hit? (i : Interval) (scale step : Nat) : Option Nat :=
  let middle := i.middle * scale
  let below := middle / step
  let admits (c : Nat) : Bool :=
    let at_ := c * step
    if i.closed then i.low * scale ≤ at_ && at_ ≤ i.high * scale
    else i.low * scale < at_ && at_ < i.high * scale
  match admits below && below != 0, admits (below + 1) with
  | true, true =>
    if middle - below * step < (below + 1) * step - middle then some below else some (below + 1)
  | true, false => some below
  | false, true => some (below + 1)
  | false, false => none

/-- Drops zeros at the end of the digits. -/
def Decimal.trim : Nat → Decimal → Decimal
  | 0, d => d
  | fuel + 1, d =>
    if d.digits != 0 && d.digits % 10 == 0 then trim fuel ⟨d.digits / 10, d.scale + 1⟩ else d

/-- Tries grids of `count`, `count + 1`, … digits. -/
def shortestAux (i : Interval) (unit first : Int) : Nat → Nat → Decimal
  | 0, _ => ⟨0, 0⟩
  | fuel + 1, count =>
    let scale := first + 1 - count
    let scaleNum := powNum unit * Nat.pow 10 (-scale).toNat
    let step := Nat.pow 10 scale.toNat * powDen unit
    match i.hit? scaleNum step with
    | some c => Decimal.trim 20 ⟨c, scale⟩
    | none => shortestAux i unit first fuel (count + 1)

/-- The shortest decimal that rounds to the magnitude of a finite number other than zero. -/
def shortest (x : Double) : Decimal :=
  let i := x.interval
  let unit := x.exponent - 2
  shortestAux i unit (decimalExponent (i.middle * powNum unit) (powDen unit)) 17 1

/-! ### Notation -/

/-- The decisions of one way to write numbers.  The place of the point is the number of digits before
it, not positive when the number is below one. -/
structure NumberFormat where
  /-- Positional notation covers the places from this one … -/
  leastPlace : Int
  /-- … to this one. -/
  greatestPlace : Int

/-- Source text and printed values: positional from `0.0001` up to below `10 ^ 16`. -/
def sourceFormat : NumberFormat := ⟨-3, 16⟩

/-- Images: positional from `0.00001` up to below `10 ^ 16`. -/
def imageFormat : NumberFormat := ⟨-4, 16⟩

/-- The decimal digits of a natural. -/
def digitText (n : Nat) : List Char := Nat.toDigits 10 n

def zeros (n : Nat) : List Char := List.replicate n '0'

/-- Digits with the point after the first `place` of them. -/
def positional (digits : List Char) (place : Int) : List Char :=
  if place ≤ 0 then '0' :: '.' :: zeros (-place).toNat ++ digits
  else
    let n := place.toNat
    if digits.length ≤ n then digits ++ zeros (n - digits.length) ++ ['.', '0']
    else digits.take n ++ '.' :: digits.drop n

/-- The decimal text of an integer. -/
def intText (n : Int) : List Char :=
  if n < 0 then '-' :: digitText n.natAbs else digitText n.natAbs

/-- One digit before the point and an exponent. -/
def scientific (digits : List Char) (place : Int) : List Char :=
  match digits with
  | [] => []
  | [d] => d :: 'e' :: intText (place - 1)
  | d :: ds => d :: '.' :: ds ++ 'e' :: intText (place - 1)

/-- The text of a magnitude. -/
def magnitudeText (format : NumberFormat) (x : Double) : List Char :=
  if x.isZero then ['0', '.', '0']
  else
    let d := x.shortest
    let digits := digitText d.digits
    let place : Int := digits.length + d.scale
    if format.leastPlace ≤ place && place ≤ format.greatestPlace then positional digits place
    else scientific digits place

/-- The text of a finite number. -/
def finiteText (format : NumberFormat) (x : Double) : List Char :=
  if x.isNegative then '-' :: magnitudeText format x else magnitudeText format x

/-- The text of any number, as source text and printed values show it. -/
def toText (x : Double) : String :=
  if x.isNaN then "NaN"
  else if x.isInfinite then if x.isNegative then "-inf" else "inf"
  else String.ofList (finiteText sourceFormat x)

end LispMachine.Double
