import LispMachine.Json.Basic
import LispMachine.Double.Reader

/-!
# JSON text, read

A reader for JSON text.  Arrays and objects may nest up to a given depth.  Integers that fit 64 bits
are kept exactly; any other number is the first nineteen or so digits as an integer, rounded, then
scaled by one rounded power of ten, so a long decimal may miss the nearest double by a little.
-/

namespace LispMachine.Json

/-- What a reader of a part gives: the part and the text behind it. -/
abbrev Parsed (α : Type) := Option (α × List Char)

def isBlank (c : Char) : Bool := c == ' ' || c == '\n' || c == '\t' || c == '\r'

def skipBlanks (cs : List Char) : List Char := cs.dropWhile isBlank

/-! ### Numbers -/

def digitValue (c : Char) : Nat := c.toNat - 0x30

def wordLimit : Nat := 0x10000000000000000

/-- Takes digits into a significand while it fits a word; also counts the digits taken. -/
def takeSignificand : Nat → Nat → List Char → Nat × Nat × List Char
  | s, count, c :: cs =>
    if c.isDigit && 10 * s + digitValue c < wordLimit then
      takeSignificand (10 * s + digitValue c) (count + 1) cs
    else (s, count, c :: cs)
  | s, count, [] => (s, count, [])

/-- `10 ^ n` as the nearest double. -/
def powerOfTen (n : Nat) : Double := Double.ofRatio false (Nat.pow 10 n) 1

/-- Scales a rounded significand by a power of ten; fails beyond the largest number. -/
def scaleAux : Nat → Double → Int → Option Double
  | 0, f, _ => some f
  | fuel + 1, f, e =>
    if e.natAbs ≤ 308 then
      if 0 ≤ e then
        let g := f.mul (powerOfTen e.natAbs)
        if g.isInfinite then none else some g
      else some (f.div (powerOfTen e.natAbs))
    else if f.isZero then some f
    else if 0 ≤ e then none
    else scaleAux fuel (f.div (powerOfTen 308)) (e + 308)

/-- The number `significand * 10 ^ e` to working precision, unless it is too large. -/
def scale (negative : Bool) (significand : Nat) (e : Int) : Option Double :=
  (scaleAux (e.natAbs / 308 + 1) (Double.ofInt significand) e).map fun f =>
    if negative then f.neg else f

def smallLimit : Nat := 0x80000000

/-- An exponent behind its mark, applied to the number in front of it. -/
def exponentPart (negative : Bool) (significand : Nat) (e : Int) (cs : List Char) : Parsed Double :=
  let (down, cs) := Double.splitSign cs
  let ds := cs.takeWhile Char.isDigit
  let rest := cs.dropWhile Char.isDigit
  if ds.isEmpty then none
  else
    let n := Double.digitsValue ds
    if smallLimit ≤ n then
      if significand != 0 && !down then none
      else some (Double.ofMagnitude negative 0, rest)
    else
      (scale negative significand (if down then e - n else e + n)).map fun x => (x, rest)

/-- What may follow the digits of a number. -/
def afterDigits (negative : Bool) (significand : Nat) (e : Int) : List Char → Parsed Double
  | c :: cs =>
    if c == 'e' || c == 'E' then exponentPart negative significand e cs
    else (scale negative significand e).map fun x => (x, c :: cs)
  | [] => (scale negative significand e).map fun x => (x, [])

/-- The digits behind a point; those past the word are dropped. -/
def fractionPart (negative : Bool) (significand : Nat) (e : Int) (cs : List Char) : Parsed Double :=
  let (s, count, rest) := takeSignificand significand 0 cs
  let past := rest.takeWhile Char.isDigit
  if count == 0 && past.isEmpty then none
  else afterDigits negative s (e - count) (rest.dropWhile Char.isDigit)

/-- A number from its sign and the rest of its text. -/
def unsignedNumber (negative : Bool) (cs : List Char) : Parsed Json :=
  let whole (s : Nat) (rest : List Char) : Parsed Json :=
    match rest with
    | '.' :: ds => (fractionPart negative s 0 ds).map fun (x, r) => (.float x, r)
    | c :: ds =>
      if c == 'e' || c == 'E' then
        (exponentPart negative s 0 ds).map fun (x, r) => (.float x, r)
      else if negative && (s == 0 || 0x8000000000000000 < s) then some (.float (Double.ofInt s).neg, c :: ds)
      else some (.int (if negative then -s else s), c :: ds)
    | [] =>
      if negative && (s == 0 || 0x8000000000000000 < s) then some (.float (Double.ofInt s).neg, [])
      else some (.int (if negative then -s else s), [])
  match cs with
  | '0' :: rest =>
    match rest with
    | c :: _ => if c.isDigit then none else whole 0 rest
    | [] => whole 0 []
  | c :: _ =>
    if c.isDigit then
      let (s, _, rest) := takeSignificand 0 0 cs
      let past := rest.takeWhile Char.isDigit
      let rest := rest.dropWhile Char.isDigit
      if past.isEmpty then whole s rest
      else
        match rest with
        | '.' :: ds => (fractionPart negative s past.length ds).map fun (x, r) => (.float x, r)
        | rest => (afterDigits negative s past.length rest).map fun (x, r) => (.float x, r)
    else none
  | [] => none

/-- A number behind an optional sign. -/
def number : List Char → Parsed Json
  | '-' :: cs => unsignedNumber true cs
  | cs => unsignedNumber false cs

/-! ### Strings -/

def hexValue? (c : Char) : Option Nat :=
  let n := c.toNat
  if c.isDigit then some (n - 0x30)
  else if 0x61 ≤ n && n ≤ 0x66 then some (n - 0x57)
  else if 0x41 ≤ n && n ≤ 0x46 then some (n - 0x37)
  else none

/-- The number four hexadecimal digits stand for. -/
def hex4? (a b c d : Char) : Option Nat := do
  return (← hexValue? a) * 4096 + (← hexValue? b) * 256 + (← hexValue? c) * 16 + (← hexValue? d)

/-- The character behind a backslash, for the escapes of one letter. -/
def shortEscape? (c : Char) : Option Char :=
  if c == '\x22' || c == '\\' || c == '/' then some c
  else if c == 'b' then some '\x08'
  else if c == 'f' then some '\x0c'
  else if c == 'n' then some '\n'
  else if c == 'r' then some '\r'
  else if c == 't' then some '\t'
  else none

/-- The rest of a string up to its closing quote; `taken` holds the characters so far, latest first,
and `high` the first half of a character written as two escapes. -/
def stringBody (high : Option Nat) (taken : List Char) : List Char → Parsed String
  | [] => none
  | '\\' :: 'u' :: a :: b :: c :: d :: cs =>
    match hex4? a b c d, high with
    | none, _ => none
    | some n, some m =>
      if 0xDC00 ≤ n && n < 0xE000 then
        stringBody none (Char.ofNat (0x10000 + (m - 0xD800) * 0x400 + (n - 0xDC00)) :: taken) cs
      else none
    | some n, none =>
      if 0xD800 ≤ n && n < 0xDC00 then stringBody (some n) taken cs
      else if 0xDC00 ≤ n && n < 0xE000 then none
      else stringBody none (Char.ofNat n :: taken) cs
  | '\\' :: c :: cs =>
    match high, shortEscape? c with
    | none, some e => stringBody none (e :: taken) cs
    | _, _ => none
  | c :: cs =>
    if high.isSome || c.toNat < 0x20 || c == '\\' then none
    else if c == '\x22' then some (String.ofList taken.reverse, cs)
    else stringBody none (c :: taken) cs

/-! ### Values -/

mutual
/-- One value.  `depth` is the nesting still allowed; `fuel` bounds the text read. -/
def value : Nat → Nat → List Char → Parsed Json
  | 0, _, _ => none
  | fuel + 1, depth, cs =>
    match skipBlanks cs with
    | 'n' :: 'u' :: 'l' :: 'l' :: rest => some (.null, rest)
    | 't' :: 'r' :: 'u' :: 'e' :: rest => some (.bool true, rest)
    | 'f' :: 'a' :: 'l' :: 's' :: 'e' :: rest => some (.bool false, rest)
    | '\x22' :: rest => (stringBody none [] rest).map fun (s, r) => (.str s, r)
    | '[' :: rest =>
      if depth == 0 then none
      else
        match skipBlanks rest with
        | ']' :: rest => some (.arr [], rest)
        | rest => (items fuel (depth - 1) [] rest).map fun (js, r) => (.arr js, r)
    | '\x7b' :: rest =>
      if depth == 0 then none
      else
        match skipBlanks rest with
        | '\x7d' :: rest => some (.obj [], rest)
        | rest => (members fuel (depth - 1) [] rest).map fun (ms, r) => (.obj ms, r)
    | rest => number rest

/-- Items up to the closing bracket; `taken` holds those read, latest first. -/
def items : Nat → Nat → List Json → List Char → Parsed (List Json)
  | 0, _, _, _ => none
  | fuel + 1, depth, taken, cs =>
    match value fuel depth cs with
    | none => none
    | some (j, rest) =>
      match skipBlanks rest with
      | ',' :: rest => items fuel depth (j :: taken) rest
      | ']' :: rest => some ((j :: taken).reverse, rest)
      | _ => none

/-- Members up to the closing brace; `taken` holds those read, latest first. -/
def members : Nat → Nat → List (String × Json) → List Char → Parsed (List (String × Json))
  | 0, _, _, _ => none
  | fuel + 1, depth, taken, cs =>
    match skipBlanks cs with
    | '\x22' :: cs =>
      match stringBody none [] cs with
      | none => none
      | some (k, rest) =>
        match skipBlanks rest with
        | ':' :: rest =>
          match value fuel depth rest with
          | none => none
          | some (j, rest) =>
            match skipBlanks rest with
            | ',' :: rest => members fuel depth ((k, j) :: taken) rest
            | '\x7d' :: rest => some (((k, j) :: taken).reverse, rest)
            | _ => none
        | _ => none
    | _ => none
end

/-- The value a text denotes, when it nests at most `depth` deep and nothing follows it. -/
def parse? (depth : Nat) (text : List Char) : Option Json :=
  match value (text.length + 1) depth text with
  | some (j, rest) => if (skipBlanks rest).isEmpty then some j else none
  | none => none

end LispMachine.Json
