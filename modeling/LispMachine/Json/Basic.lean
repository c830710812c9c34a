import LispMachine.Double.Printer
import LispMachine.Text.Quoted

/-!
# JSON

JSON values with integers kept apart from other numbers, the lookups a decoder needs, and their text:
compact, without blanks, with quotes, backslashes and control characters escaped and nothing else; a number
that is not finite is written `null`.
-/

namespace LispMachine

/-- A JSON document; members keep their order. -/
inductive Json where
  | null
  | bool (b : Bool)
  | int (n : Int)
  | float (x : Double)
  | str (s : String)
  | arr (items : List Json)
  | obj (members : List (String × Json))
deriving Inhabited

namespace Json

/-- The member of an object under a key; the last one counts. -/
def member? (key : String) : Json → Option Json
  | .obj ms => (ms.reverse.find? fun m => m.1 == key).map Prod.snd
  | _ => none

/-- The member under a key, absent or `null` being nothing. -/
def optional? (key : String) (j : Json) : Option Json :=
  match j.member? key with
  | some .null => none
  | m => m

def str? : Json → Option String
  | .str s => some s
  | _ => none

def bool? : Json → Option Bool
  | .bool b => some b
  | _ => none

def int? : Json → Option Int
  | .int n => some n
  | _ => none

def nat? : Json → Option Nat
  | .int n => if 0 ≤ n then some n.toNat else none
  | _ => none

/-- Any number; integers round to the nearest double. -/
def float? : Json → Option Double
  | .int n => some (Double.ofInt n)
  | .float x => some x
  | _ => none

def arr? : Json → Option (List Json)
  | .arr items => some items
  | _ => none

/-- A value under its only key, or a bare name: how a case of a variant is written. -/
def variant? : Json → Option (String × Option Json)
  | .str tag => some (tag, none)
  | .obj [(tag, body)] => some (tag, some body)
  | _ => none

/-- A case with contents. -/
def tagged (tag : String) (body : Json) : Json := .obj [(tag, body)]

def ofNat (n : Nat) : Json := .int n

def ofStrings (ss : List String) : Json := .arr (ss.map .str)

/-- An absent value is written as null. -/
def ofOption : Option Json → Json
  | some j => j
  | none => .null

/-! ### Text of values -/

/-- How one character is written inside a string. -/
def escape (c : Char) : List Char :=
  if c == '\x22' || c == '\\' then ['\\', c]
  else if c == '\x08' then ['\\', 'b']
  else if c == '\x0c' then ['\\', 'f']
  else if c == '\n' then ['\\', 'n']
  else if c == '\r' then ['\\', 'r']
  else if c == '\t' then ['\\', 't']
  else if c.toNat < 0x20 then
    ['\\', 'u', '0', '0', Text.hexDigit (c.toNat / 16), Text.hexDigit (c.toNat % 16)]
  else [c]

/-- A text in quotes. -/
def strChars (s : String) : List Char :=
  '\x22' :: s.toList.flatMap escape ++ ['\x22']

/-- Numbers that are not finite are written as null. -/
def floatChars (x : Double) : List Char :=
  if x.isFinite then x.finiteText Double.imageFormat else ['n', 'u', 'l', 'l']

mutual
/-- The text of a value in front of `tail`. -/
def print : Json → List Char → List Char
  | .null, tail => 'n' :: 'u' :: 'l' :: 'l' :: tail
  | .bool true, tail => 't' :: 'r' :: 'u' :: 'e' :: tail
  | .bool false, tail => 'f' :: 'a' :: 'l' :: 's' :: 'e' :: tail
  | .int n, tail => Double.intText n ++ tail
  | .float x, tail => floatChars x ++ tail
  | .str s, tail => strChars s ++ tail
  | .arr [], tail => '[' :: ']' :: tail
  | .arr (j :: js), tail => '[' :: print j (printItems js tail)
  | .obj [], tail => '\x7b' :: '\x7d' :: tail
  | .obj ((k, j) :: ms), tail => '\x7b' :: strChars k ++ ':' :: print j (printMembers ms tail)

/-- The items after the first one, and the closing bracket. -/
def printItems : List Json → List Char → List Char
  | [], tail => ']' :: tail
  | j :: js, tail => ',' :: print j (printItems js tail)

/-- The members after the first one, and the closing brace. -/
def printMembers : List (String × Json) → List Char → List Char
  | [], tail => '\x7d' :: tail
  | (k, j) :: ms, tail => ',' :: strChars k ++ ':' :: print j (printMembers ms tail)
end

/-- The text of a value. -/
def render (j : Json) : String := String.ofList (j.print [])

end Json

end LispMachine
