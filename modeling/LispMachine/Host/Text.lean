import LispMachine.Datum.Reader
import LispMachine.Error
import LispMachine.Text.CaseMap

/-!
# Methods of strings

Positions in a string count characters.
-/

namespace LispMachine.Host

def outOfRange (i : Int64) : Error :=
  Error.runtime ("string index out of range: " ++ String.ofList (Double.intText i.toInt))

/-- A position from the start to right behind the end. -/
def position (cs : List Char) (i : Int64) : Except Error Nat :=
  if i < 0 ∨ (cs.length : Int) < i.toInt then .error (outOfRange i) else .ok i.toInt.toNat

/-- The characters between two positions. -/
def substring (s : String) (first last : Int64) : Except Error Value := do
  let cs := s.toList
  let b ← position cs first
  let e ← position cs last
  if e < b then
    .error (Error.runtime ("begin " ++ toString b ++ " > end " ++ toString e))
  else return .str (String.ofList ((cs.drop b).take (e - b)))

/-- The first position at which a text occurs in another, counting from `i`. -/
def find? (part : List Char) : Nat → List Char → Option Nat
  | i, [] => if part.isEmpty then some i else none
  | i, c :: cs => if part.isPrefixOf (c :: cs) then some i else find? part (i + 1) cs

/-- The position of the first occurrence, or -1. -/
def indexOf (s part : String) : Value :=
  match find? part.toList 0 s.toList with
  | some i => .int (Int64.ofNat i)
  | none => .int (-1)

/-- The character at a position. -/
def charAt (s : String) (i : Int64) : Except Error Value :=
  if i < 0 then .error (outOfRange i)
  else
    match s.toList[i.toInt.toNat]? with
    | some c => .ok (.char c)
    | none => .error (outOfRange i)

def notANumber (s : String) : Error := Error.runtime ("for input string: " ++ Text.quote s)

/-- A decimal integer with an optional sign, blanks around it ignored. -/
def parseLong (s : String) : Except Error Value :=
  match Datum.decimalWord? (Text.trimChars s.toList) with
  | some n => .ok (.int n)
  | none => .error (notANumber s)

/-- A decimal number, blanks around it ignored. -/
def parseDouble (s : String) : Except Error Value :=
  match Double.ofText? (Text.trim s) with
  | some x => .ok (.float x)
  | none => .error (notANumber s)

end LispMachine.Host
