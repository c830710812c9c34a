import LispMachine.Datum.Basic
import LispMachine.Double.Printer
import LispMachine.Text.Quoted

/-!
# Data as text

The text the reader would read a datum from.
-/

namespace LispMachine

/-- The text of an atom. -/
def Atom.toText : Atom → String
  | .nil => "nil"
  | .bool b => if b then "true" else "false"
  | .char c => "\\" ++ c.toString
  | .int n => String.ofList (Double.intText n.toInt)
  | .float x => x.toText
  | .str s => Text.quote s
  | .regex s => "#\"" ++ s ++ "\""
  | .keyword k => ":" ++ k
  | .symbol s => s

namespace Datum

mutual
/-- The text of a datum, as the reader reads it. -/
def toText : Datum → String
  | .atom a _ => a.toText
  | .list items _ => "(" ++ " ".intercalate (toTexts items) ++ ")"
  | .vector items _ => "[" ++ " ".intercalate (toTexts items) ++ "]"
  | .set items _ => "#\x7b" ++ " ".intercalate (toTexts items) ++ "\x7d"
  | .map entries _ => "\x7b" ++ " ".intercalate (entryTexts entries) ++ "\x7d"

def toTexts : List Datum → List String
  | [] => []
  | d :: ds => toText d :: toTexts ds

def entryTexts : List (Datum × Datum) → List String
  | [] => []
  | (k, v) :: es => (toText k ++ " " ++ toText v) :: entryTexts es
end

end Datum

end LispMachine
