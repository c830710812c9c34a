import LispMachine.Value.Basic
import LispMachine.Datum.Printer

/-!
# Values as text

The readable text of a value, with a printer for objects as a parameter, and the bare text that leaves
strings and characters unquoted.  Members of sets and entries of maps are written in the order of their
texts.
-/

namespace LispMachine.Value

/-- The text of a character: three have names. -/
def charText (c : Char) : String :=
  if c == '\n' then "\\newline"
  else if c == ' ' then "\\space"
  else if c == '\t' then "\\tab"
  else "\\" ++ c.toString

/-- Texts in ascending order. -/
def sortTexts (texts : List String) : List String := texts.mergeSort fun a b => decide (a ≤ b)

def parenthesized (texts : List String) : String := "(" ++ " ".intercalate texts ++ ")"

def bracketed (texts : List String) : String := "[" ++ " ".intercalate texts ++ "]"

/-- The text of a set from the texts of its members. -/
def setText (texts : List String) : String :=
  "#\x7b" ++ " ".intercalate (sortTexts texts) ++ "\x7d"

/-- The text of a map from the texts of its entries. -/
def mapText (texts : List String) : String :=
  "\x7b" ++ ", ".intercalate (sortTexts texts) ++ "\x7d"

mutual
/-- The readable text; `object` writes objects. -/
def textWith (object : ObjectRef → String) : Value → String
  | .nil => "nil"
  | .bool b => if b then "true" else "false"
  | .char c => charText c
  | .int n => String.ofList (Double.intText n.toInt)
  | .float x => x.toText
  | .str s => Text.quote s
  | .regex s => "#\"" ++ s ++ "\""
  | .keyword s => ":" ++ s.toText
  | .symbol s => s.toText
  | .list items => parenthesized (textsWith object items)
  | .vector items => bracketed (textsWith object items)
  | .set items => setText (textsWith object items)
  | .map entries => mapText (entryTextsWith object entries)
  | .function f => "#<fn " ++ f.title ++ ">"
  | .object o => object o
  | .cls name => name
  | .nameSpace name => "#<Namespace " ++ name ++ ">"
  | .var v => "#'" ++ v.toText
  | .special f => "#<special-form " ++ f.title ++ ">"
termination_by structural v => v

def textsWith (object : ObjectRef → String) : List Value → List String
  | [] => []
  | x :: xs => textWith object x :: textsWith object xs
termination_by structural vs => vs

def entryTextsWith (object : ObjectRef → String) : List (Value × Value) → List String
  | [] => []
  | (k, v) :: es =>
    (textWith object k ++ " " ++ textWith object v) :: entryTextsWith object es
termination_by structural es => es
end

/-- Strings and characters bare, `nil` empty, everything else readable. -/
def bareWith (object : ObjectRef → String) : Value → String
  | .nil => ""
  | .str s => s
  | .char c => c.toString
  | v => v.textWith object

end LispMachine.Value
