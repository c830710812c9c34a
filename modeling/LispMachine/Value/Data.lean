import LispMachine.Error
import LispMachine.Libraries.Basic

/-!
# Values and data

Quoted data as values, and values back as data.  A malformed pattern becomes `nil`; values that have no
text the reader reads cannot become data.
-/

namespace LispMachine

/-- The value an atom denotes. -/
def Atom.toValue [Libraries] : Atom → Value
  | .nil => .nil
  | .bool b => .bool b
  | .char c => .char c
  | .int n => .int n
  | .float x => .float x
  | .str s => .str s
  | .regex s => if Libraries.isPattern s then .regex s else .nil
  | .keyword k => .keywordNamed k
  | .symbol s => .symbolNamed s

namespace Datum

mutual
/-- The value a quoted datum denotes. -/
def toValue [Libraries] : Datum → Value
  | .atom a _ => a.toValue
  | .list items _ => .list (toValues items)
  | .vector items _ => .vector (toValues items)
  | .set items _ => .setOf (toValues items)
  | .map entries _ => .mapOf (toEntries entries)

def toValues [Libraries] : List Datum → List Value
  | [] => []
  | d :: ds => toValue d :: toValues ds

def toEntries [Libraries] : List (Datum × Datum) → List (Value × Value)
  | [] => []
  | (k, v) :: es => (toValue k, toValue v) :: toEntries es
end

end Datum

namespace Value

mutual
/-- The datum a value stands for as code, placed at `span`. -/
def toDatum (span : Span) : Value → Except Error Datum
  | .nil => .ok (.nil span)
  | .bool b => .ok (.ofAtom (.bool b) span)
  | .char c => .ok (.ofAtom (.char c) span)
  | .int n => .ok (.ofAtom (.int n) span)
  | .float x => .ok (.ofAtom (.float x) span)
  | .str s => .ok (.ofAtom (.str s) span)
  | .regex s => .ok (.ofAtom (.regex s) span)
  | .keyword k => .ok (.ofAtom (.keyword k.toText) span)
  | .symbol s => .ok (.ofAtom (.symbol s.toText) span)
  | .list items => (toData span items).map fun ds => .list ds { span }
  | .vector items => (toData span items).map fun ds => .vector ds { span }
  | .set items => (toData span items).map fun ds => .set ds { span }
  | .map entries => (toDataEntries span entries).map fun es => .map es { span }
  | v => .error ((Error.reading ("cannot embed " ++ v.typeName ++ " in code")).atSpan span)
termination_by structural v => v

def toData (span : Span) : List Value → Except Error (List Datum)
  | [] => .ok []
  | v :: vs => do
    let d ← toDatum span v
    let ds ← toData span vs
    return d :: ds
termination_by structural vs => vs

def toDataEntries (span : Span) : List (Value × Value) → Except Error (List (Datum × Datum))
  | [] => .ok []
  | (k, v) :: es => do
    let d ← toDatum span k
    let e ← toDatum span v
    let rest ← toDataEntries span es
    return (d, e) :: rest
termination_by structural es => es
end

end Value

end LispMachine
