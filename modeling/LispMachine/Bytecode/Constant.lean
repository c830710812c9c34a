import LispMachine.Datum.Basic
import LispMachine.Ty

/-!
# Constants

What an instruction can push without computing it.  Collections are kept as the data they were written
as, and are built anew each time they are pushed.
-/

namespace LispMachine

/-- The four kinds of collections code can build. -/
inductive CollectionKind where
  | list
  | vector
  | map
  | set
deriving DecidableEq, Inhabited

namespace CollectionKind

/-- The class of a collection of this kind. -/
def className : CollectionKind → String
  | .list => Names.list
  | .vector => Names.vector
  | .map => Names.map
  | .set => Names.set

/-- The name in class images and listings. -/
def title : CollectionKind → String
  | .list => "List"
  | .vector => "Vector"
  | .map => "Map"
  | .set => "Set"

end CollectionKind

/-- What an instruction can push without computing it. -/
inductive Constant where
  | nil
  | bool (b : Bool)
  | char (c : Char)
  | long (n : Int64)
  | double (x : Double)
  | str (s : String)
  | keyword (name : String)
  | symbol (name : String)
  | regex (source : String)
  | cls (name : String)
  | nameSpace (name : String)
  | quoted (d : Datum)
deriving Inhabited

namespace Constant

/-- The type of the value pushed. -/
def ty : Constant → Ty
  | .nil => .any
  | .bool _ => .boolean
  | .char _ => .char
  | .long _ => .long
  | .double _ => .double
  | .str _ => .string
  | .keyword _ => .cls Names.keyword
  | .symbol _ => .cls Names.symbol
  | .regex _ => .cls Names.pattern
  | .cls _ => .cls Names.cls
  | .nameSpace _ => .cls Names.nameSpace
  | .quoted (.list ..) => .cls Names.list
  | .quoted (.vector ..) => .cls Names.vector
  | .quoted (.map ..) => .cls Names.map
  | .quoted (.set ..) => .cls Names.set
  | .quoted (.atom ..) => .any

/-- Equality; doubles compare as numbers. -/
def same : Constant → Constant → Bool
  | .nil, .nil => true
  | .bool a, .bool b => a == b
  | .char a, .char b => a == b
  | .long a, .long b => a == b
  | .double a, .double b => a.eq b
  | .str a, .str b => a == b
  | .keyword a, .keyword b => a == b
  | .symbol a, .symbol b => a == b
  | .regex a, .regex b => a == b
  | .cls a, .cls b => a == b
  | .nameSpace a, .nameSpace b => a == b
  | .quoted a, .quoted b => a.same b
  | _, _ => false

end Constant

end LispMachine
