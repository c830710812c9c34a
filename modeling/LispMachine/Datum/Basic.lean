import LispMachine.Double.Basic
import LispMachine.Symbol

/-!
# Data

What the reader produces and the compiler consumes: atoms and collections of data, each with the place
it was read from, an optional type hint and metadata flags.  `Datum.sameShape` compares data without
their places and metadata.
-/

namespace LispMachine

/-- A place in a text; lines and columns count from one, indices from zero. -/
structure Span where
  line : Nat := 0
  col : Nat := 0
  index : Nat := 0
deriving DecidableEq, Inhabited

/-- What is known about a datum besides its contents. -/
structure Info where
  span : Span := {}
  hint : Option String := none
  flags : List String := []
deriving DecidableEq, Inhabited

/-- Data without parts. -/
inductive Atom where
  | nil
  | bool (b : Bool)
  | char (c : Char)
  | int (n : Int64)
  | float (x : Double)
  | str (s : String)
  | regex (source : String)
  | keyword (name : String)
  | symbol (name : String)
deriving DecidableEq, Inhabited

namespace Atom

/-- Equality of contents; floats compare as numbers. -/
def same : Atom → Atom → Bool
  | .float x, .float y => x.eq y
  | a, b => a == b

end Atom

/-- What the reader reads: atoms and collections of data, each with what is known about it. -/
inductive Datum where
  | atom (a : Atom) (info : Info)
  | list (items : List Datum) (info : Info)
  | vector (items : List Datum) (info : Info)
  | set (items : List Datum) (info : Info)
  | map (entries : List (Datum × Datum)) (info : Info)
deriving Inhabited

namespace Datum

/-- What is known about a datum. -/
def info : Datum → Info
  | .atom _ i => i
  | .list _ i => i
  | .vector _ i => i
  | .set _ i => i
  | .map _ i => i

def span (d : Datum) : Span := d.info.span

def hint (d : Datum) : Option String := d.info.hint

def flags (d : Datum) : List String := d.info.flags

/-- The same datum with other information. -/
def withInfo (i : Info) : Datum → Datum
  | .atom a _ => .atom a i
  | .list items _ => .list items i
  | .vector items _ => .vector items i
  | .set items _ => .set items i
  | .map entries _ => .map entries i

/-- The datum was read with a given flag. -/
def hasFlag (flag : String) (d : Datum) : Bool := d.flags.contains flag

/-- Adds a flag unless it is there. -/
def addFlag (flag : String) (d : Datum) : Datum :=
  if d.hasFlag flag then d else d.withInfo { d.info with flags := d.flags ++ [flag] }

/-! ### Building -/

def ofAtom (a : Atom) (span : Span) : Datum := .atom a { span }
def nil (span : Span) : Datum := ofAtom .nil span
def symbol (name : String) (span : Span) : Datum := ofAtom (.symbol name) span
def ofList (items : List Datum) (span : Span) : Datum := .list items { span }
def ofVector (items : List Datum) (span : Span) : Datum := .vector items { span }

/-! ### Taking apart -/

/-- The name of a symbol. -/
def symbol? : Datum → Option String
  | .atom (.symbol name) _ => some name
  | _ => none

/-- The name of a keyword. -/
def keyword? : Datum → Option String
  | .atom (.keyword name) _ => some name
  | _ => none

/-- The items of a list. -/
def list? : Datum → Option (List Datum)
  | .list items _ => some items
  | _ => none

/-- The items of a vector. -/
def vector? : Datum → Option (List Datum)
  | .vector items _ => some items
  | _ => none

def isStr : Datum → Bool
  | .atom (.str _) _ => true
  | _ => false

/-- The symbol at the head of a list. -/
def head? (d : Datum) : Option String := d.list?.bind fun items => items.head?.bind symbol?

/-! ### Comparing -/

mutual
/-- Equality of contents, without places and metadata. -/
def sameShape : Datum → Datum → Bool
  | .atom a _, .atom b _ => a.same b
  | .list xs _, .list ys _ => sameShapes xs ys
  | .vector xs _, .vector ys _ => sameShapes xs ys
  | .set xs _, .set ys _ => sameShapes xs ys
  | .map xs _, .map ys _ => sameEntries xs ys
  | _, _ => false

def sameShapes : List Datum → List Datum → Bool
  | [], [] => true
  | x :: xs, y :: ys => sameShape x y && sameShapes xs ys
  | _, _ => false

def sameEntries : List (Datum × Datum) → List (Datum × Datum) → Bool
  | [], [] => true
  | (k, v) :: xs, (l, w) :: ys => sameShape k l && sameShape v w && sameEntries xs ys
  | _, _ => false
end

mutual
/-- Equality of contents, places and metadata. -/
def same : Datum → Datum → Bool
  | .atom a i, .atom b j => a.same b && i == j
  | .list xs i, .list ys j => sames xs ys && i == j
  | .vector xs i, .vector ys j => sames xs ys && i == j
  | .set xs i, .set ys j => sames xs ys && i == j
  | .map xs i, .map ys j => samePairs xs ys && i == j
  | _, _ => false

def sames : List Datum → List Datum → Bool
  | [], [] => true
  | x :: xs, y :: ys => same x y && sames xs ys
  | _, _ => false

def samePairs : List (Datum × Datum) → List (Datum × Datum) → Bool
  | [], [] => true
  | (k, v) :: xs, (l, w) :: ys => same k l && same v w && samePairs xs ys
  | _, _ => false
end

/-! ### Kinds -/

/-- The name of the kind of form a datum is. -/
def tag : Datum → String
  | .atom .nil _ => "nil"
  | .atom (.bool false) _ => "false"
  | .atom (.bool true) _ => "true"
  | .atom (.char _) _ => "char"
  | .atom (.int _) _ => "number"
  | .atom (.float _) _ => "number"
  | .atom (.str _) _ => "string"
  | .atom (.regex _) _ => "regex"
  | .atom (.keyword _) _ => "keyword"
  | .atom (.symbol _) _ => "symbol"
  | .list .. => "s-expression"
  | .vector .. => "vector"
  | .set .. => "set"
  | .map .. => "map"

end Datum

end LispMachine
