import LispMachine.Double.Basic
import LispMachine.Native
import LispMachine.Symbol
import LispMachine.Text.Basic

/-!
# Values

The values programs compute with.  Objects, vars and functions are references with an identity; all
other values are compared by contents: lists and vectors alike when their items are, maps and sets
regardless of order.
-/

namespace LispMachine

/-- An object, by its place in the heap, with the name of its class. -/
structure ObjectRef where
  id : Nat
  className : String
deriving DecidableEq, Inhabited

/-- A var, by its place in the store, with its qualified name. -/
structure VarRef where
  id : Nat
  space : String
  name : String
deriving DecidableEq, Inhabited

namespace VarRef

def toText (v : VarRef) : String := v.space ++ "/" ++ v.name

end VarRef

/-- A built-in function, or the function a protocol method is called by. -/
inductive Function where
  | native (n : Native)
  | dispatcher (id : Nat) (method : String)
deriving DecidableEq, Inhabited

namespace Function

/-- The name of a function. -/
def title : Function → String
  | .native n => n.title
  | .dispatcher _ method => method

/-- How many arguments a function takes. -/
def arity : Function → Arity
  | .native n => n.arity
  | .dispatcher .. => .atLeast 1

/-- The type of what a function returns. -/
def result : Function → Ty
  | .native n => n.result
  | .dispatcher .. => .any

/-- A text no other function has. -/
def identityText : Function → String
  | .native n => "n" ++ n.title
  | .dispatcher id _ => "d" ++ toString id

end Function

/-- What programs compute with. -/
inductive Value where
  | nil
  | bool (b : Bool)
  | char (c : Char)
  | int (n : Int64)
  | float (x : Double)
  | str (s : String)
  | regex (source : String)
  | keyword (s : Symbol)
  | symbol (s : Symbol)
  | list (items : List Value)
  | vector (items : List Value)
  | map (entries : List (Value × Value))
  | set (items : List Value)
  | function (f : Function)
  | object (o : ObjectRef)
  | cls (name : String)
  | nameSpace (name : String)
  | var (v : VarRef)
  | special (f : SpecialForm)
deriving Inhabited

namespace Value

/-- All but nil and false. -/
def truthy : Value → Bool
  | .nil => false
  | .bool b => b
  | _ => true

def isNil : Value → Bool
  | .nil => true
  | _ => false

def int? : Value → Option Int64
  | .int n => some n
  | _ => none

/-- Elements of anything sequential, `nil` being empty. -/
def items? : Value → Option (List Value)
  | .nil => some []
  | .list items => some items
  | .vector items => some items
  | .set items => some items
  | .map entries => some (entries.map fun (k, v) => .vector [k, v])
  | .str s => some (s.toList.map .char)
  | _ => none

/-- What kind of value it is, for messages. -/
def typeName : Value → String
  | .nil => "nil"
  | .bool _ => "boolean"
  | .char _ => "char"
  | .int _ => "long"
  | .float _ => "double"
  | .str _ => "string"
  | .regex _ => "regex"
  | .keyword _ => "keyword"
  | .symbol _ => "symbol"
  | .list _ => "list"
  | .vector _ => "vector"
  | .map _ => "map"
  | .set _ => "set"
  | .function _ => "native function"
  | .object _ => "object"
  | .cls _ => "class"
  | .nameSpace _ => "namespace"
  | .var _ => "var"
  | .special _ => "special form"

/-- The class at run time; `nil` has none. -/
def className? : Value → Option String
  | .nil => none
  | .bool _ => some Names.boolean
  | .char _ => some Names.character
  | .int _ => some Names.long
  | .float _ => some Names.double
  | .str _ => some Names.string
  | .regex _ => some Names.pattern
  | .keyword _ => some Names.keyword
  | .symbol _ => some Names.symbol
  | .list _ => some Names.list
  | .vector _ => some Names.vector
  | .map _ => some Names.map
  | .set _ => some Names.set
  | .function _ => some Names.nativeFn
  | .object o => some o.className
  | .cls _ => some Names.cls
  | .nameSpace _ => some Names.nameSpace
  | .var _ => some Names.var
  | .special _ => some Names.specialForm

/-- The class for messages. -/
def classText (v : Value) : String := v.className?.getD "nil"

def keywordNamed (name : String) : Value := .keyword (Symbol.parse name)

def symbolNamed (name : String) : Value := .symbol (Symbol.parse name)

/-! ### Equality -/

mutual
/-- Equality of values: integers and floating-point numbers differ, lists and vectors with equal
items do not. -/
def eq : Value → Value → Bool
  | .nil, .nil => true
  | .bool a, .bool b => a == b
  | .char a, .char b => a == b
  | .int a, .int b => a == b
  | .float a, .float b => a.eq b
  | .str a, .str b => a == b
  | .regex a, .regex b => a == b
  | .keyword a, .keyword b => a == b
  | .symbol a, .symbol b => a == b
  | .list a, .list b => eqs a b
  | .list a, .vector b => eqs a b
  | .vector a, .list b => eqs a b
  | .vector a, .vector b => eqs a b
  | .map a, .map b => a.length == b.length && eqEntries a b
  | .set a, .set b => a.length == b.length && eqMembers a b
  | .function a, .function b => a == b
  | .object a, .object b => a.id == b.id
  | .cls a, .cls b => a == b
  | .nameSpace a, .nameSpace b => a == b
  | .var a, .var b => a.id == b.id
  | .special a, .special b => a == b
  | _, _ => false
termination_by structural v => v

/-- Equality item by item. -/
def eqs : List Value → List Value → Bool
  | [], [] => true
  | x :: xs, y :: ys => eq x y && eqs xs ys
  | _, _ => false
termination_by structural vs => vs

/-- Every entry of the first list occurs in the second. -/
def eqEntries : List (Value × Value) → List (Value × Value) → Bool
  | [], _ => true
  | (k, v) :: es, fs => (fs.any fun f => eq k f.1 && eq v f.2) && eqEntries es fs
termination_by structural es => es

/-- Every member of the first list occurs in the second. -/
def eqMembers : List Value → List Value → Bool
  | [], _ => true
  | x :: xs, ys => (ys.any fun y => eq x y) && eqMembers xs ys
termination_by structural vs => vs
end

instance : BEq Value := ⟨eq⟩

/-! ### Hashing -/

/-- The hash of a symbol. -/
def symbolHash (s : Symbol) : UInt32 :=
  Text.hash32 s.name * 31 + (s.qualifier.map Text.hash32).getD 0

/-- The exclusive or of the two halves of the word. -/
def intHash (n : Int64) : UInt32 :=
  let w := n.toUInt64
  (w ^^^ (w >>> 32)).toUInt32

mutual
/-- The 32-bit hash: equal values have equal hashes, also across lists and vectors. -/
def hash32 : Value → UInt32
  | .nil => 0
  | .bool true => 1231
  | .bool false => 1237
  | .char c => c.val
  | .int n => intHash n
  | .float x => x.hash32
  | .str s => Text.hash32 s
  | .regex s => Text.hash32 s
  | .symbol s => symbolHash s
  | .keyword s => symbolHash s + 0x9e3779b9
  | .list items => hashItems 1 items
  | .vector items => hashItems 1 items
  | .map entries => hashEntries entries
  | .set items => hashMembers items
  | .function f => Text.hash32 f.identityText
  | .object o => UInt32.ofNat o.id
  | .var v => UInt32.ofNat v.id
  | .cls name => Text.hash32 name
  | .nameSpace name => Text.hash32 name
  | .special f => Text.hash32 f.title
termination_by structural v => v

/-- Ordered combination, base 31. -/
def hashItems (h : UInt32) : List Value → UInt32
  | [] => h
  | x :: xs => hashItems (h * 31 + hash32 x) xs
termination_by structural vs => vs

/-- Unordered combination of entries. -/
def hashEntries : List (Value × Value) → UInt32
  | [] => 0
  | (k, v) :: es => (hash32 k ^^^ hash32 v) + hashEntries es
termination_by structural es => es

/-- Unordered combination of members. -/
def hashMembers : List Value → UInt32
  | [] => 0
  | x :: xs => hash32 x + hashMembers xs
termination_by structural vs => vs
end

/-- The hash as programs see it. -/
def hashCode (v : Value) : Int := Text.signed32 v.hash32

/-! ### Maps and sets -/

/-- The value under a key. -/
def lookup? (key : Value) : List (Value × Value) → Option Value
  | [] => none
  | (k, v) :: es => if k == key then some v else lookup? key es

/-- Puts an entry into a map; an equal key is replaced together with its value. -/
def insertEntry (key value : Value) : List (Value × Value) → List (Value × Value)
  | [] => [(key, value)]
  | (k, v) :: es => if k == key then (key, value) :: es else (k, v) :: insertEntry key value es

/-- Puts a member into a set; an equal member is replaced. -/
def insertMember (x : Value) : List Value → List Value
  | [] => [x]
  | y :: ys => if y == x then x :: ys else y :: insertMember x ys

/-- An equal value is among the items. -/
def isMember (x : Value) (xs : List Value) : Bool := xs.any fun y => y == x

/-- The map with the given entries, later ones replacing earlier ones. -/
def mapOf (entries : List (Value × Value)) : Value :=
  .map (entries.foldl (fun es e => insertEntry e.1 e.2 es) [])

/-- The set with the given members, later ones replacing equal earlier ones. -/
def setOf (items : List Value) : Value :=
  .set (items.foldl (fun xs x => insertMember x xs) [])

end Value

end LispMachine
