import LispMachine.Error

/-!
# Sequences, maps and sets

Built-in operations on collections that call no functions.
-/

namespace LispMachine.Sequence

/-- The elements of a value; `op` names the operation in errors. -/
def elements (op : String) (v : Value) : Except Error (List Value) :=
  match v.items? with
  | some items => .ok items
  | none => .error (Error.runtime (op ++ " cannot iterate " ++ v.typeName))

/-- Keys with the values behind them. -/
def pairs : List Value → List (Value × Value)
  | k :: v :: rest => (k, v) :: pairs rest
  | _ => []

def hashMap (args : List Value) : Except Error Value :=
  if args.length % 2 = 0 then .ok (.mapOf (pairs args))
  else .error (Error.runtime "hash-map needs an even number of arguments")

/-- A list, with nothing at all for no items. -/
def listOrNil (items : List Value) : Value := if items.isEmpty then .nil else .list items

/-- The item at a position that may be negative. -/
def item? (items : List Value) (i : Int64) : Option Value :=
  if i < 0 then none else items[i.toInt.toNat]?

def outOfBounds (i : Int64) : Error :=
  Error.runtime ("index out of bounds: " ++ String.ofList (Double.intText i.toInt))

/-- The item at an index, or the default where there is none. -/
def nth (items : List Value) (index : Value) (default? : Option Value) : Except Error Value :=
  match index.int? with
  | none => .error (Error.runtime "nth index must be a long")
  | some i =>
    match item? items i, default? with
    | some v, _ => .ok v
    | none, some d => .ok d
    | none, none => .error (outOfBounds i)

/-- Adds one item where the collection takes new items. -/
def conjOne (coll item : Value) : Except Error Value :=
  match coll, item with
  | .nil, item => .ok (.list [item])
  | .list items, item => .ok (.list (item :: items))
  | .vector items, item => .ok (.vector (items ++ [item]))
  | .set items, item => .ok (.set (Value.insertMember item items))
  | .map entries, .vector [k, v] => .ok (.map (Value.insertEntry k v entries))
  | .map _, item => .error (Error.runtime ("cannot conj " ++ item.typeName ++ " onto a map"))
  | coll, _ => .error (Error.runtime ("cannot conj onto " ++ coll.typeName))

/-- Adds items where the collection takes them: in front of a list, behind a vector. -/
def conj (coll : Value) : List Value → Except Error Value
  | [] => .ok coll
  | item :: items => do conj (← conjOne coll item) items

/-- All items of all arguments. -/
def concat : List Value → Except Error (List Value)
  | [] => .ok []
  | v :: vs => do
    let items ← elements "concat" v
    let rest ← concat vs
    return items ++ rest

/-- The last argument is a sequence that the others go in front of. -/
def listStar : List Value → Except Error (List Value)
  | [] => .error (Error.arity "list* needs arguments")
  | [last] => elements "list*" last
  | v :: vs => do return v :: (← listStar vs)

/-- A lookup that never fails. -/
def get (coll key fallback : Value) : Value :=
  match coll with
  | .map entries => (Value.lookup? key entries).getD fallback
  | .set items => if Value.isMember key items then key else fallback
  | .vector items => (key.int?.bind (item? items)).getD fallback
  | _ => fallback

/-- A map with keys set; nil counts as an empty one. -/
def assoc (target : Value) (args : List Value) : Except Error Value :=
  if args.length % 2 ≠ 0 then .error (Error.runtime "assoc needs key/value pairs")
  else
    let put := fun entries =>
      Value.map ((pairs args).foldl (fun es e => Value.insertEntry e.1 e.2 es) entries)
    match target with
    | .map entries => .ok (put entries)
    | .nil => .ok (put [])
    | v => .error (Error.runtime ("cannot assoc onto " ++ v.typeName))

/-- The key, member or index is there. -/
def contains (coll key : Value) : Bool :=
  match coll with
  | .map entries => (Value.lookup? key entries).isSome
  | .set items => Value.isMember key items
  | .vector items => (key.int?.bind (item? items)).isSome
  | _ => false

end LispMachine.Sequence
