import LispMachine.Registry.Basic

/-!
# The class hierarchy

The lineage of a class is the class itself and everything above it, breadth first, each class once.
The subtype test, method lookup and field lookup are read off it, and on static types assignability: when
a value of one type can stand where another is expected without a conversion, and the type at which two
branches of control flow meet.
-/

namespace LispMachine.Registry

/-- Classes reached from a queue of names, leaving out the names in `seen`. -/
def walk (r : Registry) : Nat → List String → List String → List ClassInfo
  | 0, _, _ => []
  | _ + 1, _, [] => []
  | fuel + 1, seen, name :: queue =>
    if seen.contains name then r.walk fuel seen queue
    else
      match r.find? name with
      | none => r.walk fuel (name :: seen) queue
      | some c => c :: r.walk fuel (name :: seen) (queue ++ c.parents)

/-- The number of edges of the hierarchy. -/
def edges (r : Registry) : Nat :=
  (r.classes.entries.map fun e => e.2.parents.length).foldr (· + ·) 0

/-- A class and everything above it.  Every edge is followed at most once, which bounds the walk. -/
def lineage (r : Registry) (name : String) : List ClassInfo := r.walk (r.edges + 2) [] [name]

/-- The reflexive subtype test; everything is below the root class. -/
def isSubclass (r : Registry) (sub sup : String) : Bool :=
  sub == sup || sup == Names.object || (r.lineage sub).any fun c => c.parents.contains sup

/-- `nil` is an instance of nothing. -/
def instanceOf (r : Registry) (v : Value) (cls : String) : Bool :=
  match v.className? with
  | some name => r.isSubclass name cls
  | none => false

/-- A method together with the class that declares it. -/
abbrev Candidate := ClassInfo × Method

/-- Adds the methods of a class that no earlier one overrides. -/
def addMethods (name : String) (wantStatic : Bool) (found : List Candidate) (c : ClassInfo) :
    List Candidate :=
  (c.methods.filter fun m => m.name == name && m.isStatic == wantStatic).foldl
    (fun found m => if found.any fun f => f.2.sameParams m then found else found ++ [(c, m)]) found

/-- The methods of a name on a class, most derived first.  Static methods are not inherited. -/
def findMethods (r : Registry) (cls name : String) (wantStatic : Bool) : List Candidate :=
  let classes := if wantStatic then (r.find? cls).toList else r.lineage cls
  classes.foldl (addMethods name wantStatic) []

/-- Looks a field up along the superclasses. -/
def fieldAlong (r : Registry) (field : String) : Nat → String → Option (ClassInfo × FieldInfo)
  | 0, _ => none
  | fuel + 1, cls =>
    match r.find? cls with
    | none => none
    | some c =>
      match c.declaredField? field with
      | some f => some (c, f)
      | none => c.superclass.bind (r.fieldAlong field fuel)

/-- The nearest declaration of a field along the superclasses. -/
def findField? (r : Registry) (cls field : String) : Option (ClassInfo × FieldInfo) :=
  r.fieldAlong field (r.classes.entries.length + 1) cls

end LispMachine.Registry

namespace LispMachine.Ty

/-- A value of type `other` needs no conversion to be stored as a `self`. -/
def isAssignable (r : Registry) (self other : Ty) : Bool :=
  if self = other then true
  else
    match self, other with
    | _, .void => false
    | .void, _ => false
    | .any, .cls _ => true
    | .any, .prim _ => false
    | .cls name, .any => name == Names.object
    | .cls sup, .cls sub => r.isSubclass sub sup
    | _, _ => false

/-- The common type of two branches. -/
def unify (r : Registry) (a b : Ty) : Ty :=
  if a = b then a
  else if a.isAssignable r b then a
  else if b.isAssignable r a then b
  else .any

end LispMachine.Ty
