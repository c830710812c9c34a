import LispMachine.Registry.Hierarchy

/-!
# Coercions

The instructions that turn a value of one static type, on top of the stack, into one of another.
Conversions that can never succeed are errors.
-/

namespace LispMachine.Coercion

/-- The value a primitive type has when there is none. -/
def defaultOf : Prim → Constant
  | .boolean => .bool false
  | .char => .char '\x00'
  | .long => .long 0
  | .double => .double ⟨0⟩

/-- Drops a value. -/
def discard (ty : Ty) : List Instruction :=
  match ty.width with
  | 0 => []
  | 1 => [.pop]
  | _ => [.pop2]

/-- A reference of type `source` may hold a boxed `p`. -/
def unboxable (r : Registry) (source : Ty) (p : Prim) : Bool :=
  match source with
  | .any => true
  | .cls name => r.isSubclass p.wrapper name || (p == .double && name == Names.long)
  | _ => false

/-- The error of a coercion that no instruction performs. -/
def impossible (source target : Ty) : Error :=
  Error.compile ("cannot convert " ++ source.toText ++ " to " ++ target.toText)

/-- Between primitives only longs and doubles convert. -/
def betweenPrims (p q : Prim) : Except Error (List Instruction) :=
  match p, q with
  | .long, .double => .ok [.convert .long .double]
  | .double, .long => .ok [.convert .double .long]
  | _, _ => .error (impossible (.prim p) (.prim q))

/-- Boxing a primitive as an instance of a class. -/
def boxAs (r : Registry) (p : Prim) (target : String) : Except Error (List Instruction) :=
  if (Ty.cls target).isAssignable r (.cls p.wrapper) then .ok [.box p]
  else if p = .long ∧ target = Names.double then .ok [.convert .long .double, .box .double]
  else .error (impossible (.prim p) (.cls target))

/-- A reference as an instance of a class. -/
def castTo (r : Registry) (source : Ty) (target : String) : Except Error (List Instruction) :=
  if (Ty.cls target).isAssignable r source then .ok []
  else if source = .any ∨ source.isAssignable r (.cls target) then .ok [.checkCast target]
  else .error (impossible source (.cls target))

/-- Turns a value of type `source` into one of type `target`. -/
def coerce (r : Registry) (source target : Ty) : Except Error (List Instruction) :=
  if source = target then .ok []
  else
    match source, target with
    | source, .void => .ok (discard source)
    | .void, .prim p => .ok [.const (defaultOf p)]
    | .void, _ => .ok [.const .nil]
    | .prim p, .prim q => betweenPrims p q
    | .prim p, .any => .ok [.box p]
    | .prim p, .cls name => boxAs r p name
    | source, .prim q =>
      if unboxable r source q then .ok [.unbox q] else .error (impossible source target)
    | _, .any => .ok []
    | source, .cls name => castTo r source name

/-- A hint may be imposed on a value of an inferred type. -/
def compatible (r : Registry) (hint inferred : Ty) : Bool :=
  hint ≠ .void &&
    match coerce r inferred hint with
    | .ok _ => true
    | .error _ => false

/-- Boxes what is not a reference. -/
def toBoxed : Ty → List Instruction
  | .prim p => [.box p]
  | .void => [.const .nil]
  | _ => []

end LispMachine.Coercion
