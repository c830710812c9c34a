import LispMachine.Scope.Basic
import LispMachine.World.Spaces

/-!
# What names mean

A name without a qualifier means a local, then a var or an imported class of the current namespace, then
a namespace or class by its full dotted name.  A qualifier names a namespace, by alias first, or a class;
it may also be a local or a var that holds one.
-/

namespace LispMachine

/-- What a name can mean. -/
inductive Resolution where
  | local (scope : ScopeKind) (b : Binding)
  | var (v : VarRef)
  | nameSpace (name : String)
  | cls (c : ClassInfo)
  | staticField (owner : ClassInfo) (f : FieldInfo)
deriving Inhabited

namespace Resolution

/-- The kind of scope a meaning comes from. -/
def scope : Resolution → ScopeKind
  | .local scope _ => scope
  | .var _ => .nameSpace
  | .nameSpace _ => .literal
  | .cls _ => .classLiteral
  | .staticField .. => .classLiteral

end Resolution

namespace Scopes

/-- A namespace or class named by its full name. -/
def lookupDotted? (w : World) (name : String) : Option Resolution :=
  if looksDotted name then
    if w.spaces.contains name then some (.nameSpace name) else (w.registry.find? name).map .cls
  else none

/-- What a name without a qualifier means. -/
def lookupSimple? (s : Scopes) (w : World) (name : String) (level : Nat) : Option Resolution :=
  match s.lexical? name level with
  | some (scope, b) => some (.local scope b)
  | none =>
    match w.here.mappings.find? name with
    | some v => some (.var v)
    | none =>
      match (w.here.imports.find? name).bind w.registry.find? with
      | some c => some (.cls c)
      | none => lookupDotted? w name

/-- What a qualifier names: a namespace or a class, each by name. -/
inductive Qualifier where
  | nameSpace (name : String)
  | cls (name : String)

def noQualifier (name : String) : Error := Error.compile ("No such namespace: " ++ name)

/-- The value a local or a var holds under a name. -/
def heldValue? (s : Scopes) (w : World) (name : String) (level : Nat) : Option Value :=
  match s.lookupSimple? w name level with
  | some (.local _ b) => b.value
  | some (.var v) => w.root? v
  | _ => none

def qualifier (s : Scopes) (w : World) (name : String) (level : Nat) : Except Error Qualifier :=
  match (w.here.aliases.find? name).filter fun target => w.spaces.contains target with
  | some target => .ok (.nameSpace target)
  | none =>
    if w.spaces.contains name then .ok (.nameSpace name)
    else
      match w.resolveClass? name with
      | some c => .ok (.cls c.name)
      | none =>
        match s.heldValue? w name level with
        | some (.nameSpace found) => .ok (.nameSpace found)
        | some (.cls found) => .ok (.cls found)
        | _ => .error (noQualifier name)

/-- What a name means, seen from a method that is `level` deep; nothing if it is unbound. -/
def lookup (s : Scopes) (w : World) (name : String) (level : Nat) :
    Except Error (Option Resolution) :=
  match splitQualified name with
  | (none, _) => .ok (s.lookupSimple? w name level)
  | (some q, simple) => do
    match ← s.qualifier w q level with
    | .nameSpace space =>
      return ((w.findVar? space simple).filter fun v => v.space == space).map .var
    | .cls cls =>
      return ((w.registry.findField? cls simple).filter fun f => f.2.isStatic).map fun (c, f) =>
        .staticField c f

end Scopes

end LispMachine
