import LispMachine.Bytecode.Constant

/-!
# Call-site specifications

What the compiler says about a call left to be linked at run time: what is called, the types of the
arguments and of the result, and a receiver known in advance.
-/

namespace LispMachine

/-- What a call site does. -/
inductive SiteKind where
  /-- Reads a var. -/
  | globalValue (space name : String)
  /-- Calls the value of a var with all arguments. -/
  | globalCall (space name : String)
  /-- Calls the first argument with the others. -/
  | invoke
  | instanceMethod (name : String)
  | staticMethod (cls name : String)
  | instanceField (name : String)
  /-- A constructor whose overload is still open. -/
  | construct (cls : String)
deriving DecidableEq, Inhabited

/-- A call site as the compiler describes it. -/
structure SiteSpec where
  kind : SiteKind
  argTypes : List Ty
  ret : Ty
  /-- Bit `i` tells that argument `i`, one of the first 64, has the unknown type. -/
  anyMask : Nat
  /-- The receiver, when it is known at compile time. -/
  constant : Option Constant := none
  span : Option Span := none
deriving Inhabited

namespace SiteSpec

/-- The bits of the arguments of unknown type, from bit `i` on. -/
def maskFrom (i : Nat) : List Ty → Nat
  | [] => 0
  | t :: ts => (if t = .any ∧ i < 64 then Nat.pow 2 i else 0) + maskFrom (i + 1) ts

/-- A site with the types of its arguments and result, from which its mask follows. -/
def new (kind : SiteKind) (argTypes : List Ty) (ret : Ty) : SiteSpec :=
  { kind, argTypes, ret, anyMask := maskFrom 0 argTypes }

/-- The argument at a position is known to have the unknown type. -/
def isAny (s : SiteSpec) (i : Nat) : Bool := i < 64 && s.anyMask.testBit i

/-- The call as a reader would write it. -/
def describe (s : SiteSpec) : String :=
  match s.kind with
  | .globalValue space name => space ++ "/" ++ name
  | .globalCall space name => "(" ++ space ++ "/" ++ name ++ " ...)"
  | .invoke => "(<fn> ...)"
  | .instanceMethod name => "." ++ name
  | .staticMethod cls name => cls ++ "/" ++ name
  | .instanceField name => ".-" ++ name
  | .construct cls => "new " ++ cls

/-- Equality; doubles compare as numbers. -/
def same (a b : SiteSpec) : Bool :=
  a.kind == b.kind && a.argTypes == b.argTypes && a.ret == b.ret && a.anyMask == b.anyMask
    && (match a.constant, b.constant with
      | none, none => true
      | some c, some d => c.same d
      | _, _ => false)
    && a.span == b.span

end SiteSpec

end LispMachine
