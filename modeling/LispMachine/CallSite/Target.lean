import LispMachine.CallSite.Cache
import LispMachine.Registry.Basic

/-!
# Targets of calls

What a linked call site remembers: a target that says how the call is carried out, and a guard that says
for which calls the target is right.
-/

namespace LispMachine.CallSite

/-- When a remembered target may be used again. -/
inductive Guard where
  /-- The var has not been rebound since. -/
  | epoch (var epoch : Nat)
  /-- The first argument is called the same way as this value. -/
  | callee (v : Value)
  /-- The first argument has a given class, if one is given, and the arguments at some positions have
  given classes. -/
  | shape (receiver : Option String) (classes : List (Nat × Option String))
deriving Inhabited

/-- What a linked site does with its arguments. -/
inductive Target where
  | value (v : Value)
  /-- Calls a function with all arguments. -/
  | function (f : Function)
  /-- Runs a method of a receiver with all arguments. -/
  | method (cls : ClassInfo) (m : Method) (receiver : Value)
  /-- Applies a value to all arguments. -/
  | apply (callee : Value)
  /-- Applies a value to the arguments behind the first. -/
  | constantCallee (callee : Value)
  /-- Calls a function with the arguments behind the first. -/
  | calleeFunction (f : Function)
  /-- Runs a method of the first argument with the others. -/
  | calleeMethod (cls : ClassInfo) (m : Method)
  /-- Applies the first argument to the others. -/
  | callee
  /-- Runs a method of a class chosen by its overloads, on the first argument if it has a receiver. -/
  | overload (cls : ClassInfo) (m : Method) (hasReceiver : Bool)
  | construct (constructor : Method)
  | readField (name : String)
  /-- Decides anew at every call. -/
  | generic (spec : SiteSpec)
deriving Inhabited

/-- A call site with what it was compiled from. -/
structure LinkedSite where
  spec : SiteSpec
  site : Site Guard Target := {}
deriving Inhabited

end LispMachine.CallSite
