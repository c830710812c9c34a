import LispMachine.Registry.Hierarchy

/-!
# Overload resolution

Which of several methods a call means.  The static phase sees types only and gives up as soon as an
argument of unknown type leaves more than one method standing; the dynamic phase goes by the classes of
the arguments and tells which parameters decided.
-/

namespace LispMachine.Overload

open Registry (Candidate)

/-- How well an argument fits a parameter, the best first. -/
inductive Fit where
  | exact
  | convertible
  | unknown
deriving DecidableEq, Inhabited

namespace Fit

/-- Smaller is better. -/
def rank : Fit → Nat
  | .exact => 0
  | .convertible => 1
  | .unknown => 2

/-- The worse of two fits. -/
def worse (a b : Fit) : Fit := if a.rank < b.rank then b else a

/-- The worst of some fits. -/
def worst (fits : List Fit) : Fit := fits.foldl worse .exact

end Fit

/-- The type of the parameter that takes argument `i`; a variadic tail takes anything. -/
def paramAt (m : Method) (i : Nat) : Ty :=
  if m.isVariadic && m.params.length ≤ i + 1 then .any else (m.params[i]?).getD .any

/-- How a type fits a parameter, if it does. -/
def staticFit? (r : Registry) (param arg : Ty) : Option Fit :=
  if param = arg then some .exact
  else
    match param, arg with
    | _, .void => none
    | .any, _ => some .exact
    | .cls name, .any => if name = Names.object then some .exact else some .unknown
    | _, .any => some .unknown
    | .cls _, .cls _ =>
      if param.isAssignable r arg then some .exact
      else if arg.isAssignable r param then some .unknown
      else none
    | .cls _, .prim p =>
      if param.isAssignable r (.cls p.wrapper) then some .convertible else none
    | .prim p, .cls name =>
      if Prim.ofWrapper? name = some p then some .convertible
      else if p = .double ∧ name = Names.long then some .convertible
      else if r.isSubclass p.wrapper name then some .unknown
      else none
    | .prim .double, .prim .long => some .convertible
    | _, _ => none

/-- How a value fits a parameter, if it does. -/
def runtimeFit? (r : Registry) (param : Ty) (arg : Value) : Option Fit :=
  match param, arg.className? with
  | .any, _ => some .exact
  | .void, _ => none
  | .prim _, none => none
  | .cls _, none => some .convertible
  | .prim p, some cls =>
    if p.wrapper = cls then some .exact
    else if p = .double ∧ cls = Names.long then some .convertible
    else none
  | .cls name, some cls =>
    if name = cls then some .exact
    else if r.isSubclass cls name then some .convertible
    else none

/-- The worst fit of arguments from position `i` on, if all fit. -/
def fitAll? {α : Type} (fit : Ty → α → Option Fit) (m : Method) : Nat → List α → Option (List Fit)
  | _, [] => some []
  | i, a :: rest => do
    let f ← fit (paramAt m i) a
    let fs ← fitAll? fit m (i + 1) rest
    return f :: fs

/-- Each parameter of `a` could be passed where that of `b` is expected. -/
def atLeastAsSpecific (r : Registry) (arity : Nat) (a b : Method) : Bool :=
  (List.range arity).all fun i =>
    let pa := paramAt a i
    let pb := paramAt b i
    pa == pb || match staticFit? r pb pa with
      | some .exact => true
      | some .convertible => true
      | _ => false

/-- Among the best fits, the one that is at least as specific as all others; or all of them. -/
def pickMostSpecific (r : Registry) (arity : Nat) (fits : List (Candidate × Fit)) :
    Except (List Candidate) Candidate :=
  match (fits.map fun f => f.2.rank).min? with
  | none => .error []
  | some least =>
    let best := (fits.filter fun f => f.2.rank == least).map Prod.fst
    match best.filter fun c => best.all fun d => atLeastAsSpecific r arity c.2 d.2 with
    | [only] => .ok only
    | _ => .error best

/-- The candidates that take this many arguments. -/
def byArity (candidates : List Candidate) (arity : Nat) : List Candidate :=
  candidates.filter fun c => c.2.accepts arity

/-- What types alone decide. -/
inductive StaticResolution where
  | unique (c : Candidate)
  | ambiguous (cs : List Candidate)
  | noMatch
deriving Inhabited

/-- The candidates that fit, with their worst fits. -/
def fitting {α : Type} (fit : Ty → α → Option Fit) (candidates : List Candidate) (args : List α) :
    List (Candidate × Fit) :=
  (byArity candidates args.length).filterMap fun c =>
    (fitAll? fit c.2 0 args).map fun fits => (c, Fit.worst fits)

/-- Resolution by static types. -/
def resolveStatic (r : Registry) (candidates : List Candidate) (args : List Ty) :
    StaticResolution :=
  match fitting (staticFit? r) candidates args with
  | [] => .noMatch
  | [f] => .unique f.1
  | fits =>
    if fits.any fun f => f.2 == .unknown then .ambiguous (fits.map Prod.fst)
    else
      match pickMostSpecific r args.length fits with
      | .ok c => .unique c
      | .error tied => .ambiguous tied

/-- Candidates disagree on the type of these parameters. -/
def contended (candidates : List Candidate) (arity : Nat) : List Bool :=
  (List.range arity).map fun i =>
    match candidates.map fun c => paramAt c.2 i with
    | [] => false
    | first :: rest => rest.any fun t => t != first

/-- The overload chosen for values. -/
structure DynamicResolution where
  candidate : Candidate
  /-- The parameters a remembered choice has to check again. -/
  contended : List Bool
deriving Inhabited

/-- Resolution by the classes of the arguments; `what` names the call in errors. -/
def resolveDynamic (r : Registry) (candidates : List Candidate) (args : List Value)
    (what : String) : Except Error DynamicResolution :=
  match fitting (runtimeFit? r) candidates args with
  | [] =>
    .error (Error.linkage
      ("no method " ++ what ++ " matching (" ++ ", ".intercalate (args.map Value.classText) ++ ")"))
  | fits =>
    match pickMostSpecific r args.length fits with
    | .ok candidate =>
      .ok { candidate, contended := contended (byArity candidates args.length) args.length }
    | .error tied =>
      .error (Error.linkage
        ("ambiguous call to " ++ what ++ ": "
          ++ " | ".intercalate (tied.map fun c => c.2.signature)))

/-! ### Variadic calls -/

/-- How arguments are passed to a variadic method. -/
inductive TailPlan where
  | direct
  /-- The arguments behind the first `fixed` go into one vector. -/
  | wrap (fixed count : Nat)
deriving DecidableEq, Inhabited

/-- How the arguments of a variadic method are passed. -/
def tailPlan (r : Registry) (m : Method) (argTypes : List Ty) : TailPlan :=
  if !m.isVariadic then .direct
  else
    let fixed := m.params.length - 1
    let wrapped := TailPlan.wrap fixed (argTypes.length - fixed)
    if argTypes.length = m.params.length then
      match argTypes.getLast? with
      | some last => if (Ty.cls Names.vector).isAssignable r last then .direct else wrapped
      | none => wrapped
    else wrapped

/-- Collects the arguments of the variadic parameter. -/
def packTail (plan : TailPlan) (args : List Value) : List Value :=
  match plan with
  | .direct => args
  | .wrap fixed _ => args.take fixed ++ [Value.vector (args.drop fixed)]

/-- Widens an argument to what its parameter expects. -/
def widen (param : Ty) (v : Value) : Value :=
  match param, v with
  | .prim .double, .int n => .float (Double.ofInt n.toInt)
  | _, v => v

/-- The static type of a value by its class. -/
def typeOf (v : Value) : Ty :=
  match v.className? with
  | some cls => .cls cls
  | none => .any

/-- Arguments in the shape and width a method expects. -/
def prepareArgs (r : Registry) (m : Method) (args : List Value) : List Value :=
  (packTail (tailPlan r m (args.map typeOf)) args).zipIdx.map fun (v, i) => widen (paramAt m i) v

/-- `-1` when `a` is strictly more specific than `b`, `1` when it is strictly less. -/
def compareSpecificity (r : Registry) (arity : Nat) (a b : Method) : Int :=
  match atLeastAsSpecific r arity a b, atLeastAsSpecific r arity b a with
  | true, false => -1
  | false, true => 1
  | _, _ => 0

end LispMachine.Overload
