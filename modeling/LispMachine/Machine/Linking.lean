import LispMachine.Machine.Natives

/-!
# Linking call sites

How call sites of each kind find their targets, when a target remembered for one call is right for
another, and how a call is carried out on its target.

A final var is linked once and for all: the site keeps the value it saw.  Any other var is guarded by its
epoch.  Calls of methods are guarded by the classes that decided between the overloads.
-/

namespace LispMachine.Machine

open CallSite

/-! ### Guards -/

/-- Both values are called the same way: functions and keywords by identity, objects by the registration
of their class, and anything else by its class. -/
def sameCallee (w : World) (a b : Value) : Bool :=
  match a, b with
  | .object x, .object y =>
    match w.instance? x, w.instance? y with
    | some i, some j => i.cls.serial == j.cls.serial
    | _, _ => false
  | .function f, .function g => f == g
  | .keyword j, .keyword k => j == k
  | .function _, _ => false
  | .keyword _, _ => false
  | .object _, _ => false
  | x, y => x.className?.isSome && x.className? == y.className?

/-- The class of the argument at a position. -/
def classAt (args : List Value) (i : Nat) : Option String := (args[i]?).bind Value.className?

/-- A guard holds for a call with the given arguments. -/
def holds (w : World) (args : List Value) : Guard → Bool
  | .epoch var epoch => ((w.vars[var]?).map VarCell.epoch) == some epoch
  | .callee v => (args.head?.map fun c => sameCallee w c v).getD false
  | .shape receiver classes =>
    (receiver.isNone || classAt args 0 == receiver)
      && classes.all fun (i, cls) => classAt args i == cls

/-- A guard on the classes at the contended positions, which lie behind `skip` leading values. -/
def shapeGuard (receiver : Option String) (contended : List Bool) (args : List Value) (skip : Nat) :
    Guard :=
  .shape receiver
    ((contended.zipIdx.filter fun c => c.1).map fun (_, i) => (i + skip, classAt args (i + skip)))

/-! ### Vars -/

/-- The var of a site, and whether the site calls its value. -/
def siteVar (w : World) (spec : SiteSpec) : Except Error (VarRef × Bool) :=
  let found := fun (space name : String) (isCall : Bool) =>
    match w.findVar? space name with
    | some v => .ok (v, isCall)
    | none => .error (Error.linkage ("no var " ++ space ++ "/" ++ name))
  match spec.kind with
  | .globalValue space name => found space name false
  | .globalCall space name => found space name true
  | _ => .error (Error.internal "not a site of a var")

/-- How a value will be called with `n` arguments. -/
def prepareCall (w : World) (callee : Value) (n : Nat) : Except Error Target :=
  match callee with
  | .function f =>
    if f.arity.accepts n then .ok (.function f) else .error (wrongArity n f.title)
  | .object o =>
    match functionClass? w o with
    | some cls => (selectInvoke cls n).map fun m => .method cls m callee
    | none => .ok (.apply callee)
  | _ => .ok (.apply callee)

/-- The target of a site on a var with the given value. -/
def varTarget (w : World) (spec : SiteSpec) (isCall : Bool) (v : Value) : Except Error Target :=
  if isCall then prepareCall w v spec.argTypes.length else .ok (.value v)

/-- A final var that has a value is read once and for all. -/
def linkFinalVar (w : World) (spec : SiteSpec) : Except Error (Option Target) := do
  let (v, isCall) ← siteVar w spec
  match w.root? v with
  | some value =>
    if (w.flagsOf v).isFinal then return some (← varTarget w spec isCall value) else return none
  | none => return none

/-- The value of a var holds until the var is rebound. -/
def linkVar (w : World) (spec : SiteSpec) : Except Error (Option (Guard × Target)) := do
  let (v, isCall) ← siteVar w spec
  let value ← w.valueOf v
  let target ← varTarget w spec isCall value
  return some (.epoch v.id (((w.cell? v).map VarCell.epoch).getD 0), target)

/-! ### Callees known at run time -/

/-- The callee and its arguments. -/
def splitCallee (args : List Value) : Except Error (Value × List Value) :=
  match args with
  | callee :: rest => .ok (callee, rest)
  | [] => .error (Error.internal "invoke site without a receiver")

/-- A keyword in call position is looked up directly. -/
def linkConstantCallee (spec : SiteSpec) : Option Target :=
  match spec.constant with
  | some (.keyword name) => some (.constantCallee (.keywordNamed name))
  | _ => none

/-- How the first argument is called, to be reused for callees of the same kind. -/
def linkCallee (w : World) (args : List Value) : Except Error (Option (Guard × Target)) := do
  let (callee, rest) ← splitCallee args
  let target ← match callee with
    | .function f =>
      if f.arity.accepts rest.length then pure (Target.calleeFunction f)
      else .error (wrongArity rest.length f.title)
    | .object o =>
      match functionClass? w o with
      | some cls => (selectInvoke cls rest.length).map fun m => .calleeMethod cls m
      | none => pure .callee
    | .nil => .error (Error.runtime "cannot call nil")
    | _ => pure .callee
  return some (.callee callee, target)

/-- What tells kinds of callees apart. -/
def calleeKey (args : List Value) : Option ShapeKey :=
  match args with
  | .function f :: _ => some ["native:" ++ f.identityText]
  | .object o :: _ => some ["class:" ++ o.className]
  | .keyword k :: _ => some ["keyword:" ++ k.toText]
  | v :: _ => v.className?.map fun cls => ["value:" ++ cls]
  | [] => none

/-! ### Methods, fields and constructors -/

/-- The receiver and its arguments. -/
def splitReceiver (args : List Value) : Except Error (Value × List Value) :=
  match args with
  | receiver :: rest => .ok (receiver, rest)
  | [] => .error (Error.internal "instance site without a receiver")

/-- The class of a receiver, which nil has not. -/
def receiverClass (spec : SiteSpec) (receiver : Value) : Except Error String :=
  match receiver.className? with
  | some cls => .ok cls
  | none => .error (Error.runtime ("cannot call " ++ spec.describe ++ " on nil"))

/-- The overload that an instance call means. -/
def resolveInstance (w : World) (spec : SiteSpec) (name : String) (args : List Value) :
    Except Error Overload.DynamicResolution := do
  let (receiver, rest) ← splitReceiver args
  let cls ← receiverClass spec receiver
  resolveInstanceCall w.registry cls name rest

/-- The constructor that a construction means. -/
def resolveConstructor (w : World) (cls : String) (args : List Value) :
    Except Error Overload.DynamicResolution :=
  match w.registry.find? cls with
  | none => .error (World.classNotFound cls)
  | some c =>
    if c.constructors.isEmpty then .error (Error.linkage ("no constructor for " ++ cls))
    else Overload.resolveDynamic w.registry (constructorsOf c) args ("new " ++ cls)

def notInterop : Error := Error.internal "not a site of a class member"

/-- The method, constructor or field a call means, without looking at what the site remembers; with the
positions that decided. -/
def resolveMember (w : World) (spec : SiteSpec) (args : List Value) :
    Except Error (Target × List Bool) := do
  match spec.kind with
  | .instanceMethod name =>
    let choice ← resolveInstance w spec name args
    return (.overload choice.candidate.1 choice.candidate.2 true, choice.contended)
  | .staticMethod cls name =>
    let choice ← resolveStaticCall w.registry cls name args
    return (.overload choice.candidate.1 choice.candidate.2 false, choice.contended)
  | .construct cls =>
    let choice ← resolveConstructor w cls args
    return (.construct choice.candidate.2, choice.contended)
  | .instanceField name => return (.readField name, [])
  | _ => .error notInterop

/-- A static method whose overload the types already decide needs no guard. -/
def linkStaticMethod (w : World) (spec : SiteSpec) : Option Target :=
  match spec.kind with
  | .staticMethod cls name =>
    match Overload.resolveStatic w.registry (w.registry.findMethods cls name true) spec.argTypes with
    | .unique (owner, m) => some (.overload owner m false)
    | _ => none
  | _ => none

/-- The class of a receiver that has an instance field of the given name. -/
def fieldReceiver (w : World) (spec : SiteSpec) (name : String) (args : List Value) :
    Except Error String := do
  let (receiver, _) ← splitReceiver args
  let cls ← receiverClass spec receiver
  match w.registry.findField? cls name with
  | some (_, f) => if f.isStatic then .error (World.noField name cls) else return cls
  | none => .error (World.noField name cls)

/-- A target together with the classes it was chosen for. -/
def linkMember (w : World) (spec : SiteSpec) (args : List Value) :
    Except Error (Option (Guard × Target)) := do
  match spec.kind with
  | .instanceField name =>
    let cls ← fieldReceiver w spec name args
    return some (shapeGuard (some cls) [] args 1, .readField name)
  | .instanceMethod _ =>
    let (target, contended) ← resolveMember w spec args
    return some (shapeGuard (classAt args 0) contended args 1, target)
  | _ =>
    let (target, contended) ← resolveMember w spec args
    return some (shapeGuard none contended args 0, target)

/-- The classes of the arguments that can matter. -/
def memberKey (spec : SiteSpec) (args : List Value) : ShapeKey :=
  match spec.kind with
  | .instanceField _ => (args.take 1).map Value.classText
  | _ => args.map Value.classText

/-! ### Sites -/

/-- The key of a call in a megamorphic table. -/
def shapeKey (spec : SiteSpec) (args : List Value) : Option ShapeKey :=
  match spec.kind with
  | .globalValue .. => none
  | .globalCall .. => none
  | .invoke => calleeKey args
  | _ => some (memberKey spec args)

/-- How a site is linked for a call. -/
def linker (w : World) (spec : SiteSpec) (args : List Value) : Linker Error Guard Target where
  linkStatic _ :=
    match spec.kind with
    | .globalValue .. => linkFinalVar w spec
    | .globalCall .. => linkFinalVar w spec
    | .invoke => .ok (linkConstantCallee spec)
    | _ => .ok (linkStaticMethod w spec)
  linkGuarded _ :=
    match spec.kind with
    | .globalValue .. => linkVar w spec
    | .globalCall .. => linkVar w spec
    | .invoke => linkCallee w args
    | _ => linkMember w spec args
  shapeKey _ := shapeKey spec args
  generic := .generic spec

/-- The target of a call at a site, relinking it if needed. -/
def targetOf (index : Nat) (args : List Value) : Action (SiteSpec × Target) := fun w =>
  match w.sites[index]? with
  | none => .error (.error (Error.internal ("missing call site " ++ toString index))) w
  | some s =>
    match s.site.select (holds w args) (fun _ => shapeKey s.spec args) with
    | some target => .ok (s.spec, target) w
    | none =>
      let (site, result) :=
        s.site.resolve w.options.callSites (linker w s.spec args) (holds w args)
      let w := { w with sites := w.sites.setIfInBounds index { s with site } }
      match result with
      | .ok (some target) => .ok (s.spec, target) w
      | .ok none => .error .outOfFuel w
      | .error e => .error (.error e) w

/-! ### Carrying out calls -/

/-- Reads a field of an object. -/
def readField (receiver : Value) (name : String) : Action Value :=
  match receiver with
  | .object o => Action.getField o name
  | .nil => Action.fail (Error.runtime ("cannot read field " ++ name ++ " of nil"))
  | v => Action.fail (World.noField name v.classText)

/-- Runs an overloaded method on its prepared arguments. -/
def runOverload (call : Caller) (cls : ClassInfo) (m : Method) (hasReceiver : Bool)
    (args : List Value) : Action Value := do
  let r := (← get).registry
  if hasReceiver then
    let (receiver, rest) ← Action.ofExcept (splitReceiver args)
    call (.invoke cls m (some receiver) (Overload.prepareArgs r m rest))
  else call (.invoke cls m none (Overload.prepareArgs r m args))

/-- Makes an object by a given constructor. -/
def runConstructor (call : Caller) (k : Method) (args : List Value) : Action Value := do
  newInstance call k.owner k.params (Overload.prepareArgs (← get).registry k args)

/-- Carries a call out on a member of a class. -/
def runMember (call : Caller) (target : Target) (args : List Value) : Action Value :=
  match target with
  | .overload cls m hasReceiver => runOverload call cls m hasReceiver args
  | .construct k => runConstructor call k args
  | .readField name => do
    let (receiver, _) ← Action.ofExcept (splitReceiver args)
    readField receiver name
  | _ => Action.fail notInterop

/-- Carries a call out, deciding anew what it means. -/
def runGeneric (call : Caller) (spec : SiteSpec) (args : List Value) : Action Value := do
  match spec.kind with
  | .globalValue .. =>
    let w ← get
    let (v, _) ← Action.ofExcept (siteVar w spec)
    Action.ofExcept (w.valueOf v)
  | .globalCall .. =>
    let w ← get
    let (v, _) ← Action.ofExcept (siteVar w spec)
    let callee ← Action.ofExcept (w.valueOf v)
    call (.apply callee args)
  | .invoke =>
    let (callee, rest) ← Action.ofExcept (splitCallee args)
    call (.apply callee rest)
  | _ =>
    let (target, _) ← Action.read fun w => resolveMember w spec args
    runMember call target args

/-- Carries a call out on its target. -/
def runTarget (call : Caller) (target : Target) (args : List Value) : Action Value := do
  match target with
  | .value v => return v
  | .function f => callFunction call f args
  | .method cls m receiver => call (.invoke cls m (some receiver) (packRest m args))
  | .apply callee => call (.apply callee args)
  | .constantCallee callee =>
    let (_, rest) ← Action.ofExcept (splitCallee args)
    call (.apply callee rest)
  | .calleeFunction f =>
    let (_, rest) ← Action.ofExcept (splitCallee args)
    callFunction call f rest
  | .calleeMethod cls m =>
    let (callee, rest) ← Action.ofExcept (splitCallee args)
    call (.invoke cls m (some callee) (packRest m rest))
  | .callee =>
    let (callee, rest) ← Action.ofExcept (splitCallee args)
    call (.apply callee rest)
  | .generic spec => runGeneric call spec args
  | target => runMember call target args

/-- Calls through a site. -/
def invokeSite (call : Caller) (index : Nat) (args : List Value) : Action Value := do
  let (_, target) ← targetOf index args
  runTarget call target args

end LispMachine.Machine
