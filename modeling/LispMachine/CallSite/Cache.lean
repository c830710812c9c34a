import LispMachine.Options
import LispMachine.Table

/-!
# Inline caches

A call site starts cold and moves through a monomorphic, a polymorphic and a megamorphic stage to the
unoptimized one, never back.  Every relink spends one unit of the budget of the current stage; a stage
whose budget is spent or not positive, or that cannot produce a target, hands over to the next one within
the same relink.

The cache knows nothing about calls: guards `γ` and targets `η` are whatever a `Linker` makes of the call
at hand, and `ε` is what may go wrong while linking.
-/

namespace LispMachine.CallSite

/-- How specialised a call site is: each stage is entered when the budget of the one before is
spent. -/
inductive Stage where
  | cold
  | monomorphic
  | polymorphic
  | megamorphic
  | unoptimized
deriving DecidableEq, Inhabited

namespace Stage

/-- The name of a stage. -/
def title : Stage → String
  | .cold => "Cold"
  | .monomorphic => "Monomorphic"
  | .polymorphic => "Polymorphic"
  | .megamorphic => "Megamorphic"
  | .unoptimized => "Unoptimized"

end Stage

/-- The classes an entry of a megamorphic table was made for. -/
abbrev ShapeKey := List String

/-- How a site finds the target of a call. -/
inductive Dispatch (γ η : Type) where
  /-- Nothing is linked. -/
  | cold
  | unguarded (target : η)
  /-- The first entry whose guard holds. -/
  | chain (entries : List (γ × η))
  /-- The entry for the shape of the arguments, if its guard holds. -/
  | table (entries : Table ShapeKey (γ × η))
deriving Inhabited

/-- The memory of a call site: where it stands, what it has spent, and what it remembers. -/
structure Site (γ η : Type) where
  /-- The stage the next relink starts from. -/
  stage : Stage := .cold
  /-- Relinks spent in that stage. -/
  spent : Int := 0
  /-- All relinks so far. -/
  relinks : Nat := 0
  /-- How often a guarded target was asked for. -/
  asked : Nat := 0
  chain : List (γ × η) := []
  table : Table ShapeKey (γ × η) := {}
  /-- The stage of the installed target. -/
  installed : Stage := .cold
  /-- The installed target needs no guard because it can never change. -/
  isStatic : Bool := false
  dispatch : Dispatch γ η := .cold
deriving Inhabited

/-- What a relink may ask about the call at hand; nothing is worked out before it is asked for. -/
structure Linker (ε γ η : Type) where
  /-- A target for all calls to come. -/
  linkStatic : Unit → Except ε (Option η)
  /-- A target for calls like this one. -/
  linkGuarded : Unit → Except ε (Option (γ × η))
  /-- The key of this call in a megamorphic table. -/
  shapeKey : Unit → Option ShapeKey
  /-- The target that decides every call anew. -/
  generic : η

namespace Site

variable {ε γ η : Type}

/-- The target for a call, if the site has one. -/
def select (s : Site γ η) (holds : γ → Bool) (key : Unit → Option ShapeKey) : Option η :=
  match s.dispatch with
  | .cold => none
  | .unguarded t => some t
  | .chain entries => (entries.find? fun e => holds e.1).map Prod.snd
  | .table entries =>
    match (key ()).bind entries.find? with
    | some (g, t) => if holds g then some t else none
    | none => none

/-- Enters a stage with its budget unspent. -/
def enter (s : Site γ η) (stage : Stage) : Site γ η := { s with stage, spent := 0 }

/-- Installs what the site dispatches by from now on. -/
def install (s : Site γ η) (stage : Stage) (isStatic : Bool) (dispatch : Dispatch γ η) : Site γ η :=
  { s with installed := stage, isStatic, dispatch }

/-- Some of the budget of the current stage is left. -/
def affords (s : Site γ η) (budget : Int) : Bool := 0 < budget && s.spent < budget

/-- Spends one unit of the budget and asks for a guarded target. -/
def charge (s : Site γ η) : Site γ η := { s with spent := s.spent + 1, asked := s.asked + 1 }

/-- Resolves every call anew from now on. -/
def linkUnoptimized (l : Linker ε γ η) (s : Site γ η) : Site γ η × Except ε Unit :=
  (s.install .unoptimized false (.unguarded l.generic), .ok ())

/-- Adds a target under the shape of the call while the budget lasts. -/
def linkMegamorphic (budget : Int) (l : Linker ε γ η) (s : Site γ η) : Site γ η × Except ε Unit :=
  match l.shapeKey () with
  | none => linkUnoptimized l (s.enter .unoptimized)
  | some key =>
    if s.affords budget then
      let s := s.charge
      match l.linkGuarded () with
      | .error e => (s, .error e)
      | .ok none => linkUnoptimized l (s.enter .unoptimized)
      | .ok (some entry) =>
        let table := s.table.insert key entry
        ({ s with table }.install .megamorphic false (.table table), .ok ())
    else linkUnoptimized l (s.enter .unoptimized)

/-- Puts a guarded target in front of the chain while the budget lasts; the chain never outgrows the
budget. -/
def linkPolymorphic (t : Thresholds) (l : Linker ε γ η) (s : Site γ η) : Site γ η × Except ε Unit :=
  if s.affords t.polymorphic then
    let s := s.charge
    match l.linkGuarded () with
    | .error e => (s, .error e)
    | .ok none => linkMegamorphic t.megamorphic l (s.enter .megamorphic)
    | .ok (some entry) =>
      let chain := (entry :: s.chain).take t.polymorphic.toNat
      ({ s with chain }.install .polymorphic false (.chain chain), .ok ())
  else linkMegamorphic t.megamorphic l (s.enter .megamorphic)

/-- Remembers one guarded target while the budget lasts. -/
def linkMonomorphic (t : Thresholds) (l : Linker ε γ η) (s : Site γ η) : Site γ η × Except ε Unit :=
  if s.affords t.monomorphic then
    let s := s.charge
    match l.linkGuarded () with
    | .error e => (s, .error e)
    | .ok none => linkPolymorphic t l (s.enter .polymorphic)
    | .ok (some entry) =>
      ({ s with chain := [entry] }.install .monomorphic false (.chain [entry]), .ok ())
  else linkPolymorphic t l (s.enter .polymorphic)

/-- The first link: a target that can never change is installed for good. -/
def linkCold (t : Thresholds) (l : Linker ε γ η) (s : Site γ η) : Site γ η × Except ε Unit :=
  let s := s.enter .monomorphic
  match l.linkStatic () with
  | .error e => (s, .error e)
  | .ok (some target) => (s.install .monomorphic true (.unguarded target), .ok ())
  | .ok none => linkMonomorphic t l s

/-- Links the site anew for a call it has no target for. -/
def relink (t : Thresholds) (l : Linker ε γ η) (s : Site γ η) : Site γ η × Except ε Unit :=
  let s := { s with relinks := s.relinks + 1 }
  match s.stage with
  | .cold => linkCold t l s
  | .monomorphic => linkMonomorphic t l s
  | .polymorphic => linkPolymorphic t l s
  | .megamorphic => linkMegamorphic t.megamorphic l s
  | .unoptimized => linkUnoptimized l s

/-- Finds the target of a call, relinking while the site has none; every relink spends budget or is the
last, so the sum of the budgets bounds their number. -/
def resolveWithin (t : Thresholds) (l : Linker ε γ η) (holds : γ → Bool) :
    Nat → Site γ η → Site γ η × Except ε (Option η)
  | 0, s => (s, .ok none)
  | fuel + 1, s =>
    match s.select holds l.shapeKey with
    | some target => (s, .ok (some target))
    | none =>
      match s.relink t l with
      | (s, .error e) => (s, .error e)
      | (s, .ok ()) => resolveWithin t l holds fuel s

/-- The number of relinks thresholds allow, and some more. -/
def patience (t : Thresholds) : Nat :=
  t.monomorphic.toNat + t.polymorphic.toNat + t.megamorphic.toNat + 4

/-- Finds the target of a call. -/
def resolve (t : Thresholds) (l : Linker ε γ η) (holds : γ → Bool) (s : Site γ η) :
    Site γ η × Except ε (Option η) :=
  resolveWithin t l holds (patience t) s

end Site

end LispMachine.CallSite
