import LispMachine.Pattern.CharSet

/-!
# Patterns

Regular expressions and their matching.  A pattern is laid out as a graph of states; matching follows
all paths at once, so it takes time proportional to the text.
-/

namespace LispMachine

/-- Conditions on the place between two characters. -/
inductive Assertion where
  | textStart
  | textEnd
  | lineStart
  | lineEnd
  | wordEdge
  | wordInside
  | wordStart
  | wordStop
  | wordStartHalf
  | wordStopHalf
deriving DecidableEq

/-- A regular expression. -/
inductive Pattern where
  | empty
  | chars (set : CharSet) (anyCase : Bool)
  | assert (a : Assertion)
  | seq (p q : Pattern)
  | alt (p q : Pattern)
  | times (p : Pattern) (least : Nat) (most : Option Nat)
deriving Inhabited

namespace Pattern

/-- Whether an assertion holds between two characters, absent at the ends of the text. -/
def Assertion.holds (a : Assertion) (before after : Option Char) : Bool :=
  let word (c : Option Char) : Bool := c.any Text.isWordChar
  match a with
  | .textStart => before.isNone
  | .textEnd => after.isNone
  | .lineStart => before.all (· == '\n')
  | .lineEnd => after.all (· == '\n')
  | .wordEdge => word before != word after
  | .wordInside => word before == word after
  | .wordStart => !word before && word after
  | .wordStop => word before && !word after
  | .wordStartHalf => !word before
  | .wordStopHalf => !word after

/-- A state of the graph, with the states that may follow. -/
inductive State where
  | accept
  | chars (set : CharSet) (anyCase : Bool) (next : Nat)
  | fork (first second : Nat)
  | assert (a : Assertion) (next : Nat)

/-- States by number. -/
abbrev Graph := Array State

def stateAt? (g : Graph) (s : Nat) : Option State := g[s]?

/-- Adds a state, giving its number. -/
def addState (s : State) (g : Graph) : Nat × Graph := (g.size, g.push s)

/-- Lays out `n` copies by `f`, each leading to the one before. -/
def copies (f : Nat → Graph → Nat × Graph) : Nat → Nat → Graph → Nat × Graph
  | 0, next, g => (next, g)
  | n + 1, next, g =>
    let (mid, g) := f next g
    copies f n mid g

/-- Lays out up to `n` optional copies by `f`. -/
def optionals (f : Nat → Graph → Nat × Graph) (stop : Nat) : Nat → Nat → Graph → Nat × Graph
  | 0, next, g => (next, g)
  | n + 1, next, g =>
    let (body, g) := f next g
    let (fork, g) := addState (.fork body stop) g
    optionals f stop n fork g

/-- Lays out a pattern in front of the state `next`. -/
def layOut : Pattern → Nat → Graph → Nat × Graph
  | .empty, next, g => (next, g)
  | .chars set anyCase, next, g => addState (.chars set anyCase next) g
  | .assert a, next, g => addState (.assert a next) g
  | .seq p q, next, g =>
    let (mid, g) := layOut q next g
    layOut p mid g
  | .alt p q, next, g =>
    let (a, g) := layOut p next g
    let (b, g) := layOut q next g
    addState (.fork a b) g
  | .times p least none, next, g =>
    let (loop, g) := addState (.fork next next) g
    let (body, g) := layOut p loop g
    copies (layOut p) least loop (g.setIfInBounds loop (.fork body next))
  | .times p least (some most), next, g =>
    let (mid, g) := optionals (layOut p) next (most - least) next g
    copies (layOut p) least mid g

/-- The states reached from `pending` without reading; `seen` holds those already there. -/
def closure (g : Graph) (before after : Option Char) : Nat → List Nat → List Nat → List Nat
  | 0, _, seen => seen
  | _, [], seen => seen
  | fuel + 1, s :: pending, seen =>
    if seen.contains s then closure g before after fuel pending seen
    else
      match stateAt? g s with
      | some (.fork a b) => closure g before after fuel (a :: b :: pending) (s :: seen)
      | some (.assert a next) =>
        if Assertion.holds a before after then
          closure g before after fuel (next :: pending) (s :: seen)
        else closure g before after fuel pending (s :: seen)
      | _ => closure g before after fuel pending (s :: seen)

/-- The states after reading `c`. -/
def advance (g : Graph) (c : Char) (states : List Nat) : List Nat :=
  states.filterMap fun s =>
    match stateAt? g s with
    | some (.chars set anyCase next) =>
      if (if anyCase then set.memFold c else set.mem c.toNat) then some next else none
    | _ => none

/-- One of the states accepts. -/
def accepts (g : Graph) (states : List Nat) : Bool :=
  states.any fun s => match stateAt? g s with | some .accept => true | _ => false

/-- Looks for a match from any place of the text; `states` are alive in front of `cs`. -/
def search (g : Graph) (start : Nat) (before : Option Char) (states : List Nat) : List Char → Bool
  | [] => accepts g (closure g before none (2 * g.size + states.length + 2) (start :: states) [])
  | c :: cs =>
    let here := closure g before (some c) (2 * g.size + states.length + 2) (start :: states) []
    accepts g here || search g start (some c) (advance g c here).eraseDups cs

/-- Whether the pattern matches some part of the text. -/
def matchesIn (p : Pattern) (text : String) : Bool :=
  let (start, g) := layOut p 0 #[.accept]
  search g start none [] text.toList

end Pattern

end LispMachine
