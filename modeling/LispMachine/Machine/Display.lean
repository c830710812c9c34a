import LispMachine.Machine.Request

/-!
# Displayed text

The text the printing functions show.  Objects whose classes declare a `toString` of their own are shown
by it, also inside collections.
-/

namespace LispMachine.Machine

/-- The result of a `toString` declared below the root class, if there is one. -/
def ownText? (call : Caller) (v : Value) (cls : String) : Action (Option String) := do
  let methods := (← get).registry.findMethods cls "toString" false
  match methods.find? fun c => c.2.params.isEmpty && !c.2.isAbstract with
  | some (owner, m) =>
    if owner.name = Names.object then return none
    else
      let text ← call (.invoke owner m (some v) [])
      return some ((← get).bareTextOf text)
  | none => return none

/-- The texts of items between brackets. -/
def between (opening closing : String) (texts : List String) : String :=
  opening ++ " ".intercalate texts ++ closing

mutual
/-- The text of a value, with strings and characters quoted when `readable`. -/
def displayText (call : Caller) (readable : Bool) : Value → Action String
  | .object o => do
    match ← ownText? call (.object o) o.className with
    | some text => return text
    | none => return (← get).textOf (.object o)
  | .list items => do return between "(" ")" (← displayTexts call items)
  | .vector items => do return between "[" "]" (← displayTexts call items)
  | .set items => do
    let texts := Value.sortTexts (← displayTexts call items)
    return "#\x7b" ++ " ".intercalate texts ++ "\x7d"
  | .map entries => do
    let texts := Value.sortTexts (← displayEntries call entries)
    return "\x7b" ++ ", ".intercalate texts ++ "\x7d"
  | v => do
    let w ← get
    return if readable then w.textOf v else w.bareTextOf v
termination_by structural v => v

def displayTexts (call : Caller) : List Value → Action (List String)
  | [] => return []
  | v :: vs => do
    let t ← displayText call true v
    let ts ← displayTexts call vs
    return t :: ts
termination_by structural vs => vs

def displayEntries (call : Caller) : List (Value × Value) → Action (List String)
  | [] => return []
  | (k, v) :: es => do
    let tk ← displayText call true k
    let tv ← displayText call true v
    let ts ← displayEntries call es
    return (tk ++ " " ++ tv) :: ts
termination_by structural es => es
end

/-- The texts of several values. -/
def displayAll (call : Caller) (readable : Bool) : List Value → Action (List String)
  | [] => return []
  | v :: vs => do
    let t ← displayText call readable v
    let ts ← displayAll call readable vs
    return t :: ts

end LispMachine.Machine
