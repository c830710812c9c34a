import LispMachine.Json.Basic

/-!
# The shape of JSON values

How deep a value nests, whether the text of a value can be read back as it is, and when two values differ in
numbers only.
-/

namespace LispMachine.Json

/-- How deep arrays and objects nest. -/
def depth : Json → Nat
  | .arr items => depths items + 1
  | .obj members => memberDepths members + 1
  | _ => 0
where
  depths : List Json → Nat
    | [] => 0
    | j :: js => Nat.max (depth j) (depths js)
  memberDepths : List (String × Json) → Nat
    | [] => 0
    | (_, j) :: ms => Nat.max (depth j) (memberDepths ms)

/-- The nesting that images may have. -/
def imageDepth : Nat := 127

/-- Integers fit their words, and every number that is not whole is `exact`. -/
def Readable (exact : Double → Prop) : Json → Prop
  | .int n => -0x8000000000000000 ≤ n ∧ n < 0x10000000000000000
  | .float x => exact x
  | .arr items => EachReadable items
  | .obj members => MembersReadable members
  | _ => True
where
  EachReadable : List Json → Prop
    | [] => True
    | j :: js => Readable exact j ∧ EachReadable js
  MembersReadable : List (String × Json) → Prop
    | [] => True
    | (_, j) :: ms => Readable exact j ∧ MembersReadable ms

/-- The same value, numbers apart; a number may be anything. -/
inductive Like : Json → Json → Prop where
  | null : Like .null .null
  | bool (b : Bool) : Like (.bool b) (.bool b)
  | int (n : Int) (j : Json) : Like (.int n) j
  | float (x : Double) (j : Json) : Like (.float x) j
  | str (s : String) : Like (.str s) (.str s)
  | arr {js js' : List Json} (length : js.length = js'.length) (items : ∀ p ∈ js.zip js', Like p.1 p.2) :
      Like (.arr js) (.arr js')
  | obj {ms ms' : List (String × Json)} (keys : ms.map Prod.fst = ms'.map Prod.fst)
      (values : ∀ p ∈ (ms.map Prod.snd).zip (ms'.map Prod.snd), Like p.1 p.2) : Like (.obj ms) (.obj ms')

end LispMachine.Json
