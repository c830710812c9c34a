import LispMachine.Text.WordChar
import LispMachine.Text.Basic
import LispMachine.Text.CaseMap

/-!
# Sets of characters

Sets of characters as lists of inclusive code point ranges, with the set operations character classes
of patterns have.
-/

namespace LispMachine

/-- A set of characters, as inclusive ranges of code points. -/
structure CharSet where
  ranges : List (Nat × Nat)
deriving Inhabited

namespace CharSet

def lastCode : Nat := 0x10FFFF

def empty : CharSet := ⟨[]⟩

def all : CharSet := ⟨[(0, lastCode)]⟩

def single (c : Char) : CharSet := ⟨[(c.toNat, c.toNat)]⟩

def range (first last : Nat) : CharSet := ⟨[(first, last)]⟩

def ofRanges (rs : Array (Nat × Nat)) : CharSet := ⟨rs.toList⟩

/-- The character of a code belongs to the set. -/
def mem (s : CharSet) (n : Nat) : Bool := s.ranges.any fun r => r.1 ≤ n && n ≤ r.2

def union (s t : CharSet) : CharSet := ⟨s.ranges ++ t.ranges⟩

/-- The gaps between ascending ranges, from `next` on. -/
def gaps (next : Nat) : List (Nat × Nat) → List (Nat × Nat)
  | [] => if next ≤ lastCode then [(next, lastCode)] else []
  | (a, b) :: rs =>
    if next < a then (next, a - 1) :: gaps (max next (b + 1)) rs else gaps (max next (b + 1)) rs

/-- All other characters. -/
def complement (s : CharSet) : CharSet :=
  ⟨gaps 0 (s.ranges.mergeSort fun r t => r.1 ≤ t.1)⟩

def inter (s t : CharSet) : CharSet := (s.complement.union t.complement).complement

def diff (s t : CharSet) : CharSet := s.inter t.complement

def symmDiff (s t : CharSet) : CharSet := (s.diff t).union (t.diff s)

def negateIf (negated : Bool) (s : CharSet) : CharSet := if negated then s.complement else s

/-! ### Named sets -/

/-- Decimal digits of all scripts. -/
def digits : CharSet := ofRanges Text.digitRanges
/-- Characters of words. -/
def words : CharSet := ofRanges Text.wordRanges
/-- Blank characters. -/
def blanks : CharSet :=
  ⟨[(0x09, 0x0D), (0x20, 0x20), (0x85, 0x85), (0xA0, 0xA0), (0x1680, 0x1680), (0x2000, 0x200A),
    (0x2028, 0x2029), (0x202F, 0x202F), (0x205F, 0x205F), (0x3000, 0x3000)]⟩

/-- The bracketed classes of ASCII characters. -/
def ascii? (name : String) : Option CharSet :=
  let lower := (0x61, 0x7A)
  let upper := (0x41, 0x5A)
  let digit := (0x30, 0x39)
  if name == "alnum" then some ⟨[digit, upper, lower]⟩
  else if name == "alpha" then some ⟨[upper, lower]⟩
  else if name == "ascii" then some ⟨[(0, 0x7F)]⟩
  else if name == "blank" then some ⟨[(0x09, 0x09), (0x20, 0x20)]⟩
  else if name == "cntrl" then some ⟨[(0, 0x1F), (0x7F, 0x7F)]⟩
  else if name == "digit" then some ⟨[digit]⟩
  else if name == "graph" then some ⟨[(0x21, 0x7E)]⟩
  else if name == "lower" then some ⟨[lower]⟩
  else if name == "print" then some ⟨[(0x20, 0x7E)]⟩
  else if name == "punct" then some ⟨[(0x21, 0x2F), (0x3A, 0x40), (0x5B, 0x60), (0x7B, 0x7E)]⟩
  else if name == "space" then some ⟨[(0x09, 0x0D), (0x20, 0x20)]⟩
  else if name == "upper" then some ⟨[upper]⟩
  else if name == "word" then some ⟨[digit, upper, (0x5F, 0x5F), lower]⟩
  else if name == "xdigit" then some ⟨[digit, (0x41, 0x46), (0x61, 0x66)]⟩
  else none

/-- Membership of a character or of one of its case forms. -/
def memFold (s : CharSet) (c : Char) : Bool :=
  s.mem c.toNat || (Text.lowerChar c).any (fun d => s.mem d.toNat) ||
    (Text.upperChar c).any fun d => s.mem d.toNat

end CharSet

end LispMachine
