/-!
# Characters of texts

White space, the characters with the White_Space property, and the UTF-16 units by which texts are hashed:
a character above the basic plane counts as two units.
-/

namespace LispMachine.Text

/-- Characters with the White_Space property. -/
def isBlank (c : Char) : Bool :=
  let n := c.toNat
  (0x09 ≤ n && n ≤ 0x0D) || n == 0x20 || n == 0x85 || n == 0xA0 || n == 0x1680 ||
    (0x2000 ≤ n && n ≤ 0x200A) || n == 0x2028 || n == 0x2029 || n == 0x202F || n == 0x205F ||
    n == 0x3000

/-- Drops blanks from both ends. -/
def trimChars (cs : List Char) : List Char :=
  ((cs.dropWhile isBlank).reverse.dropWhile isBlank).reverse

/-- Without the blanks at both ends. -/
def trim (s : String) : String :=
  String.ofList (trimChars s.toList)

/-! ### UTF-16 units -/

/-- The UTF-16 units of one character. -/
def units (c : Char) : List UInt32 :=
  let n := c.toNat
  if n < 0x10000 then [UInt32.ofNat n]
  else
    let m := n - 0x10000
    [UInt32.ofNat (0xD800 + m / 0x400), UInt32.ofNat (0xDC00 + m % 0x400)]

/-- The polynomial hash of a text: base 31 over its UTF-16 units, modulo `2 ^ 32`. -/
def hash32 (s : String) : UInt32 :=
  (s.toList.flatMap units).foldl (fun h unit => h * 31 + unit) 0

/-- A 32-bit word read as a signed number. -/
def signed32 (w : UInt32) : Int :=
  if w.toNat < 0x80000000 then w.toNat else (w.toNat : Int) - 0x100000000

end LispMachine.Text
