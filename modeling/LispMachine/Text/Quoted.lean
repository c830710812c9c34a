import LispMachine.Text.Printable

/-!
# Quoted text

Texts and characters between quotes.  Five characters have short escapes, the enclosing quote and
the backslash are escaped by a backslash, and every other hidden character is written by its code
point in hexadecimal, between braces.
-/

namespace LispMachine.Text

/-- One hexadecimal digit, lower case. -/
def hexDigit (n : Nat) : Char :=
  if n < 10 then Char.ofNat (0x30 + n) else Char.ofNat (0x57 + n)

/-- Hexadecimal digits of `n` in front of `tail`, at most `fuel` of them. -/
def hexAux : Nat → Nat → List Char → List Char
  | 0, _, tail => tail
  | fuel + 1, n, tail =>
    let tail := hexDigit (n % 16) :: tail
    if n < 16 then tail else hexAux fuel (n / 16) tail

/-- Hexadecimal digits without leading zeros. -/
def hex (n : Nat) : List Char := hexAux (n + 1) n []

/-- A code point as an escape. -/
def escapeCode (n : Nat) : List Char :=
  '\\' :: 'u' :: '\x7b' :: hex n ++ ['\x7d']

/-- How one character is written between quotes of the given kind. -/
def escapeChar (quote c : Char) : List Char :=
  if c == '\x00' then ['\\', '0']
  else if c == '\t' then ['\\', 't']
  else if c == '\r' then ['\\', 'r']
  else if c == '\n' then ['\\', 'n']
  else if c == '\\' || c == quote then ['\\', c]
  else if isPrintable c then [c]
  else escapeCode c.toNat

/-- A text between double quotes. -/
def quote (s : String) : String :=
  String.ofList ('\x22' :: s.toList.flatMap (escapeChar '\x22') ++ ['\x22'])

/-- A character between single quotes. -/
def quoteChar (c : Char) : String :=
  String.ofList ('\x27' :: escapeChar '\x27' c ++ ['\x27'])

end LispMachine.Text
