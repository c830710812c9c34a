import LispMachine.Json.Shape

/-!
# Libraries

What the machine leaves to others: which texts are patterns and where a pattern matches, how a JSON value is
written and read, and the digest of an image.  Nothing is known of them beyond the laws that stand here with
them, and a machine runs on any libraries that keep these laws; nothing at all is asked of patterns.
-/

namespace LispMachine

/-- The libraries a machine runs on, with the laws it counts on. -/
class Libraries where
  /-- Whether the text is a pattern. -/
  isPattern : String → Bool
  /-- Whether the pattern, given by its text, matches somewhere in a text. -/
  matchesIn : String → String → Bool
  /-- The text of a JSON value. -/
  printJson : Json → String
  /-- The JSON value a text denotes, if it nests no deeper than images may. -/
  parseJson? : String → Option Json
  /-- The digest of some bytes. -/
  digest : List UInt8 → List UInt8
  length_digest (bytes : List UInt8) : (digest bytes).length = 32
  /-- The text of a value denotes the value, where it denotes the numbers in it that are not whole. -/
  parse_print (j : Json)
    (readable : j.Readable fun x => x.isFinite = true ∧ parseJson? (printJson (.float x)) = some (.float x))
    (depth : j.depth ≤ Json.imageDepth) : parseJson? (printJson j) = some j
  /-- Whatever the text of a value denotes differs from the value in numbers only. -/
  like_of_parse (j j' : Json) (parsed : parseJson? (printJson j) = some j') : Json.Like j j'

namespace Double

variable [Libraries]

/-- The text of the number in an image is read back as the same number. -/
def ReadsBack (x : Double) : Prop := Libraries.parseJson? (Libraries.printJson (.float x)) = some (.float x)

/-- The number is written as it is. -/
def WritesExactly (x : Double) : Prop := x.isFinite = true ∧ x.ReadsBack

end Double

end LispMachine
