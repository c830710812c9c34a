import LispMachine.Error
import LispMachine.Text.Basic
import LispMachine.Double.Reader

/-!
# Reading data

From text to data.  A `Cursor` is the text still to be read together with its place; every reading
function takes one and returns what it read with the cursor behind it.  Blanks, commas and comments up
to the end of a line separate tokens and are otherwise skipped.
-/

namespace LispMachine

/-- The text still to be read, and where it starts. -/
structure Cursor where
  rest : List Char
  span : Span
deriving Inhabited

/-- The place behind a character. -/
def Span.after (s : Span) (c : Char) : Span :=
  if c == '\n' then ⟨s.line + 1, 1, s.index + 1⟩ else ⟨s.line, s.col + 1, s.index + 1⟩

/-- The place behind a text. -/
def Span.afterAll (s : Span) (cs : List Char) : Span := cs.foldl Span.after s

/-- The place a text starts at. -/
def Span.start : Span := ⟨1, 1, 0⟩

namespace Cursor

/-- A cursor at the start of a text. -/
def ofText (text : String) : Cursor := ⟨text.toList, Span.start⟩

/-- Skips one character. -/
def advance (c : Cursor) : Cursor :=
  match c.rest with
  | [] => c
  | ch :: rest => ⟨rest, c.span.after ch⟩

/-- Skips as many characters as `cs` has, which the text starts with. -/
def skip (c : Cursor) (cs : List Char) : Cursor := ⟨c.rest.drop cs.length, c.span.afterAll cs⟩

end Cursor

namespace Datum

/-! ### Characters -/

/-- Separates tokens and means nothing else; commas count as blanks. -/
def isSeparator (c : Char) : Bool := Text.isBlank c || c == ','

/-- Characters that end a token. -/
def isDelimiter (c : Char) : Bool :=
  c == '(' || c == ')' || c == '[' || c == ']' || c == '\x7b' || c == '\x7d' || c == '\x22' ||
    c == ';' || c == '\x27' || c == '\x60' || c == '~' || c == '^'

/-- May stand within a symbol, a keyword or a number. -/
def isTokenChar (c : Char) : Bool := !isSeparator c && !isDelimiter c

/-- Skips separators and comments. -/
def skipBlanks (comment : Bool) (span : Span) : List Char → Cursor
  | [] => ⟨[], span⟩
  | c :: cs =>
    if comment then skipBlanks (c != '\n') (span.after c) cs
    else if isSeparator c then skipBlanks false (span.after c) cs
    else if c == ';' then skipBlanks true (span.after c) cs
    else ⟨c :: cs, span⟩

/-- The cursor at the next token. -/
def atToken (c : Cursor) : Cursor := skipBlanks false c.span c.rest

/-! ### Numbers -/

/-- A digit comes first, or behind one sign. -/
def startsLikeNumber : List Char → Bool
  | c :: cs =>
    c.isDigit || ((c == '-' || c == '+') && match cs with | d :: _ => d.isDigit | [] => false)
  | [] => false

/-- A whole number within 64 bits. -/
def word? (n : Int) : Option Int64 :=
  if Int64.minValue.toInt ≤ n && n ≤ Int64.maxValue.toInt then some (Int64.ofInt n) else none

/-- Digits of a base below 17 with an optional sign, as a number within 64 bits. -/
def signedWord? (base : Nat) (digit? : Char → Option Nat) (cs : List Char) : Option Int64 :=
  let (negative, ds) := Double.splitSign cs
  if ds.isEmpty then none
  else
    (ds.foldl (fun acc c => acc.bind fun n => (digit? c).map fun d => base * n + d) (some 0)).bind
      fun n => word? (if negative then -(n : Int) else n)

def decimalDigit? (c : Char) : Option Nat :=
  if c.isDigit then some (c.toNat - 0x30) else none

def hexDigit? (c : Char) : Option Nat :=
  let n := c.toNat
  if c.isDigit then some (n - 0x30)
  else if 0x61 ≤ n && n ≤ 0x66 then some (n - 0x57)
  else if 0x41 ≤ n && n ≤ 0x46 then some (n - 0x37)
  else none

/-- A whole number in decimal. -/
def decimalWord? (cs : List Char) : Option Int64 := signedWord? 10 decimalDigit? cs

/-- The number a token denotes. -/
def number? (token : List Char) : Option Atom :=
  if !startsLikeNumber token then none
  else
    match decimalWord? token with
    | some n => some (.int n)
    | none =>
      match token with
      | '0' :: 'x' :: hex => (signedWord? 16 hexDigit? hex).map .int
      | _ => (Double.ofText? (String.ofList token)).map .float

/-! ### Tokens and texts -/

/-- The token at the cursor, possibly empty. -/
def token (c : Cursor) : List Char × Cursor :=
  let t := c.rest.takeWhile isTokenChar
  (t, c.skip t)

variable (source : Option String)

/-- A reading error at the cursor. -/
def failAt {α : Type} (c : Cursor) (message : String) : Except Error (α × Cursor) :=
  .error (((Error.reading message).atSpan c.span).inSource source)

/-- The character an escape in a string stands for. -/
def escape? (c : Char) : Option Char :=
  if c == 'n' then some '\n'
  else if c == 't' then some '\t'
  else if c == 'r' then some '\r'
  else if c == '0' then some '\x00'
  else if c == '\\' || c == '\x22' then some c
  else none

/-- The rest of a string; `taken` holds its characters so far, latest first. -/
def stringBody (taken : List Char) (span : Span) : List Char → Except Error (String × Cursor)
  | [] => failAt source ⟨[], span⟩ "unterminated string literal"
  | [c] =>
    if c == '\x22' then .ok (String.ofList taken.reverse, ⟨[], span.after c⟩)
    else if c == '\\' then failAt source ⟨[], span.after c⟩ "unterminated escape sequence"
    else failAt source ⟨[], span.after c⟩ "unterminated string literal"
  | c :: e :: cs =>
    if c == '\x22' then .ok (String.ofList taken.reverse, ⟨e :: cs, span.after c⟩)
    else if c == '\\' then
      match escape? e with
      | some ch => stringBody (ch :: taken) ((span.after c).after e) cs
      | none =>
        failAt source ⟨cs, (span.after c).after e⟩ ("unknown escape '\\" ++ e.toString ++ "'")
    else stringBody (c :: taken) (span.after c) (e :: cs)

/-- The rest of a pattern, whose escapes are kept; `taken` holds its characters so far. -/
def patternBody (taken : List Char) (span : Span) : List Char → Except Error (String × Cursor)
  | [] => failAt source ⟨[], span⟩ "unterminated regex literal"
  | [c] =>
    if c == '\x22' then .ok (String.ofList taken.reverse, ⟨[], span.after c⟩)
    else failAt source ⟨[], span.after c⟩ "unterminated regex literal"
  | c :: e :: cs =>
    if c == '\x22' then .ok (String.ofList taken.reverse, ⟨e :: cs, span.after c⟩)
    else if c == '\\' then patternBody (e :: c :: taken) ((span.after c).after e) cs
    else patternBody (c :: taken) (span.after c) (e :: cs)

/-- The character literal behind its backslash. -/
def character (c : Cursor) : Except Error (Char × Cursor) :=
  let (t, behind) := token c
  let word := String.ofList t
  if word == "newline" then .ok ('\n', behind)
  else if word == "space" then .ok (' ', behind)
  else if word == "tab" then .ok ('\t', behind)
  else if word == "return" then .ok ('\r', behind)
  else
    match t with
    | [] =>
      match c.rest with
      | ch :: _ => .ok (ch, c.advance)
      | [] => failAt source c "unexpected end of input in character literal"
    | [ch] => .ok (ch, behind)
    | _ => failAt source behind ("unsupported character literal '\\" ++ word ++ "'")

/-- A name or a number. -/
def plain (c : Cursor) : Except Error (Datum × Cursor) :=
  let (t, behind) := token c
  let word := String.ofList t
  if t.isEmpty then
    failAt source c ("unexpected character '" ++ (c.rest.head?.getD '\x00').toString ++ "'")
  else if word == "nil" then .ok (.nil c.span, behind)
  else if word == "true" then .ok (.ofAtom (.bool true) c.span, behind)
  else if word == "false" then .ok (.ofAtom (.bool false) c.span, behind)
  else
    match number? t with
    | some a => .ok (.ofAtom a c.span, behind)
    | none =>
      if startsLikeNumber t then
        .error ((Error.reading ("invalid number '" ++ word ++ "'")).atSpan c.span)
      else .ok (.symbol word c.span, behind)

/-! ### Metadata -/

/-- What one entry of a metadata map adds to a datum. -/
def applyMetaEntry (d : Datum) (k v : Datum) : Datum :=
  match k, v with
  | .atom (.keyword flag) _, .atom (.bool true) _ =>
    d.withInfo { d.info with flags := d.flags ++ [flag] }
  | .atom (.keyword key) _, .atom (.symbol hint) _ =>
    if key == "tag" then d.withInfo { d.info with hint := some hint } else d
  | _, _ => d

/-- A datum with the metadata `m` in front of it. -/
def applyMeta (m d : Datum) : Except Error Datum :=
  match m with
  | .atom (.symbol hint) _ => .ok (d.withInfo { d.info with hint := some hint })
  | .atom (.str hint) _ => .ok (d.withInfo { d.info with hint := some hint })
  | .atom (.keyword flag) _ => .ok (d.withInfo { d.info with flags := d.flags ++ [flag] })
  | .map entries _ => .ok (entries.foldl (fun d e => applyMetaEntry d e.1 e.2) d)
  | _ =>
    .error ((Error.reading "metadata must be a symbol, keyword or map").atSpan m.span)

/-! ### Forms -/

/-- The items of a map literal, two by two. -/
def pairUp : List Datum → List (Datum × Datum)
  | k :: v :: rest => (k, v) :: pairUp rest
  | _ => []

/-- A form behind a reader mark, wrapped under the name of the mark. -/
def wrapped (head : String) (span : Span) (d : Datum) : Datum :=
  .ofList [.symbol head span, d] span

mutual
/-- One form.  `fuel` bounds the text read. -/
def form : Nat → Cursor → Except Error (Datum × Cursor)
  | 0, c => failAt source c "unexpected end of input"
  | fuel + 1, c =>
    let c := atToken c
    let span := c.span
    match c.rest with
    | [] => failAt source c "unexpected end of input"
    | '\x27' :: _ => marked fuel "quote" span c.advance
    | '\x60' :: _ => marked fuel "syntax-quote" span c.advance
    | '~' :: '@' :: _ => marked fuel "unquote-splicing" span c.advance.advance
    | '~' :: _ => marked fuel "unquote" span c.advance
    | '^' :: _ => do
      let (m, c) ← form fuel c.advance
      let (d, c) ← form fuel c
      let d ← applyMeta m d
      return (d, c)
    | '(' :: _ => do
      let (items, c) ← sequence fuel ')' [] c.advance
      return (.list items { span }, c)
    | '[' :: _ => do
      let (items, c) ← sequence fuel ']' [] c.advance
      return (.vector items { span }, c)
    | '\x7b' :: _ => do
      let (items, c) ← sequence fuel '\x7d' [] c.advance
      if items.length % 2 != 0 then
        .error ((Error.reading "map literal must contain an even number of forms").atSpan span)
      else return (.map (pairUp items) { span }, c)
    | '#' :: _ =>
      let c := c.advance
      match c.rest with
      | '\x7b' :: _ => do
        let (items, c) ← sequence fuel '\x7d' [] c.advance
        return (.set items { span }, c)
      | '\x22' :: cs => do
        let (text, c) ← patternBody source [] (c.span.after '\x22') cs
        return (.ofAtom (.regex text) span, c)
      | ch :: _ => failAt source c ("unsupported dispatch macro '#" ++ ch.toString ++ "'")
      | [] => failAt source c "unexpected end of input after '#'"
    | '\x22' :: cs => do
      let (text, c) ← stringBody source [] (c.span.after '\x22') cs
      return (.ofAtom (.str text) span, c)
    | '\\' :: _ => do
      let (ch, c) ← character source c.advance
      return (.ofAtom (.char ch) span, c)
    | ':' :: _ =>
      let (t, behind) := token c.advance
      if t.isEmpty then failAt source behind "empty keyword"
      else .ok (.ofAtom (.keyword (String.ofList t)) span, behind)
    | ch :: _ =>
      if ch == ')' || ch == ']' || ch == '\x7d' then
        failAt source c ("unexpected closing delimiter '" ++ ch.toString ++ "'")
      else plain source c

/-- The form behind a reader mark. -/
def marked : Nat → String → Span → Cursor → Except Error (Datum × Cursor)
  | 0, _, _, c => failAt source c "unexpected end of input"
  | fuel + 1, head, span, c => do
    let (d, c) ← form fuel c
    return (wrapped head span d, c)

/-- Forms up to a closing delimiter; `taken` holds those read, latest first. -/
def sequence : Nat → Char → List Datum → Cursor → Except Error (List Datum × Cursor)
  | 0, _, _, c => failAt source c "unexpected end of input"
  | fuel + 1, close, taken, c =>
    let c := atToken c
    match c.rest with
    | [] => failAt source c ("unterminated collection, expected '" ++ close.toString ++ "'")
    | ch :: _ =>
      if ch == close then .ok (taken.reverse, c.advance)
      else do
        let (d, c) ← form fuel c
        sequence fuel close (d :: taken) c
end

/-- All forms up to the end of the text; `taken` holds those read, latest first. -/
def formsAux : Nat → List Datum → Cursor → Except Error (List Datum)
  | 0, taken, _ => .ok taken.reverse
  | fuel + 1, taken, c => do
    let c := atToken c
    if c.rest.isEmpty then return taken.reverse
    let (d, c) ← form source (2 * c.rest.length + 2) c
    formsAux fuel (d :: taken) c

/-- All forms of a text; `source` names it in errors. -/
def readAll (text : String) : Except Error (List Datum) :=
  formsAux source (text.length + 1) [] (.ofText text)

end Datum

end LispMachine
