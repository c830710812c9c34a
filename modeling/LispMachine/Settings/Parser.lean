import LispMachine.Settings.Basic
import LispMachine.Double.Reader
import LispMachine.Pattern.Parser

/-!
# Settings documents, read

Reads a settings document: headers in brackets, and keys with values, one to a line.  Values are texts,
numbers, truth values, moments, arrays in brackets and tables in braces.  Comments run from a hash to
the end of the line.
-/

namespace LispMachine.Setting

/-- What a reader of a part gives: the part and the text behind it. -/
abbrev Parsed (α : Type) := Option (α × List Char)

def isSpace (c : Char) : Bool := c == ' ' || c == '\t'

def skipSpaces (cs : List Char) : List Char := cs.dropWhile isSpace

/-- Controls other than the tabulator are not allowed in texts and comments. -/
def isControl (c : Char) : Bool := (c.toNat < 0x20 && c != '\t') || c.toNat == 0x7F

/-- Skips a comment, if there is one, up to the end of the line. -/
def skipComment : List Char → Option (List Char)
  | '#' :: cs =>
    let body := cs.takeWhile fun c => c != '\n'
    let body := if body.getLast? == some '\r' then body.dropLast else body
    if body.any isControl then none else some (cs.dropWhile fun c => c != '\n')
  | cs => some cs

/-- The end of a line, after spaces and a comment. -/
def endLine (cs : List Char) : Option (List Char) :=
  match skipComment (skipSpaces cs) with
  | some [] => some []
  | some ('\n' :: rest) => some rest
  | some ('\r' :: '\n' :: rest) => some rest
  | _ => none

/-- Skips spaces, line ends and comments. -/
def skipLines : Nat → List Char → Option (List Char)
  | 0, cs => some cs
  | fuel + 1, cs =>
    match skipComment (skipSpaces cs) with
    | none => none
    | some ('\n' :: rest) => skipLines fuel rest
    | some ('\r' :: '\n' :: rest) => skipLines fuel rest
    | some rest => some rest

/-! ### Texts -/

/-- The escape behind a backslash. -/
def escape : List Char → Option (Char × List Char)
  | 'b' :: cs => some ('\x08', cs)
  | 't' :: cs => some ('\t', cs)
  | 'n' :: cs => some ('\n', cs)
  | 'f' :: cs => some ('\x0c', cs)
  | 'r' :: cs => some ('\r', cs)
  | '\x22' :: cs => some ('\x22', cs)
  | '\\' :: cs => some ('\\', cs)
  | 'u' :: cs => do
    if cs.length < 4 then none
    let n ← Pattern.hexNumber? (cs.take 4)
    let c ← Pattern.scalar? n
    return (c, cs.drop 4)
  | 'U' :: cs => do
    if cs.length < 8 then none
    let n ← Pattern.hexNumber? (cs.take 8)
    let c ← Pattern.scalar? n
    return (c, cs.drop 8)
  | _ => none

/-- The rest of a text of one line. -/
def basicText : Nat → List Char → List Char → Parsed String
  | 0, _, _ => none
  | fuel + 1, taken, cs =>
    match cs with
    | '\x22' :: rest => some (String.ofList taken.reverse, rest)
    | '\\' :: rest =>
      match escape rest with
      | some (c, rest) => basicText fuel (c :: taken) rest
      | none => none
    | c :: rest => if isControl c then none else basicText fuel (c :: taken) rest
    | [] => none

/-- The rest of a text of one line without escapes. -/
def literalText (cs : List Char) : Parsed String :=
  let body := cs.takeWhile (· != '\x27')
  match cs.dropWhile (· != '\x27') with
  | _ :: rest => if body.any isControl then none else some (String.ofList body, rest)
  | [] => none

/-- The rest of a text of several lines between three `quote`s; up to two more quotes may stand in
front of the closing ones. -/
def longText (quote : Char) (escapes : Bool) : Nat → List Char → List Char → Parsed String
  | 0, _, _ => none
  | fuel + 1, taken, cs =>
    match cs with
    | [] => none
    | c :: rest =>
      if c == quote then
        let run := cs.takeWhile (· == quote)
        let rest := cs.dropWhile (· == quote)
        if run.length < 3 then longText quote escapes fuel (run ++ taken) rest
        else if run.length < 6 then
          some (String.ofList ((run.drop 3) ++ taken).reverse, rest)
        else none
      else if c == '\\' && escapes then
        match skipSpaces rest with
        | '\n' :: behind =>
          longText quote escapes fuel taken (behind.dropWhile fun c => isSpace c || c == '\n' || c == '\r')
        | '\r' :: '\n' :: behind =>
          longText quote escapes fuel taken (behind.dropWhile fun c => isSpace c || c == '\n' || c == '\r')
        | _ =>
          match escape rest with
          | some (e, rest) => longText quote escapes fuel (e :: taken) rest
          | none => none
      else if c == '\n' then longText quote escapes fuel (c :: taken) rest
      else if c == '\r' then
        match rest with
        | '\n' :: rest => longText quote escapes fuel ('\n' :: taken) rest
        | _ => none
      else if isControl c then none
      else longText quote escapes fuel (c :: taken) rest

/-- A line end right behind the opening quotes does not count. -/
def skipFirstLineEnd : List Char → List Char
  | '\n' :: cs => cs
  | '\r' :: '\n' :: cs => cs
  | cs => cs

/-! ### Keys -/

def isBareKeyChar (c : Char) : Bool := c.isAlphanum || c == '_' || c == '-'

/-- One part of a key. -/
def keyPart (cs : List Char) : Parsed String :=
  match cs with
  | '\x22' :: rest => basicText (rest.length + 1) [] rest
  | '\x27' :: rest => literalText rest
  | cs =>
    let word := cs.takeWhile isBareKeyChar
    if word.isEmpty then none else some (String.ofList word, cs.dropWhile isBareKeyChar)

/-- A key of parts joined by dots. -/
def key : Nat → List Char → Parsed (List String)
  | 0, _ => none
  | fuel + 1, cs =>
    match keyPart (skipSpaces cs) with
    | none => none
    | some (part, rest) =>
      match skipSpaces rest with
      | '.' :: rest => (key fuel rest).map fun (parts, r) => (part :: parts, r)
      | rest => some ([part], rest)

/-! ### Numbers and moments -/

/-- Digits with single underscores between them, without the underscores. -/
def plainDigits? (isDigit : Char → Bool) (cs : List Char) : Option (List Char) :=
  let ok : Bool × Bool := cs.foldl
    (fun (good, digitBefore) c =>
      if isDigit c then (good, true)
      else if c == '_' then (good && digitBefore, false)
      else (false, false)) (true, false)
  if ok.1 && ok.2 then some (cs.filter (· != '_')) else none

def isHexDigit (c : Char) : Bool := (Pattern.hexValue? c).isSome

/-- The number that digits stand for. -/
def inBase (base : Nat) (ds : List Char) : Nat :=
  ds.foldl (fun n c => base * n + (Pattern.hexValue? c).getD 0) 0

/-- An integer that fits a signed 64-bit word. -/
def word? (n : Int) : Option Setting :=
  if -0x8000000000000000 ≤ n && n < 0x8000000000000000 then some (.int n) else none

def noLeadingZero : List Char → Bool
  | '0' :: _ :: _ => false
  | _ => true

/-- A decimal with a point or an exponent. -/
def decimal? (negative : Bool) (cs : List Char) : Option Setting := do
  let whole := cs.takeWhile fun c => c.isDigit || c == '_'
  let rest := cs.dropWhile fun c => c.isDigit || c == '_'
  let wholeDigits ← plainDigits? Char.isDigit whole
  if !noLeadingZero wholeDigits then none
  let (fraction, rest) ← match rest with
    | '.' :: rest => do
      let ds ← plainDigits? Char.isDigit (rest.takeWhile fun c => c.isDigit || c == '_')
      pure (ds, rest.dropWhile fun c => c.isDigit || c == '_')
    | rest => pure ([], rest)
  let e : Int ← match rest with
    | [] => pure 0
    | m :: rest =>
      if m == 'e' || m == 'E' then do
        let (down, ds) := Double.splitSign rest
        let ds ← plainDigits? Char.isDigit ds
        let n : Int := Double.digitsValue ds
        pure (if down then -n else n)
      else none
  let x := Double.ofDecimal negative (Double.digitsValue (wholeDigits ++ fraction)) (e - fraction.length)
  if x.isInfinite then none else return .number x

/-- Whether texts have digits where the mask has `0` and the mask's character elsewhere. -/
def fits (mask : List Char) (cs : List Char) : Bool :=
  mask.length == cs.length && (mask.zip cs).all fun (m, c) => if m == '0' then c.isDigit else m == c

def field (start len : Nat) (cs : List Char) : Nat := Double.digitsValue ((cs.drop start).take len)

/-- Days of a month; leap years follow the rule of centuries. -/
def daysInMonth (year month : Nat) : Nat :=
  if month == 2 then
    if year % 4 == 0 && (year % 100 != 0 || year % 400 == 0) then 29 else 28
  else if month == 4 || month == 6 || month == 9 || month == 11 then 30
  else 31

/-- Year, month and day, each in its range. -/
def isDate (cs : List Char) : Bool :=
  fits "0000-00-00".toList cs && 1 ≤ field 5 2 cs && field 5 2 cs ≤ 12 && 1 ≤ field 8 2 cs &&
    field 8 2 cs ≤ daysInMonth (field 0 4 cs) (field 5 2 cs)

/-- Hours, minutes and seconds, each in its range. -/
def isTime (cs : List Char) : Bool :=
  let clock := cs.take 8
  let rest := cs.drop 8
  fits "00:00:00".toList clock && field 0 2 clock ≤ 23 && field 3 2 clock ≤ 59 &&
    field 6 2 clock ≤ 60 &&
    match rest with
    | [] => true
    | '.' :: ds => !ds.isEmpty && ds.all Char.isDigit
    | _ => false

/-- An offset in hours and minutes, each in its range. -/
def isOffset (cs : List Char) : Bool :=
  (fits "+00:00".toList cs || fits "-00:00".toList cs) && field 1 2 cs ≤ 23 && field 4 2 cs ≤ 59

/-- A date, a time, or both, with an optional offset. -/
def isMoment (cs : List Char) : Bool :=
  isDate cs || isTime cs ||
    (isDate (cs.take 10) &&
      match cs.drop 10 with
      | t :: rest =>
        (t == 'T' || t == 't' || t == ' ') &&
          (isTime rest ||
            (match rest.getLast? with
              | some z => (z == 'Z' || z == 'z') && isTime rest.dropLast
              | none => false) ||
            (isOffset (rest.drop (rest.length - 6)) && isTime (rest.take (rest.length - 6))))
      | [] => false)

/-- A value written without quotes or brackets. -/
def bareValue? (cs : List Char) : Option Setting :=
  let word := String.ofList cs
  if word == "true" then some (.bool true)
  else if word == "false" then some (.bool false)
  else if isMoment cs then some (.moment word)
  else
    let based (base : Nat) (isDigit : Char → Bool) (ds : List Char) : Option Setting :=
      (plainDigits? isDigit ds).bind fun ds => word? (inBase base ds)
    match cs with
    | '0' :: 'x' :: ds => based 16 isHexDigit ds
    | '0' :: 'o' :: ds => based 8 (fun c => '0' ≤ c && c ≤ '7') ds
    | '0' :: 'b' :: ds => based 2 (fun c => c == '0' || c == '1') ds
    | _ =>
      let (negative, ds) := Double.splitSign cs
      let rest := String.ofList ds
      if rest == "inf" then some (.number (Double.infinity negative))
      else if rest == "nan" then some (.number (Double.nan negative))
      else
        match plainDigits? Char.isDigit ds with
        | some digits =>
          if noLeadingZero digits then
            let n : Int := Double.digitsValue digits
            word? (if negative then -n else n)
          else none
        | none => decimal? negative ds

def isBareValueChar (c : Char) : Bool :=
  c.isAlphanum || c == '_' || c == '-' || c == '+' || c == '.' || c == ':'

/-- The text of a bare value; a date may be followed by a blank and a time. -/
def bareValue (cs : List Char) : Parsed Setting :=
  let word := cs.takeWhile isBareValueChar
  let rest := cs.dropWhile isBareValueChar
  let (word, rest) := match rest with
    | ' ' :: d :: more =>
      if isDate word && d.isDigit then
        (word ++ ' ' :: (d :: more).takeWhile isBareValueChar, (d :: more).dropWhile isBareValueChar)
      else (word, rest)
    | _ => (word, rest)
  (bareValue? word).map fun v => (v, rest)

/-! ### Values -/

mutual
/-- One value. -/
def value : Nat → List Char → Parsed Setting
  | 0, _ => none
  | fuel + 1, cs =>
    match cs with
    | '\x22' :: '\x22' :: '\x22' :: rest =>
      let rest := skipFirstLineEnd rest
      (longText '\x22' true (rest.length + 1) [] rest).map fun (s, r) => (.str s, r)
    | '\x22' :: rest => (basicText (rest.length + 1) [] rest).map fun (s, r) => (.str s, r)
    | '\x27' :: '\x27' :: '\x27' :: rest =>
      let rest := skipFirstLineEnd rest
      (longText '\x27' false (rest.length + 1) [] rest).map fun (s, r) => (.str s, r)
    | '\x27' :: rest => (literalText rest).map fun (s, r) => (.str s, r)
    | '[' :: rest => (arrayItems fuel [] rest).map fun (vs, r) => (.array vs, r)
    | '\x7b' :: rest =>
      match skipSpaces rest with
      | '\x7d' :: rest => some (emptyTable .inline, rest)
      | rest => inlineMembers fuel (emptyTable .implied) rest
    | cs => bareValue cs

/-- The items of an array up to its closing bracket; `taken` holds those read, latest first. -/
def arrayItems : Nat → List Setting → List Char → Parsed (List Setting)
  | 0, _, _ => none
  | fuel + 1, taken, cs =>
    match skipLines (cs.length + 1) cs with
    | none => none
    | some (']' :: rest) => some (taken.reverse, rest)
    | some cs =>
      match value fuel cs with
      | none => none
      | some (v, rest) =>
        match skipLines (rest.length + 1) rest with
        | some (',' :: rest) => arrayItems fuel (v :: taken) rest
        | some (']' :: rest) => some ((v :: taken).reverse, rest)
        | _ => none

/-- The members of a table in braces. -/
def inlineMembers : Nat → Setting → List Char → Parsed Setting
  | 0, _, _ => none
  | fuel + 1, soFar, cs =>
    match key (cs.length + 1) cs with
    | none => none
    | some (path, rest) =>
      match rest with
      | '=' :: rest =>
        match value fuel (skipSpaces rest) with
        | none => none
        | some (v, rest) =>
          match define path v soFar with
          | none => none
          | some soFar =>
            match skipSpaces rest with
            | ',' :: rest => inlineMembers fuel soFar rest
            | '\x7d' :: rest =>
              match soFar with
              | .table _ ms => some (.table .inline ms, rest)
              | _ => none
            | _ => none
      | _ => none
end

/-! ### Documents -/

/-- The lines of a document.  `header` is the path of the table the lines belong to. -/
def lines : Nat → List String → Setting → List Char → Option Setting
  | 0, _, _, _ => none
  | fuel + 1, header, document, cs =>
    match skipLines (cs.length + 1) cs with
    | none => none
    | some [] => some document
    | some ('[' :: '[' :: rest) =>
      match key (rest.length + 1) rest with
      | some (path, ']' :: ']' :: rest) =>
        match openRepeated path document, endLine rest with
        | some document, some rest => lines fuel path document rest
        | _, _ => none
      | _ => none
    | some ('[' :: rest) =>
      match key (rest.length + 1) rest with
      | some (path, ']' :: rest) =>
        match openHeader path document, endLine rest with
        | some document, some rest => lines fuel path document rest
        | _, _ => none
      | _ => none
    | some cs =>
      match key (cs.length + 1) cs with
      | some (path, '=' :: rest) =>
        let rest := skipSpaces rest
        match value (rest.length + 1) rest with
        | some (v, rest) =>
          match defineUnder header path v document, endLine rest with
          | some document, some rest => lines fuel header document rest
          | _, _ => none
        | none => none
      | _ => none

/-- A byte-order mark in front of a document does not count. -/
def skipMark : List Char → List Char
  | '\ufeff' :: cs => cs
  | cs => cs

/-- The document a text holds, if it is well formed. -/
def parse? (text : String) : Option Setting :=
  let cs := skipMark text.toList
  lines (cs.length + 1) [] (emptyTable .implied) cs

end LispMachine.Setting
