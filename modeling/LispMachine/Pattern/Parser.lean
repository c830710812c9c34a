import LispMachine.Pattern.Basic
import LispMachine.Double.Reader

/-!
# Pattern text

Reads a pattern from its text, or finds the text malformed.  The grammar has alternatives, groups with
names and flags, counted repetitions, bracketed classes with set operations, and escapes.  There is no
way to look around or to refer back to a group.
-/

namespace LispMachine.Pattern

/-- The switches in force at a place of the text. -/
structure Flags where
  anyCase : Bool := false
  multiLine : Bool := false
  dotAll : Bool := false
  verbose : Bool := false

/-- What a reader of a part gives: the part and the text behind it. -/
abbrev Parsed (α : Type) := Option (α × List Char)

def isMeta (c : Char) : Bool := "\\.+*?()|[]\x7b\x7d^$#&-~".toList.contains c

/-- Characters a backslash turns into themselves. -/
def isEscapable (c : Char) : Bool :=
  isMeta c || (c.toNat < 0x80 && !c.isAlphanum && c != '<' && c != '>')

/-! ### Escapes -/

def hexValue? (c : Char) : Option Nat :=
  let n := c.toNat
  if c.isDigit then some (n - 0x30)
  else if 0x61 ≤ n && n ≤ 0x66 then some (n - 0x57)
  else if 0x41 ≤ n && n ≤ 0x46 then some (n - 0x37)
  else none

def hexNumber? (cs : List Char) : Option Nat :=
  if cs.isEmpty then none
  else cs.foldl (fun acc c => acc.bind fun n => (hexValue? c).map fun d => 16 * n + d) (some 0)

/-- The character of a code. -/
def scalar? (n : Nat) : Option Char :=
  if n ≤ 0x10FFFF && !(0xD800 ≤ n && n < 0xE000) then some (Char.ofNat n) else none

/-- A code point in hexadecimal: in braces, or of exactly `width` digits. -/
def hexEscape (width : Nat) : List Char → Option (Char × List Char)
  | '\x7b' :: cs =>
    match cs.dropWhile (· != '\x7d') with
    | _ :: rest => do
      let n ← hexNumber? (cs.takeWhile (· != '\x7d'))
      let c ← scalar? n
      return (c, rest)
    | [] => none
  | cs =>
    if cs.length < width then none
    else do
      let n ← hexNumber? (cs.take width)
      let c ← scalar? n
      return (c, cs.drop width)

/-- Sets named by a property. -/
def property? (name : String) : Option CharSet :=
  if name == "Nd" || name == "Decimal_Number" then some CharSet.digits
  else if name == "White_Space" || name == "Whitespace" then some CharSet.blanks
  else if name == "Any" then some CharSet.all
  else if name == "ASCII" then some (CharSet.range 0 0x7F)
  else none

/-- A property behind its letter: one letter, or a name in braces, possibly negated. -/
def propertyEscape (negated : Bool) : List Char → Parsed CharSet
  | '\x7b' :: cs =>
    match cs.dropWhile (· != '\x7d') with
    | _ :: rest =>
      match cs.takeWhile (· != '\x7d') with
      | '^' :: name =>
        (property? (String.ofList name)).map fun s => (s.negateIf (!negated), rest)
      | name => (property? (String.ofList name)).map fun s => (s.negateIf negated, rest)
    | [] => none
  | c :: cs => (property? c.toString).map fun s => (s.negateIf negated, cs)
  | [] => none

/-- What an escape stands for. -/
inductive Escape where
  | char (c : Char)
  | set (s : CharSet)
  | assert (a : Assertion)

/-- The named word edges in braces. -/
def wordEdge (cs : List Char) : Escape × List Char :=
  match cs with
  | '\x7b' :: rest =>
    let name := String.ofList (rest.takeWhile (· != '\x7d'))
    let behind := (rest.dropWhile (· != '\x7d')).drop 1
    if name == "start" then (.assert .wordStart, behind)
    else if name == "end" then (.assert .wordStop, behind)
    else if name == "start-half" then (.assert .wordStartHalf, behind)
    else if name == "end-half" then (.assert .wordStopHalf, behind)
    else (.assert .wordEdge, cs)
  | _ => (.assert .wordEdge, cs)

/-- The escape behind a backslash. -/
def escape : List Char → Parsed Escape
  | [] => none
  | c :: cs =>
    match c with
    | 'd' => some (.set CharSet.digits, cs)
    | 'D' => some (.set CharSet.digits.complement, cs)
    | 's' => some (.set CharSet.blanks, cs)
    | 'S' => some (.set CharSet.blanks.complement, cs)
    | 'w' => some (.set CharSet.words, cs)
    | 'W' => some (.set CharSet.words.complement, cs)
    | 'p' => (propertyEscape false cs).map fun (s, r) => (.set s, r)
    | 'P' => (propertyEscape true cs).map fun (s, r) => (.set s, r)
    | 'n' => some (.char '\n', cs)
    | 't' => some (.char '\t', cs)
    | 'r' => some (.char '\r', cs)
    | 'a' => some (.char '\x07', cs)
    | 'f' => some (.char '\x0c', cs)
    | 'v' => some (.char '\x0b', cs)
    | 'A' => some (.assert .textStart, cs)
    | 'z' => some (.assert .textEnd, cs)
    | 'b' => some (wordEdge cs)
    | 'B' => some (.assert .wordInside, cs)
    | '<' => some (.assert .wordStart, cs)
    | '>' => some (.assert .wordStop, cs)
    | 'x' => (hexEscape 2 cs).map fun (d, r) => (.char d, r)
    | 'u' => (hexEscape 4 cs).map fun (d, r) => (.char d, r)
    | 'U' => (hexEscape 8 cs).map fun (d, r) => (.char d, r)
    | c => if isEscapable c then some (.char c, cs) else none

/-! ### Bracketed classes -/

/-- Blanks and comments, skipped where the verbose switch is on. -/
def skipVerbose (flags : Flags) : Nat → List Char → List Char
  | 0, cs => cs
  | fuel + 1, cs =>
    if !flags.verbose then cs
    else
      match cs with
      | '#' :: rest => skipVerbose flags fuel ((rest.dropWhile (· != '\n')).drop 1)
      | c :: rest => if Text.isBlank c then skipVerbose flags fuel rest else cs
      | [] => []

/-- One character or set inside brackets. -/
def classItem : List Char → Parsed (Char ⊕ CharSet)
  | '\\' :: cs =>
    match escape cs with
    | some (.char c, rest) => some (.inl c, rest)
    | some (.set s, rest) => some (.inr s, rest)
    | _ => none
  | c :: cs => some (.inl c, cs)
  | [] => none

/-- A bracketed ASCII class such as `[:alpha:]`, behind its first bracket and colon. -/
def asciiClass (cs : List Char) : Parsed CharSet :=
  let (negated, cs) := match cs with
    | '^' :: rest => (true, rest)
    | cs => (false, cs)
  match cs.dropWhile (· != ':') with
  | ':' :: ']' :: rest =>
    (CharSet.ascii? (String.ofList (cs.takeWhile (· != ':')))).map fun s => (s.negateIf negated, rest)
  | _ => none

/-- How the set read so far combines with the one that follows. -/
def combine (op : Char) (left right : CharSet) : CharSet :=
  if op == '&' then left.inter right
  else if op == '-' then left.diff right
  else if op == '~' then left.symmDiff right
  else left.union right

mutual
/-- A class behind its opening bracket. -/
def bracketed (flags : Flags) : Nat → List Char → Parsed CharSet
  | 0, _ => none
  | fuel + 1, cs =>
    let cs := skipVerbose flags cs.length cs
    let (negated, cs) := match cs with
      | '^' :: rest => (true, skipVerbose flags rest.length rest)
      | cs => (false, cs)
    let dashes := cs.takeWhile (· == '-')
    let cs := cs.dropWhile (· == '-')
    let start := if dashes.isEmpty then CharSet.empty else CharSet.single '-'
    let (start, cs) := match dashes.isEmpty, cs with
      | true, ']' :: rest => (CharSet.single ']', rest)
      | _, cs => (start, cs)
    (classItems flags fuel CharSet.empty '|' start cs).map fun (s, r) => (s.negateIf negated, r)

/-- The items of a class up to its closing bracket.  `left` and `op` are what stands in front of the
last set operation, `set` the union of the items since. -/
def classItems (flags : Flags) : Nat → CharSet → Char → CharSet → List Char → Parsed CharSet
  | 0, _, _, _, _ => none
  | fuel + 1, left, op, set, cs =>
    match skipVerbose flags cs.length cs with
    | [] => none
    | ']' :: rest => some (combine op left set, rest)
    | '[' :: ':' :: rest =>
      match asciiClass rest with
      | some (s, rest) => classItems flags fuel left op (set.union s) rest
      | none =>
        match bracketed flags fuel (':' :: rest) with
        | some (s, rest) => classItems flags fuel left op (set.union s) rest
        | none => none
    | '[' :: rest =>
      match bracketed flags fuel rest with
      | some (s, rest) => classItems flags fuel left op (set.union s) rest
      | none => none
    | '&' :: '&' :: rest => classItems flags fuel (combine op left set) '&' CharSet.empty rest
    | '-' :: '-' :: rest => classItems flags fuel (combine op left set) '-' CharSet.empty rest
    | '~' :: '~' :: rest => classItems flags fuel (combine op left set) '~' CharSet.empty rest
    | cs =>
      match classItem cs with
      | none => none
      | some (.inr s, rest) => classItems flags fuel left op (set.union s) rest
      | some (.inl c, rest) =>
        match skipVerbose flags rest.length rest with
        | '-' :: behind =>
          match skipVerbose flags behind.length behind with
          | [] => none
          | ']' :: _ => classItems flags fuel left op (set.union (.single c)) rest
          | '-' :: _ => classItems flags fuel left op (set.union (.single c)) rest
          | behind =>
            match classItem behind with
            | some (.inl d, rest) =>
              if c.toNat ≤ d.toNat then
                classItems flags fuel left op (set.union (.range c.toNat d.toNat)) rest
              else none
            | _ => none
        | _ => classItems flags fuel left op (set.union (.single c)) rest
end

/-! ### Repetitions -/

/-- A count in braces, behind the opening brace. -/
def counted (cs : List Char) : Option ((Nat × Option Nat) × List Char) :=
  match cs.dropWhile (· != '\x7d') with
  | [] => none
  | _ :: rest =>
    let inside := (cs.takeWhile (· != '\x7d')).filter fun c => !Text.isBlank c
    let first := inside.takeWhile Char.isDigit
    let count? (ds : List Char) : Option Nat :=
      let n := Double.digitsValue ds
      if n < 0x100000000 then some n else none
    match inside.dropWhile Char.isDigit with
    | [] =>
      if first.isEmpty then none
      else (count? first).map fun n => ((n, some n), rest)
    | ',' :: second =>
      if !second.all Char.isDigit || (first.isEmpty && second.isEmpty) then none
      else do
        let n ← count? first
        if second.isEmpty then return ((n, none), rest)
        let m ← count? second
        if m < n then none else return ((n, some m), rest)
    | _ => none

/-- Repetition marks behind a piece. -/
def repetitions (flags : Flags) : Nat → Pattern → List Char → Parsed Pattern
  | 0, p, cs => some (p, cs)
  | fuel + 1, p, cs =>
    let lazy (cs : List Char) : List Char := match cs with
      | '?' :: rest => rest
      | cs => cs
    match skipVerbose flags cs.length cs with
    | '*' :: rest => repetitions flags fuel (.times p 0 none) (lazy rest)
    | '+' :: rest => repetitions flags fuel (.times p 1 none) (lazy rest)
    | '?' :: rest => repetitions flags fuel (.times p 0 (some 1)) (lazy rest)
    | '\x7b' :: rest =>
      match counted rest with
      | some ((least, most), rest) => repetitions flags fuel (.times p least most) (lazy rest)
      | none => none
    | cs => some (p, cs)

/-! ### Groups -/

/-- Switches up to a colon or a closing parenthesis.  `on` turns false behind a dash; `seen` holds the
letters read. -/
def switches (on : Bool) (flags : Flags) (seen : List Char) : List Char → Parsed (Flags × Bool)
  | [] => none
  | ':' :: rest => if seen.head? == some '-' then none else some ((flags, true), rest)
  | ')' :: rest =>
    if seen.isEmpty || seen.head? == some '-' then none else some ((flags, false), rest)
  | c :: rest =>
    if seen.contains c then none
    else if c == '-' then switches false flags (c :: seen) rest
    else if c == 'i' then switches on { flags with anyCase := on } (c :: seen) rest
    else if c == 'm' then switches on { flags with multiLine := on } (c :: seen) rest
    else if c == 's' then switches on { flags with dotAll := on } (c :: seen) rest
    else if c == 'x' then switches on { flags with verbose := on } (c :: seen) rest
    else if c == 'U' || c == 'u' || c == 'R' then switches on flags (c :: seen) rest
    else none

/-- A group name up to its closing angle. -/
def groupName (cs : List Char) : Parsed String :=
  let name := cs.takeWhile (· != '>')
  match name, cs.dropWhile (· != '>') with
  | c :: _, _ :: rest =>
    if (c.isAlpha || c == '_' || (c.toNat ≥ 0x80 && Text.isWordChar c)) &&
        name.all fun c => c.isAlphanum || c == '_' || c == '.' || c == '[' || c == ']' ||
          (c.toNat ≥ 0x80 && Text.isWordChar c) then
      some (String.ofList name, rest)
    else none
  | _, _ => none

/-- How a group opens: its switches, whether it has contents, and its name. -/
def groupStart (flags : Flags) : List Char → Parsed (Flags × Bool × Option String)
  | '?' :: 'P' :: '<' :: cs => (groupName cs).map fun (n, r) => ((flags, true, some n), r)
  | '?' :: '<' :: c :: cs =>
    if c == '=' || c == '!' then none
    else (groupName (c :: cs)).map fun (n, r) => ((flags, true, some n), r)
  | '?' :: cs => (switches true flags [] cs).map fun ((f, body), r) => ((f, body, none), r)
  | cs => some ((flags, true, none), cs)

/-! ### Patterns -/

/-- Any character, line ends included or not. -/
def dot (flags : Flags) : Pattern :=
  .chars (if flags.dotAll then CharSet.all else (CharSet.single '\n').complement) false

mutual
/-- Alternatives up to the end of the text or a closing parenthesis, which is left.  `names` are the
group names in use. -/
def alternatives (flags : Flags) (names : List String) :
    Nat → List Char → Parsed (Pattern × List String)
  | 0, _ => none
  | fuel + 1, cs =>
    match pieces flags names fuel .empty cs with
    | none => none
    | some ((p, names, flags), '|' :: rest) =>
      match alternatives flags names fuel rest with
      | some ((q, names), rest) => some ((.alt p q, names), rest)
      | none => none
    | some ((p, names, _), rest) => some ((p, names), rest)

/-- Pieces in sequence, `before` being those already read. -/
def pieces (flags : Flags) (names : List String) :
    Nat → Pattern → List Char → Parsed (Pattern × List String × Flags)
  | 0, _, _ => none
  | fuel + 1, before, cs =>
    let go (p : Pattern) (rest : List Char) : Parsed (Pattern × List String × Flags) :=
      match repetitions flags rest.length p rest with
      | some (p, rest) => pieces flags names fuel (.seq before p) rest
      | none => none
    match skipVerbose flags cs.length cs with
    | [] => some ((before, names, flags), [])
    | '|' :: rest => some ((before, names, flags), '|' :: rest)
    | ')' :: rest => some ((before, names, flags), ')' :: rest)
    | '(' :: rest =>
      match groupStart flags rest with
      | none => none
      | some ((inner, false, _), rest) => pieces inner names fuel before rest
      | some ((inner, true, name), rest) =>
        match name with
        | some n =>
          if names.contains n then none
          else
            match alternatives inner (n :: names) fuel rest with
            | some ((p, names), ')' :: rest) =>
              match repetitions flags rest.length p rest with
              | some (p, rest) => pieces flags names fuel (.seq before p) rest
              | none => none
            | _ => none
        | none =>
          match alternatives inner names fuel rest with
          | some ((p, names), ')' :: rest) =>
            match repetitions flags rest.length p rest with
            | some (p, rest) => pieces flags names fuel (.seq before p) rest
            | none => none
          | _ => none
    | '[' :: rest =>
      match bracketed flags (rest.length + 1) rest with
      | some (s, rest) => go (.chars s flags.anyCase) rest
      | none => none
    | '*' :: _ => none
    | '+' :: _ => none
    | '?' :: _ => none
    | '\x7b' :: _ => none
    | '.' :: rest => go (dot flags) rest
    | '^' :: rest => go (.assert (if flags.multiLine then .lineStart else .textStart)) rest
    | '$' :: rest => go (.assert (if flags.multiLine then .lineEnd else .textEnd)) rest
    | '\\' :: rest =>
      match escape rest with
      | some (.char c, rest) => go (.chars (.single c) flags.anyCase) rest
      | some (.set s, rest) => go (.chars s flags.anyCase) rest
      | some (.assert a, rest) => go (.assert a) rest
      | none => none
    | c :: rest => go (.chars (.single c) flags.anyCase) rest
end

/-- The pattern a text denotes, if it is well formed. -/
def parse? (text : String) : Option Pattern :=
  let cs := text.toList
  match alternatives {} [] (2 * cs.length + 2) cs with
  | some ((p, _), []) => some p
  | _ => none

/-- The text is a regular expression. -/
def isWellFormed (text : String) : Bool := (parse? text).isSome

end LispMachine.Pattern
