import LispMachine.Names

/-!
# Symbols

Names with an optional qualifier, and the textual rules on names: where a qualified name splits, which
names may denote classes or namespaces, and how a name is spelled inside a generated class name.
-/

namespace LispMachine

/-- A name, possibly qualified by a namespace or class. -/
structure Symbol where
  qualifier : Option String
  name : String
deriving DecidableEq, Inhabited

/-- Splits at the first slash, when something stands on both sides of it. -/
def splitQualified (text : String) : Option String × String :=
  let cs := text.toList
  let before := cs.takeWhile (· != '/')
  match cs.dropWhile (· != '/') with
  | _ :: after =>
    if before.isEmpty || after.isEmpty then (none, text)
    else (some (String.ofList before), String.ofList after)
  | [] => (none, text)

namespace Symbol

def simple (name : String) : Symbol := ⟨none, name⟩

/-- The qualifier is what `splitQualified` splits off. -/
def parse (text : String) : Symbol :=
  let (qualifier, name) := splitQualified text
  ⟨qualifier, name⟩

/-- There is a qualifier. -/
def isQualified (s : Symbol) : Bool := s.qualifier.isSome

/-- The symbol as it is written. -/
def toText (s : Symbol) : String :=
  match s.qualifier with
  | some q => q ++ "/" ++ s.name
  | none => s.name

end Symbol

/-- Names with a dot inside may denote classes or namespaces. -/
def looksDotted (name : String) : Bool :=
  let cs := name.toList
  cs.contains '.' && cs.head? != some '.' && cs.getLast? != some '.'

/-- How one character of a name is spelled inside a class or field name. -/
def mungeChar (c : Char) : List Char :=
  match c with
  | '-' => ['_']
  | '?' => "_QMARK_".toList
  | '!' => "_BANG_".toList
  | '*' => "_STAR_".toList
  | '+' => "_PLUS_".toList
  | '>' => "_GT_".toList
  | '<' => "_LT_".toList
  | '=' => "_EQ_".toList
  | '/' => "_SLASH_".toList
  | '.' => ['_']
  | c => [c]

/-- A name in the spelling of class and field names. -/
def munge (name : String) : String := String.ofList (name.toList.flatMap mungeChar)

/-- The part of a class name behind its last dot. -/
def simpleClassName (name : String) : String :=
  String.ofList (name.toList.reverse.takeWhile (· != '.')).reverse

end LispMachine
