import LispMachine.Value.Printer

/-!
# Errors

What can go wrong, where, and in which text.  Some errors can be caught by programs: those that arise
while a program runs, and values that it throws.
-/

namespace LispMachine

/-- The stages of the work an error can come from. -/
inductive ErrorKind where
  | reading
  | compile
  | unbound
  | linkage
  | internal
  | classFormat
  | runtime
  | arity
deriving DecidableEq, Inhabited

namespace ErrorKind

/-- What the text of an error starts with. -/
def heading : ErrorKind → String
  | .reading => "Syntax error: "
  | .compile => "Compile error: "
  | .unbound => "Unable to resolve symbol: "
  | .linkage => "Linkage error: "
  | .internal => "Internal compiler error: "
  | .classFormat => "Class format error: "
  | .runtime => "Runtime error: "
  | .arity => "Arity mismatch: "

end ErrorKind

/-- Why work stopped: something failed, or a program threw a value. -/
inductive Cause where
  | failure (kind : ErrorKind) (message : String)
  | thrown (value : Value)
deriving Inhabited

/-- An error with its place, once that is known. -/
structure Error where
  cause : Cause
  span : Option Span := none
  source : Option String := none
deriving Inhabited

namespace Error

def of (kind : ErrorKind) (message : String) : Error := { cause := .failure kind message }

def reading (message : String) : Error := of .reading message
def compile (message : String) : Error := of .compile message
def unbound (message : String) : Error := of .unbound message
def linkage (message : String) : Error := of .linkage message
def internal (message : String) : Error := of .internal message
def classFormat (message : String) : Error := of .classFormat message
def runtime (message : String) : Error := of .runtime message
def arity (message : String) : Error := of .arity message
def thrown (value : Value) : Error := { cause := .thrown value }

/-- Gives the error a place unless it has one. -/
def atSpan (span : Span) (e : Error) : Error :=
  if e.span.isSome then e else { e with span := some span }

/-- Gives the error a source unless it has one. -/
def inSource (source : Option String) (e : Error) : Error :=
  if e.source.isSome then e else { e with source }

/-- Errors that programs may catch. -/
def isCatchable (e : Error) : Bool :=
  match e.cause with
  | .thrown _ => true
  | .failure kind _ => kind == .linkage || kind == .runtime || kind == .arity

/-- The message alone; `text` writes a thrown value. -/
def messageWith (text : Value → String) (e : Error) : String :=
  match e.cause with
  | .failure _ message => message
  | .thrown v => text v

/-- The place, as it follows a message. -/
def placeText (e : Error) : String :=
  match e.span, e.source with
  | none, _ => ""
  | some s, some source => " (" ++ source ++ ":" ++ toString s.line ++ ":" ++ toString s.col ++ ")"
  | some s, none => " (at " ++ toString s.line ++ ":" ++ toString s.col ++ ")"

/-- The whole text; `text` writes a thrown value. -/
def toTextWith (text : Value → String) (e : Error) : String :=
  match e.cause with
  | .failure kind message => kind.heading ++ message ++ e.placeText
  | .thrown v => "Thrown: " ++ text v

/-- The text for a terminal, with a red tag in front. -/
def reportWith (text : Value → String) (e : Error) : String :=
  "\x1b[31m[ERROR]\x1b[0m " ++ e.toTextWith text

end Error

namespace Datum

/-- A reading error at the place of a datum. -/
def readingError (d : Datum) (message : String) : Error := (Error.reading message).atSpan d.span

/-- A compile error at the place of a datum. -/
def compileError (d : Datum) (message : String) : Error := (Error.compile message).atSpan d.span

end Datum

end LispMachine
