import LispMachine.Error
import LispMachine.Settings.Parser
import LispMachine.Text.Basic
import LispMachine.Datum.Reader

/-!
# Options

What a session can be told: how often call sites may relink, whether classes are verified, which
warnings are raised, and the name of the source.  Defaults come from the environment; a settings
document goes on top.
-/

namespace LispMachine

/-- How often a call site may relink in each caching stage; at or below zero the stage is skipped. -/
structure Thresholds where
  monomorphic : Int := 4
  polymorphic : Int := 8
  megamorphic : Int := 64
deriving DecidableEq, Inhabited

/-- What the user can choose. -/
structure Options where
  callSites : Thresholds := {}
  verifyClasses : Bool := true
  warnOnHintMismatch : Bool := true
  printWarnings : Bool := false
  sourceName : Option String := none
deriving DecidableEq, Inhabited

namespace Options

/-- A whole number within 32 bits. -/
def smallInt? (n : Int) : Option Int := if -0x80000000 ≤ n && n < 0x80000000 then some n else none

/-- Variables of the environment. -/
abbrev Environment := String → Option String

def environmentInt? (env : Environment) (name : String) : Option Int :=
  (env name).bind fun text =>
    (Datum.decimalWord? (Text.trimChars text.toList)).bind fun n => smallInt? n.toInt

def environmentFlag? (env : Environment) (name : String) : Option Bool :=
  (env name).map fun text =>
    let word := String.ofList ((Text.trimChars text.toList).map Char.toLower)
    word == "1" || word == "true" || word == "yes" || word == "on"

/-- The options an environment asks for. -/
def ofEnvironment (env : Environment) : Options :=
  let base : Options := {}
  { base with
    callSites :=
      { monomorphic := (environmentInt? env "SPRIG_IC_MONO").getD base.callSites.monomorphic
        polymorphic := (environmentInt? env "SPRIG_IC_POLY").getD base.callSites.polymorphic
        megamorphic := (environmentInt? env "SPRIG_IC_MEGA").getD base.callSites.megamorphic }
    verifyClasses := (environmentFlag? env "SPRIG_VERIFY").getD base.verifyClasses
    warnOnHintMismatch := (environmentFlag? env "SPRIG_WARN_HINTS").getD base.warnOnHintMismatch }

/-! ### Settings documents -/

/-- A member of a section, by its key or, in an array, by its position. -/
def section? (key : String) (position : Nat) : Setting → Option (Option Setting)
  | .table o ms => some ((Setting.table o ms).member? key)
  | .array items => some items[position]?
  | _ => none

/-- An optional member that must have a given form when it is present. -/
def optionalMember {α : Type} (key : String) (position : Nat) (decode : Setting → Option α)
    (s : Setting) : Option (Option α) :=
  match section? key position s with
  | none => none
  | some none => some none
  | some (some v) => (decode v).map some

def int? : Setting → Option Int
  | .int n => smallInt? n
  | _ => none

def bool? : Setting → Option Bool
  | .bool b => some b
  | _ => none

def text? : Setting → Option String
  | .str s => some s
  | _ => none

/-- Thresholds of a document; missing ones take the defaults. -/
def thresholds? (s : Setting) : Option Thresholds := do
  let m ← optionalMember "monomorphic" 0 int? s
  let p ← optionalMember "polymorphic" 1 int? s
  let g ← optionalMember "megamorphic" 2 int? s
  let base : Thresholds := {}
  return { monomorphic := m.getD base.monomorphic
           polymorphic := p.getD base.polymorphic
           megamorphic := g.getD base.megamorphic }

/-- Options with the compiler section of a document on top. -/
def overlayCompiler? (options : Options) (s : Setting) : Option Options := do
  let verify ← optionalMember "verify_classes" 0 bool? s
  let warn ← optionalMember "warn_on_hint_mismatch" 1 bool? s
  let print ← optionalMember "print_warnings" 2 bool? s
  let source ← optionalMember "source_name" 3 text? s
  return { options with
    verifyClasses := verify.getD options.verifyClasses
    warnOnHintMismatch := warn.getD options.warnOnHintMismatch
    printWarnings := print.getD options.printWarnings
    sourceName := match source with
      | some name => some name
      | none => options.sourceName }

/-- The options with the settings of a document, if these have the right kinds. -/
def overlay? (options : Options) (document : Setting) : Option Options := do
  let options ← match document.member? "call_sites" with
    | some s => (thresholds? s).map fun callSites => { options with callSites }
    | none => some options
  match document.member? "compiler" with
  | some s => overlayCompiler? options s
  | none => some options

/-- What the message about a malformed document starts with. -/
def malformedMessage : String := "invalid compiler options"

/-- Options with a settings document on top. -/
def overlay (options : Options) (text : String) : Except Error Options :=
  match (Setting.parse? text).bind (overlay? options) with
  | some options => .ok options
  | none => .error (Error.runtime malformedMessage)

end Options

end LispMachine
