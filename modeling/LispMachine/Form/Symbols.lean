import LispMachine.Form.Basic

/-!
# Symbols

What a symbol evaluates to, and the code that loads it.
-/

namespace LispMachine.Form

/-- Loads the receiver of the current method. -/
def loadThis : FormM String := do
  let owner ← FormM.className
  FormM.emit (.load 0 (.cls owner))
  return owner

/-- Loads a field of the receiver. -/
def loadField (field : String) (ty : Ty) : FormM Unit := do
  let owner ← loadThis
  FormM.emit (.getField owner field ty)

/-- Loads a local of the current method. -/
def loadBinding (b : Binding) : FormM Unit :=
  match b.slot with
  | .local slot => FormM.emit (.load slot b.ty)
  | .this => FormM.emit (.load 0 b.ty)
  | .field name => loadField name b.ty
  | .none => FormM.fail (Error.internal (b.name ++ " has no storage in compiled code"))

/-- Loads a local of an enclosing method, which the current class captures. -/
def loadCapture (b : Binding) : FormM Unit := do
  let r ← FormM.capture b.name b.ty
  loadField r.field r.ty

/-- Expanders and special forms have no value. -/
def checkVarValue (w : World) (v : VarRef) : Except Error Unit :=
  if (w.flagsOf v).isExpander then
    .error (Error.compile ("Can't take value of a macro: #'" ++ v.toText))
  else
    match w.root? v with
    | some (.special f) => .error (Error.compile ("Can't take value of special form: " ++ f.title))
    | _ => .ok ()

/-- Loads what a name means; `span` is where it is written. -/
def compileName (name : String) (span : Span) : FormM Unit := do
  match ← resolve name with
  | .local .closure b => loadCapture b
  | .local _ b => loadBinding b
  | .var v =>
    FormM.ofExcept (checkVarValue (← FormM.world) v)
    FormM.emitCall { SiteSpec.new (.globalValue v.space v.name) [] .any with span := some span }
  | .nameSpace space => FormM.emitConstant (.nameSpace space)
  | .cls c => FormM.emitConstant (.cls c.name)
  | .staticField c f => FormM.emit (.getStatic c.name f.name f.ty)

def namelessSymbol : Error := Error.internal "symbol form without a name"

/-- Pushes what a symbol means. -/
def compileSymbol (d : Datum) : FormM Unit :=
  match d.symbol? with
  | some name => compileName name d.span
  | none => FormM.fail namelessSymbol

/-- What a name stands for. -/
def evaluateName (name : String) : FormM Value := do
  match ← resolve name with
  | .local _ b =>
    match b.value with
    | some v => return v
    | none => FormM.fail (Error.internal (name ++ " has no interpreted value"))
  | .var v =>
    let w ← FormM.world
    FormM.ofExcept (checkVarValue w v)
    FormM.ofExcept (w.valueOf v)
  | .nameSpace space => return .nameSpace space
  | .cls c => return .cls c.name
  | .staticField c f =>
    match f.constant with
    | some v => return v
    | none => FormM.fail (Error.linkage ("no static field " ++ c.name ++ "/" ++ f.name))

def evaluateSymbol (d : Datum) : FormM Value :=
  match d.symbol? with
  | some name => evaluateName name
  | none => FormM.fail namelessSymbol

end LispMachine.Form
