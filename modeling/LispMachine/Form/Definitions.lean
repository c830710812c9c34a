import LispMachine.Form.Symbols

/-!
# Definitions and assignments

`def` makes a var of the current namespace and may bind it; `defmacro` is a `def` of a function whose var
is flagged as an expander; `set!` rebinds a var or a mutable field; `var` gives the var itself.
-/

namespace LispMachine.Form

/-! ### Definitions -/

/-- What a `def` says: the symbol with its metadata, its name, and the form of the value. -/
structure Definition where
  target : Datum
  name : String
  init : Option Datum

/-- A definition from its target and its initial value. -/
def namedDefinition (target : Datum) (init : Option Datum) : Except Error Definition :=
  match target.symbol? with
  | some name => .ok { target, name, init }
  | none => .error (target.readingError "First argument to def must be a Symbol")

/-- The parts of a `def`; a text may stand before the value. -/
def definitionParts (d : Datum) : Except Error Definition :=
  match argsOf d with
  | [] => .error (d.readingError "Too few arguments to def")
  | [target] => namedDefinition target none
  | [target, init] => namedDefinition target (some init)
  | [target, doc, init] =>
    if doc.isStr then namedDefinition target (some init)
    else .error (d.readingError "Too many arguments to def")
  | _ => .error (d.readingError "Too many arguments to def")

/-- The var of a name in the current namespace, which a qualifier has to agree with. -/
def internTarget (target : Datum) (name : String) : FormM VarRef := do
  let space := (← FormM.world).current
  let simple ← match splitQualified name with
    | (none, simple) => pure simple
    | (some q, simple) =>
      if q = space then pure simple
      else FormM.fail (target.compileError "Can't create defs outside of current ns")
  FormM.lift (Action.change fun w => w.intern space simple)

def compileDef (h : Handlers) (d : Datum) : FormM Unit := do
  let p ← FormM.ofExcept (definitionParts d)
  let v ← internTarget p.target p.name
  match p.init with
  | some init => compileBoxed h init
  | none => pure ()
  FormM.emit (.defVar v.space v.name (.ofFlags p.target.flags) p.init.isSome)

def evaluateDef (h : Handlers) (d : Datum) : FormM Value := do
  let p ← FormM.ofExcept (definitionParts d)
  let v ← internTarget p.target p.name
  let value ← match p.init with
    | some init => some <$> FormM.withTail false (h.evaluate init)
    | none => pure none
  FormM.lift (modify fun w => w.define v value (.ofFlags p.target.flags))
  return .var v

/-- A `defmacro` as the `def` of a flagged var. -/
def expanderDefinition (d : Datum) : Except Error Datum :=
  match argsOf d with
  | [] => .error (d.readingError "defmacro requires a name")
  | target :: rest =>
    match target.symbol? with
    | none => .error (target.readingError "First argument to defmacro must be a symbol")
    | some name =>
      let body := Expansion.skipDoc rest
      let fnForm := Expansion.formOf "fn" (.symbol name target.span :: body) d.span
      .ok (Expansion.formOf "def" [target.addFlag "macro", fnForm] d.span)

/-! ### Assignments -/

/-- The target of an assignment, its name, and the form of the value. -/
def assignmentParts (d : Datum) : Except Error (Datum × String × Datum) :=
  match argsOf d with
  | [target, value] =>
    match target.symbol? with
    | some name => .ok (target, name, value)
    | none => .error (target.compileError ("Invalid assignment target: " ++ target.toText))
  | _ => .error (d.readingError "Malformed assignment, expecting (set! target val)")

/-- Final vars keep their values. -/
def checkAssignable (w : World) (v : VarRef) (target : Datum) : Except Error Unit :=
  if (w.flagsOf v).isFinal then
    .error (target.compileError ("Cannot set! final var: #'" ++ v.toText))
  else .ok ()

/-- The error of assigning to what a name means, if it is no var and no mutable field. -/
def cannotAssign (target : Datum) (name : String) : Resolution → Error
  | .local .. => target.compileError ("Cannot assign to non-mutable: " ++ name)
  | _ => target.compileError ("Invalid assignment target: " ++ name)

/-- Stores a value into a mutable field of the receiver and leaves it on the stack. -/
def compileFieldAssignment (h : Handlers) (b : Binding) (field : String) (value : Datum) :
    FormM Unit := do
  let owner ← loadThis
  FormM.withTail false (h.compile value)
  (FormM.coerceTop b.ty).atSpan value.span
  let temp ← FormM.allocSlot
  FormM.emit (.store temp b.ty)
  FormM.emit (.load temp b.ty)
  FormM.emit (.putField owner field b.ty)
  FormM.emit (.load temp b.ty)
  FormM.modifyCode fun c => c.freeSlot temp

def compileSet (h : Handlers) (d : Datum) : FormM Unit := do
  let (target, name, value) ← FormM.ofExcept (assignmentParts d)
  match ← resolve name with
  | .var v =>
    FormM.ofExcept (checkAssignable (← FormM.world) v target)
    compileBoxed h value
    FormM.emit (.setVar v.space v.name)
  | .local scope b =>
    if scope = .field && b.isMutable then
      match b.slot with
      | .field field => compileFieldAssignment h b field value
      | _ => FormM.fail (Error.internal ("mutable field " ++ name ++ " has no field slot"))
    else FormM.fail (cannotAssign target name (.local scope b))
  | other => FormM.fail (cannotAssign target name other)

def evaluateSet (h : Handlers) (d : Datum) : FormM Value := do
  let (target, name, value) ← FormM.ofExcept (assignmentParts d)
  match ← resolve name with
  | .var v =>
    FormM.ofExcept (checkAssignable (← FormM.world) v target)
    let result ← FormM.withTail false (h.evaluate value)
    FormM.lift (modify fun w => w.bindRoot v result)
    return result
  | other => FormM.fail (cannotAssign target name other)

/-! ### Vars as values -/

/-- The var that a `var` form names. -/
def namedVar (d : Datum) : FormM VarRef := do
  match argsOf d with
  | [target] =>
    match target.symbol? with
    | none => FormM.fail (target.readingError ("var requires a symbol, got: " ++ target.toText))
    | some name =>
      match ← FormM.lookup name with
      | some (.var v) => return v
      | _ =>
        FormM.fail (target.compileError ("Unable to resolve var: " ++ name ++ " in this context"))
  | _ => FormM.fail (d.readingError "var takes exactly one argument")

def compileVar (d : Datum) : FormM Unit := do
  let v ← namedVar d
  FormM.emit (.varRef v.space v.name)

end LispMachine.Form
