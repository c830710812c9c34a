import LispMachine.Form.Basic

/-!
# Namespaces and imports

`ns`, `in-ns` and `import` take effect when they are analysed, so that later forms see them; compiled code
repeats the effect when it runs.
-/

namespace LispMachine.Form

/-- A symbol, bare or quoted. -/
def symbolArg? (d : Datum) : Option String :=
  match d.symbol? with
  | some name => some name
  | none =>
    match d.list? with
    | some [head, quoted] => if head.symbol? = some "quote" then quoted.symbol? else none
    | _ => none

/-- The items of a list or a vector. -/
def sequence? (d : Datum) : Option (List Datum) := d.list? <|> d.vector?

/-! ### Entering a namespace -/

/-- The namespace an `in-ns` form names. -/
def spaceArg (d : Datum) : Except Error String :=
  match argsOf d with
  | [target] =>
    match symbolArg? target with
    | some name => .ok name
    | none => .error (target.readingError ("in-ns requires a symbol, got: " ++ target.toText))
  | _ => .error (d.readingError "in-ns takes exactly one argument")

/-- Makes a namespace current, creating it if need be. -/
def enterSpace (name : String) : FormM Unit := FormM.lift (modify fun w => w.enter name)

def compileInSpace (d : Datum) : FormM Unit := do
  let name ← FormM.ofExcept (spaceArg d)
  enterSpace name
  FormM.emit (.switchSpace name)

def evaluateInSpace (d : Datum) : FormM Value := do
  let name ← FormM.ofExcept (spaceArg d)
  enterSpace name
  return .nameSpace name

/-! ### Imports -/

/-- The package and the classes of an import spec in brackets; the whole may be quoted. -/
def importItems (items : List Datum) : List Datum :=
  match items with
  | [head, quoted] => if head.symbol? = some "quote" then (sequence? quoted).getD items else items
  | _ => items

/-- The full name of a class named in an import of a package. -/
def importedClass (package : String) (cls : Datum) : Except Error String :=
  match cls.symbol? with
  | some simple => .ok (package ++ "." ++ simple)
  | none => .error (cls.readingError ("Bad import class: " ++ cls.toText))

/-- The full names of the classes an import spec means. -/
def importNames (spec : Datum) : Except Error (List String) :=
  match symbolArg? spec with
  | some name => .ok [name]
  | none =>
    match sequence? spec with
    | none => .error (spec.readingError ("Bad import spec: " ++ spec.toText))
    | some items =>
      match importItems items with
      | [] => .error (spec.readingError "Empty import spec")
      | package :: classes =>
        match package.symbol? with
        | some name => classes.mapM (importedClass name)
        | none => .error (package.readingError ("Bad import package: " ++ package.toText))

/-- Imports the classes of some specs, and gives their names. -/
def importAll : List Datum → FormM (List String)
  | [] => return []
  | spec :: rest => do
    let names ← FormM.ofExcept (importNames spec)
    (names.forM FormM.importClass).atSpan spec.span
    return names ++ (← importAll rest)

/-- Code that imports classes again and leaves the last on the stack. -/
def emitImports : List String → FormM Unit
  | [] => FormM.emitConstant .nil
  | [last] => FormM.emit (.importClass last)
  | full :: rest => do
    FormM.emit (.importClass full)
    FormM.popValue
    emitImports rest

def compileImport (d : Datum) : FormM Unit := do emitImports (← importAll (argsOf d))

def evaluateImport (d : Datum) : FormM Value := do
  match (← importAll (argsOf d)).getLast? with
  | some full => return .cls full
  | none => return .nil

/-! ### The `ns` form -/

/-- What an `ns` form says: the name, what is imported, and what is required under which alias. -/
structure SpaceForm where
  name : String
  imports : List Datum := []
  requires : List (String × Option String) := []

def badRequire (spec : Datum) : Error := spec.readingError ("Bad require spec: " ++ spec.toText)

/-- A namespace that is required, and the alias it gets. -/
def requirement (spec : Datum) : Except Error (String × Option String) :=
  match symbolArg? spec with
  | some name => .ok (name, none)
  | none =>
    match spec.vector? with
    | some [name, key, short] =>
      match key.keyword?, name.symbol?, short.symbol? with
      | some "as", some name, some short => .ok (name, some short)
      | _, _, _ => .error (badRequire spec)
    | some [name] =>
      match name.symbol? with
      | some name => .ok (name, none)
      | none => .error (badRequire spec)
    | _ => .error (badRequire spec)

/-- Adds what a clause of an `ns` form says. -/
def SpaceForm.add (form : SpaceForm) (clause : Datum) : Except Error SpaceForm :=
  if clause.isStr then .ok form
  else
    match clause.list? with
    | some (head :: items) =>
      match head.keyword? with
      | some "import" => .ok { form with imports := form.imports ++ items }
      | some "require" => do
        return { form with requires := form.requires ++ (← items.mapM requirement) }
      | _ => .error (clause.readingError ("Unsupported ns clause: " ++ head.toText))
    | _ => .error (clause.readingError ("Bad ns clause: " ++ clause.toText))

/-- The parts of an `ns` form. -/
def spaceForm (d : Datum) : Except Error SpaceForm :=
  match argsOf d with
  | [] => .error (d.readingError "ns requires a name")
  | name :: clauses =>
    match name.symbol? with
    | some text => clauses.foldlM SpaceForm.add { name := text }
    | none => .error (name.readingError ("ns name must be a symbol, got: " ++ name.toText))

/-- Checks that a required namespace is there and gives it its alias in `space`. -/
def require (d : Datum) (space : String) (target : String × Option String) : FormM Unit := do
  if ((← FormM.world).space? target.1).isNone then
    FormM.fail (d.compileError ("Could not locate namespace: " ++ target.1))
  else
    match target.2 with
    | some short =>
      FormM.lift (modify fun w => w.changeSpace space fun s =>
        { s with aliases := s.aliases.insert short target.1 })
    | none => return ()

/-- Enters the namespace of an `ns` form, and gives the names of the classes imported. -/
def enterForm (d : Datum) (form : SpaceForm) : FormM (List String) := do
  enterSpace form.name
  form.requires.forM (require d form.name)
  importAll form.imports

/-- Code that imports a class again and leaves nothing. -/
def emitQuietImport (full : String) : FormM Unit := do
  FormM.emit (.importClass full)
  FormM.popValue

def compileSpaceForm (d : Datum) : FormM Unit := do
  let form ← FormM.ofExcept (spaceForm d)
  let imported ← enterForm d form
  FormM.emit (.switchSpace form.name)
  imported.forM emitQuietImport

def evaluateSpaceForm (d : Datum) : FormM Value := do
  let form ← FormM.ofExcept (spaceForm d)
  let _ ← enterForm d form
  return .nameSpace form.name

end LispMachine.Form
