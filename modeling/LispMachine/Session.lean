import LispMachine.Datum.Reader
import LispMachine.Form.Analysis
import LispMachine.Libraries.Standard

/-!
# Sessions

Running texts in a world.  Interpreting evaluates each top-level form at once.  Compiling makes a class of
each, with one static method, and runs that; a top-level `do` is taken apart first, so that expanders its
earlier forms define apply to the later ones.
-/

namespace LispMachine.Session

/-- Works on a top-level form, with no scopes around it. -/
def onTopLevel {α : Type} (m : FormM α) : Action α := fun w =>
  match m { world := w } with
  | .ok a s => .ok a s.world
  | .error e s => .error e s.world

/-! ### Interpreting -/

/-- Evaluates a top-level form. -/
def evaluateTop [Libraries] (fuel : Nat) (d : Datum) : Action Value :=
  onTopLevel ((Form.handlers fuel).evaluate d)

/-! ### Compiling -/

/-- The forms of a top-level `do`, if the form is one. -/
def block? (d : Datum) : FormM (Option (List Datum)) := do
  match d.list? with
  | some (head :: forms) =>
    match head.symbol? with
    | none => return none
    | some name =>
      match ← FormM.lookup name with
      | some (.var v) =>
        match (← FormM.world).root? v with
        | some (.special .doForm) => return some forms
        | _ => return none
      | _ => return none
  | _ => return none

/-- The method that a compiled top-level form becomes. -/
def runPlan (d : Datum) : Form.MethodPlan :=
  { name := Names.run, isStatic := true, recurs := false, body := [d] }

/-- Compiles a form into a class of its own. -/
def buildTop (h : Handlers) (d : Datum) : FormM ClassFile := do
  let file := { ← Form.newFile (← Form.generatedName .eval) Names.object with
    flags := { isFinal := true } }
  let (file, _) ← Form.buildClass h file .anonymous [fun _ => runPlan d] .none
  return file

/-- Compiles a form and loads its class. -/
def compileClass [Libraries] (h : Handlers) (d : Datum) : FormM ClassInfo := do
  Form.loadClass (← buildTop h d)

/-- Runs the method of a compiled form. -/
def runClass (call : Caller) (cls : ClassInfo) : Action Value :=
  match cls.methods.find? fun m => m.name == Names.run && m.isStatic with
  | some m => call (.invoke cls m none [])
  | none => Action.fail (Error.internal (cls.name ++ " has no run method"))

/-- The expansion of a form as a block of forms, or compiled. -/
def blockOrClass [Libraries] (h : Handlers) (d : Datum) : FormM (List Datum ⊕ ClassInfo) := do
  let (expansion, _) ← Expansion.expand h.call d
  match ← block? expansion with
  | some forms => return .inl forms
  | none => return .inr (← compileClass h expansion)

/-- Works through forms and gives the value of the last. -/
def inSequence (run : Datum → Action Value) (forms : List Datum) : Action Value :=
  forms.foldlM (fun _ d => run d) .nil

/-- Compiles a top-level form and runs it. -/
def compileTop [Libraries] : Nat → Datum → Action Value
  | 0, _ => throw .outOfFuel
  | fuel + 1, d => do
    let h := Form.handlers fuel
    match ← onTopLevel (blockOrClass h d) with
    | .inl forms => inSequence (compileTop fuel) forms
    | .inr cls => runClass h.call cls

/-! ### Texts -/

/-- Errors tell the source a text has in this world. -/
def inNamedSource {α : Type} (m : Action α) : Action α := fun w =>
  match m w with
  | .error (.error e) w => .error (.error (e.inSource w.options.sourceName)) w
  | r => r

/-- Reads a text and works through its forms. -/
def runText (run : Datum → Action Value) (text : String) : Action Value := do
  let forms ← Action.ofExcept (Datum.readAll (← get).options.sourceName text)
  inSequence (fun d => inNamedSource (run d)) forms

/-- Interprets a text and gives the value of its last form. -/
def evalText [Libraries] (text : String) : Action Value := runText (evaluateTop Machine.plenty) text

/-- Compiles a text form by form, running each, and gives the value of its last form. -/
def compileText [Libraries] (text : String) : Action Value := runText (compileTop Machine.plenty) text

end LispMachine.Session
