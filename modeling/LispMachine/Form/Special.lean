import LispMachine.Form.Branches
import LispMachine.Form.Definitions
import LispMachine.Form.Exceptions
import LispMachine.Form.Members
import LispMachine.Form.Proxies
import LispMachine.Form.Spaces
import LispMachine.Form.Template

/-!
# Special forms

The table of special forms: how each is compiled and how it is evaluated.
-/

namespace LispMachine.Form

/-- The datum that is quoted. -/
def quotedDatum (d : Datum) : Except Error Datum :=
  match argsOf d with
  | [quoted] => .ok quoted
  | _ => .error (d.readingError "quote takes exactly one argument")

def outsideTemplate (f : SpecialForm) (d : Datum) : Error :=
  d.compileError (f.title ++ " used outside of syntax-quote")

/-- Compiles a special form. -/
def compileSpecial [Libraries] (h : Handlers) (f : SpecialForm) (d : Datum) : FormM Unit :=
  match f with
  | .quote => do FormM.emitConstant (← FormM.ofExcept (quotedDatum d >>= quotedConstant))
  | .syntaxQuote => Template.compile h d
  | .unquote => FormM.fail (outsideTemplate f d)
  | .unquoteSplicing => FormM.fail (outsideTemplate f d)
  | .ifForm => compileIf h d
  | .doForm => compileBody h (argsOf d)
  | .letForm => compileLet h d
  | .loopForm => compileLoop h d
  | .recurForm => compileRecur h d
  | .caseForm => compileCase h d
  | .throwForm => compileThrow h d
  | .tryForm => compileTry h d
  | .fnForm => compileFn h d
  | .typeForm => compileType h d
  | .protocolForm => compileProtocol d
  | .proxyForm => compileProxy h d
  | .newForm => compileNew h d
  | .dotForm => compileDot h d
  | .instanceForm => compileInstanceTest h d
  | .defForm => compileDef h d
  | .defMacro => do h.compile (← FormM.ofExcept (expanderDefinition d))
  | .setForm => compileSet h d
  | .varForm => compileVar d
  | .nsForm => compileSpaceForm d
  | .inNsForm => compileInSpace d
  | .importForm => compileImport d

/-- Evaluates a special form. -/
def evaluateSpecial [Libraries] (h : Handlers) (f : SpecialForm) (d : Datum) : FormM Value :=
  match f with
  | .quote => do return (← FormM.ofExcept (quotedDatum d)).toValue
  | .syntaxQuote => Template.evaluate h d
  | .unquote => FormM.fail (outsideTemplate f d)
  | .unquoteSplicing => FormM.fail (outsideTemplate f d)
  | .ifForm => evaluateIf h d
  | .doForm => evaluateBody h (argsOf d)
  | .letForm => evaluateLet h d
  | .loopForm => evaluateLoop h d
  | .recurForm => evaluateRecur h d
  | .caseForm => evaluateCase h d
  | .throwForm => evaluateThrow h d
  | .tryForm => evaluateTry h d
  | .fnForm => evaluateFn h d
  | .typeForm => evaluateType h d
  | .protocolForm => evaluateProtocol d
  | .proxyForm => evaluateProxy h d
  | .newForm => evaluateNew h d
  | .dotForm => evaluateDot h d
  | .instanceForm => evaluateInstanceTest h d
  | .defForm => evaluateDef h d
  | .defMacro => do h.evaluate (← FormM.ofExcept (expanderDefinition d))
  | .setForm => evaluateSet h d
  | .varForm => do return .var (← namedVar d)
  | .nsForm => evaluateSpaceForm d
  | .inNsForm => evaluateInSpace d
  | .importForm => evaluateImport d

end LispMachine.Form
