/-!
# Well-known names

The names of the built-in classes and of the two methods with a fixed meaning.
-/

namespace LispMachine.Names

def object := "lang.Object"
def number := "lang.Number"
def long := "lang.Long"
def double := "lang.Double"
def boolean := "lang.Boolean"
def character := "lang.Character"
def string := "lang.String"
def keyword := "lang.Keyword"
def symbol := "lang.Symbol"
def pattern := "lang.Pattern"
def list := "lang.List"
def vector := "lang.Vector"
def map := "lang.Map"
def set := "lang.Set"
def fn := "lang.Fn"
def nativeFn := "lang.NativeFn"
def cls := "lang.Class"
def nameSpace := "lang.Namespace"
def var := "lang.Var"
def specialForm := "lang.SpecialForm"
def math := "lang.Math"
def tuple := "lang.Tuple"
def exception := "lang.Exception"
def linkageError := "lang.LinkageError"
def arityError := "lang.ArityError"
def classCast := "lang.ClassCastException"

/-- The name of constructors. -/
def constructor := "<init>"

/-- The method a call of a function object runs. -/
def invoke := "invoke"

/-- The static method a compiled top-level form is entered by. -/
def run := "run"

/-- The namespace the built-in vars live in. -/
def coreSpace := "sprig.core"

/-- The namespace a session starts in. -/
def userSpace := "user"

end LispMachine.Names
