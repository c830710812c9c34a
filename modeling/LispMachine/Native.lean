import LispMachine.Ty

/-!
# Natives and special forms

The built-in functions, with the argument counts they take and the types they declare to return, and
the special forms the compiler and the interpreter treat by themselves.
-/

namespace LispMachine

/-- The argument counts a function takes. -/
structure Arity where
  least : Nat
  most : Option Nat
deriving DecidableEq

namespace Arity

def exactly (n : Nat) : Arity := ⟨n, some n⟩
def atLeast (n : Nat) : Arity := ⟨n, none⟩
def between (m n : Nat) : Arity := ⟨m, some n⟩

/-- A call with this many arguments is allowed. -/
def accepts (a : Arity) (n : Nat) : Bool := a.least ≤ n && a.most.all fun m => n ≤ m

end Arity

/-- The built-in functions. -/
inductive Native where
  | add | mul | sub | div | mod | inc | dec
  | lt | gt | le | ge | eq | notEq | identical
  | not | isNil | isZero | isEven | isOdd
  | str | prStr | println | prn
  | identity | classOf | gensym | symbol | keyword | name | exMessage | apply
  | list | vector | hashMap | hashSet | vec | seq | count | isEmpty
  | first | second | rest | next | nth | cons | conj | concat | listStar
  | get | assoc | contains | map | filter | reduce
deriving DecidableEq, Inhabited

namespace Native

/-- All built-in functions, in the order they are installed. -/
def all : List Native :=
  [.add, .mul, .sub, .div, .mod, .inc, .dec, .lt, .gt, .le, .ge, .eq, .notEq, .identical, .not,
    .isNil, .isZero, .isEven, .isOdd, .str, .prStr, .println, .prn, .identity, .classOf, .gensym,
    .symbol, .keyword, .name, .exMessage, .apply, .list, .vector, .hashMap, .hashSet, .vec, .seq,
    .count, .isEmpty, .first, .second, .rest, .next, .nth, .cons, .conj, .concat, .listStar, .get,
    .assoc, .contains, .map, .filter, .reduce]

/-- The name a function is bound to. -/
def title : Native → String
  | .add => "+" | .mul => "*" | .sub => "-" | .div => "/" | .mod => "mod" | .inc => "inc"
  | .dec => "dec" | .lt => "<" | .gt => ">" | .le => "<=" | .ge => ">=" | .eq => "="
  | .notEq => "not=" | .identical => "identical?" | .not => "not" | .isNil => "nil?"
  | .isZero => "zero?" | .isEven => "even?" | .isOdd => "odd?" | .str => "str"
  | .prStr => "pr-str" | .println => "println" | .prn => "prn" | .identity => "identity"
  | .classOf => "class" | .gensym => "gensym" | .symbol => "symbol" | .keyword => "keyword"
  | .name => "name" | .exMessage => "ex-message" | .apply => "apply" | .list => "list"
  | .vector => "vector" | .hashMap => "hash-map" | .hashSet => "hash-set" | .vec => "vec"
  | .seq => "seq" | .count => "count" | .isEmpty => "empty?" | .first => "first"
  | .second => "second" | .rest => "rest" | .next => "next" | .nth => "nth" | .cons => "cons"
  | .conj => "conj" | .concat => "concat" | .listStar => "list*" | .get => "get"
  | .assoc => "assoc" | .contains => "contains?" | .map => "map" | .filter => "filter"
  | .reduce => "reduce"

/-- How many arguments a native takes. -/
def arity : Native → Arity
  | .add | .mul => .atLeast 0
  | .sub | .div => .atLeast 1
  | .mod => .exactly 2
  | .inc | .dec => .exactly 1
  | .lt | .gt | .le | .ge | .eq | .notEq => .atLeast 1
  | .identical => .exactly 2
  | .not | .isNil | .isZero | .isEven | .isOdd => .exactly 1
  | .str | .prStr | .println | .prn => .atLeast 0
  | .identity | .classOf => .exactly 1
  | .gensym => .between 0 1
  | .symbol | .keyword | .name | .exMessage => .exactly 1
  | .apply => .atLeast 2
  | .list | .vector | .hashMap | .hashSet => .atLeast 0
  | .vec | .seq | .count | .isEmpty | .first | .second | .rest | .next => .exactly 1
  | .nth => .between 2 3
  | .cons => .exactly 2
  | .conj => .atLeast 1
  | .concat => .atLeast 0
  | .listStar => .atLeast 1
  | .get => .between 2 3
  | .assoc => .atLeast 3
  | .contains | .map | .filter => .exactly 2
  | .reduce => .between 2 3

/-- The type of the results. -/
def result : Native → Ty
  | .lt | .gt | .le | .ge | .eq | .notEq | .identical | .not | .isNil | .isZero | .isEven | .isOdd
  | .isEmpty | .contains => .boolean
  | .str | .prStr | .name => .string
  | .classOf => .cls Names.cls
  | .gensym | .symbol => .cls Names.symbol
  | .keyword => .cls Names.keyword
  | .list | .rest | .cons | .concat | .listStar | .map | .filter => .cls Names.list
  | .vector | .vec => .cls Names.vector
  | .hashMap => .cls Names.map
  | .hashSet => .cls Names.set
  | .count => .long
  | _ => .any

end Native

/-- The forms with rules of their own. -/
inductive SpecialForm where
  | quote | syntaxQuote | unquote | unquoteSplicing
  | ifForm | doForm | letForm | loopForm | recurForm | caseForm
  | fnForm | defForm | defMacro | setForm | varForm
  | typeForm | protocolForm | proxyForm | newForm | dotForm
  | throwForm | tryForm | nsForm | inNsForm | importForm | instanceForm
deriving DecidableEq, Inhabited

namespace SpecialForm

def all : List SpecialForm :=
  [.quote, .syntaxQuote, .unquote, .unquoteSplicing, .ifForm, .doForm, .letForm, .loopForm,
    .recurForm, .caseForm, .fnForm, .defForm, .defMacro, .setForm, .varForm, .typeForm,
    .protocolForm, .proxyForm, .newForm, .dotForm, .throwForm, .tryForm, .nsForm, .inNsForm,
    .importForm, .instanceForm]

/-- The name a form is headed by. -/
def title : SpecialForm → String
  | .quote => "quote" | .syntaxQuote => "syntax-quote" | .unquote => "unquote"
  | .unquoteSplicing => "unquote-splicing" | .ifForm => "if" | .doForm => "do" | .letForm => "let"
  | .loopForm => "loop" | .recurForm => "recur" | .caseForm => "case" | .fnForm => "fn"
  | .defForm => "def" | .defMacro => "defmacro" | .setForm => "set!" | .varForm => "var"
  | .typeForm => "deftype" | .protocolForm => "defprotocol" | .proxyForm => "proxy"
  | .newForm => "new" | .dotForm => "." | .throwForm => "throw" | .tryForm => "try"
  | .nsForm => "ns" | .inNsForm => "in-ns" | .importForm => "import" | .instanceForm => "instance?"

end SpecialForm

end LispMachine
