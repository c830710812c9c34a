import LispMachine.Registry.Basic
import LispMachine.Symbol

/-!
# The built-in classes

The classes every session starts with: numbers, text, names, collections, functions, and exceptions.
-/

namespace LispMachine.Host

/-- A class below the root class, without members. -/
def named (name : String) : ClassInfo := { name, superclass := some Names.object }

/-- A class that cannot be extended. -/
def final (name : String) : ClassInfo := { named name with flags := { isFinal := true } }

/-- The class with a superclass. -/
def below (superclass : String) (c : ClassInfo) : ClassInfo := { c with superclass := some superclass }

/-- Adds an instance method. -/
def method (name : String) (params : List Ty) (ret : Ty) (m : HostMethod) (c : ClassInfo) :
    ClassInfo :=
  { c with methods := c.methods ++ [{ owner := c.name, name, params, ret, body := .host m }] }

/-- Adds a static method. -/
def static (name : String) (params : List Ty) (ret : Ty) (m : HostMethod) (c : ClassInfo) :
    ClassInfo :=
  { c with methods :=
      c.methods ++ [{ owner := c.name, name, params, ret, isStatic := true, body := .host m }] }

/-- Adds a constructor. -/
def constructor (params : List Ty) (isVariadic : Bool) (m : HostMethod) (c : ClassInfo) : ClassInfo :=
  { c with constructors :=
      c.constructors ++
        [{ owner := c.name, name := Names.constructor, params, ret := .void, isVariadic,
           body := .host m }] }

/-- Adds an instance field. -/
def field (name : String) (ty : Ty) (c : ClassInfo) : ClassInfo :=
  { c with fields := c.fields ++ [{ name, ty }] }

/-- Adds a constant. -/
def constant (name : String) (ty : Ty) (v : Value) (c : ClassInfo) : ClassInfo :=
  { c with fields :=
      c.fields ++ [{ name, ty, isStatic := true, isMutable := false, constant := some v }] }

/-- The class at the top. -/
def objectClass : ClassInfo :=
  { name := Names.object, superclass := none }
  |> constructor [] false .nothing
  |> method "toString" [] .string .bareText
  |> method "hashCode" [] .long .hash
  |> method "equals" [.object] .boolean .equals

/-- Numbers, truth values and characters. -/
def numberClasses : List ClassInfo :=
  [{ named Names.number with flags := { isAbstract := true } }
    |> method "longValue" [] .long .longValue
    |> method "doubleValue" [] .double .doubleValue,
   final Names.long |> below Names.number
    |> constant "MAX_VALUE" .long (.int Int64.maxValue)
    |> constant "MIN_VALUE" .long (.int Int64.minValue)
    |> method "compareTo" [.cls Names.long] .long .compareLong
    |> static "valueOf" [.long] (.cls Names.long) .sameLong
    |> static "parseLong" [.string] .long .parseLong,
   final Names.double |> below Names.number
    |> method "isNaN" [] .boolean .isNaN
    |> static "parseDouble" [.string] .double .parseDouble,
   final Names.math
    |> constant "PI" .double (.float ⟨0x400921FB54442D18⟩)
    |> static "abs" [.long] .long .absLong
    |> static "abs" [.double] .double .absDouble
    |> static "max" [.long, .long] .long .maxLong
    |> static "max" [.double, .double] .double .maxDouble
    |> static "min" [.long, .long] .long .minLong
    |> static "min" [.double, .double] .double .minDouble
    |> static "sqrt" [.double] .double .sqrt]

/-- Texts. -/
def stringClass : ClassInfo :=
  final Names.string
  |> method "toString" [] .string .sameText
  |> method "length" [] .long .length
  |> method "toUpperCase" [] .string .upperCase
  |> method "toLowerCase" [] .string .lowerCase
  |> method "trim" [] .string .trim
  |> method "substring" [.long] .string .substringFrom
  |> method "substring" [.long, .long] .string .substring
  |> method "indexOf" [.string] .long .indexOfText
  |> method "indexOf" [.char] .long .indexOfChar
  |> method "charAt" [.long] .char .charAt
  |> method "contains" [.string] .boolean .containsText
  |> method "startsWith" [.string] .boolean .startsWith
  |> method "concat" [.string] .string .concat

/-- Keywords, symbols and patterns. -/
def nameClasses : List ClassInfo :=
  [final Names.boolean,
   final Names.character |> static "isDigit" [.char] .boolean .isDigit,
   final Names.keyword |> method "getName" [] .string .keywordName,
   final Names.symbol
    |> method "getName" [] .string .symbolName
    |> method "getNamespace" [] .string .symbolQualifier,
   final Names.pattern
    |> method "pattern" [] .string .patternSource
    |> method "matches" [.string] .boolean .patternMatches]

/-- A final class whose values have a size. -/
def counted (name : String) : ClassInfo := final name |> method "count" [] .long .count

/-- Lists, vectors, maps and sets. -/
def collectionClasses : List ClassInfo :=
  [counted Names.list,
   counted Names.vector |> method "nth" [.long] .object .vectorItem,
   counted Names.map |> method "get" [.object] .object .mapValue,
   counted Names.set |> method "contains" [.object] .boolean .setContains]

/-- The interface of everything that can be called. -/
def functionClass : ClassInfo :=
  { named Names.fn with
    flags := { isInterface := true, isAbstract := true }
    methods := [{ owner := Names.fn, name := Names.invoke, params := [.cls Names.vector],
                  ret := .object, isVariadic := true, body := .abstract }] }

/-- Functions, classes, namespaces, vars and arithmetic. -/
def machineClasses : List ClassInfo :=
  [functionClass,
   { final Names.nativeFn with interfaces := [Names.fn] },
   final Names.cls |> method "getName" [] .string .className,
   final Names.nameSpace |> method "getName" [] .string .spaceName,
   final Names.var
    |> method "deref" [] .object .varValue
    |> method "isBound" [] .boolean .varIsBound,
   final Names.specialForm,
   named Names.tuple
    |> field "items" (.cls Names.vector)
    |> constructor [.cls Names.vector] true .keepItems
    |> method "size" [] .long .tupleSize
    |> method "get" [.long] .object .tupleItem]

/-- What the machine throws. -/
def exceptionClasses : List ClassInfo :=
  (named Names.exception
    |> field "message" .string
    |> constructor [] false .nothing
    |> constructor [.string] false .keepMessage
    |> method "getMessage" [] .string .message)
  :: [Names.linkageError, Names.arityError, Names.classCast].map fun name =>
    named name |> below Names.exception |> constructor [.string] false .keepMessage

/-- All built-in classes, parents before children. -/
def classes : List ClassInfo :=
  objectClass :: numberClasses ++ stringClass :: nameClasses ++ collectionClasses ++ machineClasses
    ++ exceptionClasses

/-- Simple names that denote classes in every namespace, with their classes. -/
def defaultImports : List (String × String) :=
  [Names.object, Names.number, Names.long, Names.double, Names.boolean, Names.character,
    Names.string, Names.keyword, Names.symbol, Names.pattern, Names.list, Names.vector, Names.map,
    Names.set, Names.fn, Names.nativeFn, Names.cls, Names.nameSpace, Names.var, Names.math,
    Names.tuple, Names.exception, Names.linkageError, Names.arityError, Names.classCast].map
    fun full => (simpleClassName full, full)

/-- The registry a session starts with. -/
def registry : Registry :=
  classes.foldl
    (fun r c => match r.register c with
      | .ok (_, r) => r
      | .error _ => r)
    {}

end LispMachine.Host
