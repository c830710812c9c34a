import LispMachine.Double.Basic

/-!
# Settings documents

The contents of a settings document: tables of values under keys.  A table remembers how it came
about, which decides whether a later part of the document may add to it.
-/

namespace LispMachine

/-- How a table came about. -/
inductive TableOrigin where
  /-- On the way to a deeper table. -/
  | implied
  /-- By a header of its own. -/
  | header
  /-- By a dotted key. -/
  | dotted
  /-- Between braces; nothing can be added to it. -/
  | inline
deriving DecidableEq, Inhabited

/-- A value in a settings document. -/
inductive Setting where
  | str (s : String)
  | int (n : Int)
  | number (x : Double)
  | bool (b : Bool)
  | moment (text : String)
  | array (items : List Setting)
  /-- Tables collected under one repeated header. -/
  | tables (items : List Setting)
  | table (origin : TableOrigin) (members : List (String × Setting))
deriving Inhabited

namespace Setting

def emptyTable (origin : TableOrigin) : Setting := .table origin []

/-- The member of a table under a key. -/
def member? (key : String) : Setting → Option Setting
  | .table _ ms => (ms.find? fun m => m.1 == key).map Prod.snd
  | _ => none

/-- Sets the member under a key. -/
def put (key : String) (v : Setting) : List (String × Setting) → List (String × Setting)
  | [] => [(key, v)]
  | (k, w) :: ms => if k == key then (k, v) :: ms else (k, w) :: put key v ms

/-- Changes the table at the end of a path of keys.  Tables on the way are made with the origin `made`;
`enter` says which existing tables may be walked through. -/
def updateAt (made : TableOrigin) (enter : TableOrigin → Bool)
    (change : TableOrigin → List (String × Setting) → Option Setting) :
    List String → Setting → Option Setting
  | [], .table o ms => change o ms
  | key :: path, .table o ms =>
    match (Setting.table o ms).member? key with
    | none => (updateAt made enter change path (emptyTable made)).map fun t => .table o (put key t ms)
    | some (.tables ts) =>
      match ts.getLast? with
      | some t =>
        (updateAt made enter change path t).map fun t =>
          .table o (put key (.tables (ts.dropLast ++ [t])) ms)
      | none => none
    | some (.table p ns) =>
      if enter p then
        (updateAt made enter change path (.table p ns)).map fun t => .table o (put key t ms)
      else none
    | some _ => none
  | _, _ => none

/-- Opens the table of a header. -/
def openHeader (path : List String) (document : Setting) : Option Setting :=
  updateAt .implied (fun o => o != .inline)
    (fun o ms =>
      if o == .implied then some (.table .header ms) else none) path document

/-- Opens a new table of a repeated header. -/
def openRepeated (path : List String) (document : Setting) : Option Setting :=
  match path.getLast? with
  | none => none
  | some key =>
    updateAt .implied (fun o => o != .inline)
      (fun o ms =>
        match (Setting.table o ms).member? key with
        | none => some (.table o (put key (.tables [emptyTable .header]) ms))
        | some (.tables ts) => some (.table o (put key (.tables (ts ++ [emptyTable .header])) ms))
        | some _ => none) path.dropLast document

/-- Adds a value under a dotted key of a table. -/
def define (path : List String) (v : Setting) (table : Setting) : Option Setting :=
  match path.getLast? with
  | none => none
  | some key =>
    updateAt .dotted (fun o => o == .dotted || o == .implied)
      (fun o ms =>
        if ((Setting.table o ms).member? key).isSome then none
        else some (.table o (put key v ms))) path.dropLast table

/-- Changes the table the latest header opened. -/
def defineUnder (header path : List String) (v : Setting) (document : Setting) : Option Setting :=
  updateAt .implied (fun _ => true) (fun o ms => define path v (.table o ms)) header document

end Setting

end LispMachine
