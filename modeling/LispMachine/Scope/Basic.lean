import LispMachine.Ty
import LispMachine.Value.Basic
import LispMachine.Error

/-!
# Lexical scopes

Frames of bindings, the innermost last.  A binding says where its value lives: in a local slot, in a
field of the class being built, as the receiver, or, while interpreting, in the binding itself.
-/

namespace LispMachine

/-- What kind of scope a name was found in. -/
inductive ScopeKind where
  | methodParam
  | methodLet
  | field
  /-- Bound outside the current method: to reach it is to capture it. -/
  | closure
  /-- A local of interpreted code. -/
  | interpretedLet
  | nameSpace
  | classLiteral
  | literal
deriving DecidableEq, Inhabited

/-- Where compiled code finds a binding. -/
inductive Slot where
  | local (n : Nat)
  /-- The receiver of the current method. -/
  | this
  | field (name : String)
  | none
deriving DecidableEq, Inhabited

/-- What a name is bound to. -/
structure Binding where
  name : String
  ty : Ty
  slot : Slot
  value : Option Value := none
  isMutable : Bool := false
deriving Inhabited

namespace Binding

/-- A binding that lives in a slot of the method. -/
def inSlot (name : String) (ty : Ty) (slot : Nat) : Binding := { name, ty, slot := .local slot }

/-- A binding that holds its value. -/
def holding (name : String) (value : Value) : Binding :=
  { name, ty := .any, slot := .none, value := some value }

end Binding

/-- The bindings of one form. -/
structure ScopeFrame where
  kind : ScopeKind
  /-- How many methods were open when the frame was. -/
  level : Nat
  /-- Bindings, the latest first. -/
  bindings : List Binding := []
deriving Inhabited

/-- Frames, the innermost first. -/
structure Scopes where
  frames : List ScopeFrame := []
deriving Inhabited

namespace Scopes

def depth (s : Scopes) : Nat := s.frames.length

/-- Opens a frame. -/
def push (s : Scopes) (kind : ScopeKind) (level : Nat) : Scopes :=
  { frames := { kind, level } :: s.frames }

/-- Closes the innermost frame. -/
def pop (s : Scopes) : Option ScopeFrame × Scopes :=
  match s.frames with
  | [] => (none, s)
  | f :: rest => (some f, { frames := rest })

/-- Drops the frames beyond a depth, and gives them, the outermost first. -/
def truncate (s : Scopes) (depth : Nat) : List ScopeFrame × Scopes :=
  let extra := s.depth - depth
  ((s.frames.take extra).reverse, { frames := s.frames.drop extra })

def top? (s : Scopes) : Option ScopeFrame := s.frames.head?

/-- Adds a binding to the innermost frame. -/
def bind (s : Scopes) (b : Binding) : Except Error Scopes :=
  match s.frames with
  | [] => .error (Error.internal "binding without an open scope")
  | f :: rest => .ok { frames := { f with bindings := b :: f.bindings } :: rest }

/-- Gives the bindings of the innermost frame new values, in the order they were made. -/
def rebindTop (s : Scopes) (values : List Value) : Except Error Scopes :=
  match s.frames with
  | [] => .error (Error.internal "rebinding without an open scope")
  | f :: rest =>
    if f.bindings.length ≠ values.length then
      .error (Error.internal "loop rebinding arity mismatch")
    else
      let bindings := (f.bindings.zip values.reverse).map fun (b, v) => { b with value := some v }
      .ok { frames := { f with bindings } :: rest }

/-- Visible names, the innermost first, each once. -/
def visibleNames (s : Scopes) : List String :=
  (s.frames.flatMap fun f => f.bindings.map Binding.name).eraseDups

/-- The innermost binding of a name, and the kind of scope it is in as seen from a method that is `level`
deep. -/
def lexical? (s : Scopes) (name : String) (level : Nat) : Option (ScopeKind × Binding) :=
  s.frames.findSome? fun f =>
    (f.bindings.find? fun b => b.name == name).map fun b =>
      (if f.level < level then .closure else f.kind, b)

end Scopes

end LispMachine
