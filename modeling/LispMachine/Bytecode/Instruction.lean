import LispMachine.CallSite.Spec
import LispMachine.Error

/-!
# Instructions

The instructions of the stack machine.  `Instruction.effect` says what each one takes from the operand
stack and leaves on it; the compiler and the verifier both go by it, so they cannot disagree.
-/

namespace LispMachine

/-- A place in code that branches go to, by number. -/
abbrev Label := Nat

/-- Properties of a var. -/
structure VarFlags where
  isFinal : Bool := false
  isExpander : Bool := false
  isDynamic : Bool := false
  isPrivate : Bool := false
deriving DecidableEq, Inhabited

namespace VarFlags

/-- The properties metadata flags ask for. -/
def ofFlags (flags : List String) : VarFlags :=
  { isFinal := flags.contains "final" || flags.contains "const"
    isExpander := flags.contains "macro"
    isDynamic := flags.contains "dynamic"
    isPrivate := flags.contains "private" }

end VarFlags

/-- The instructions of the machine. -/
inductive Instruction where
  | nop
  | const (c : Constant)
  | load (slot : Nat) (ty : Ty)
  | store (slot : Nat) (ty : Ty)
  | getField (owner name : String) (ty : Ty)
  | putField (owner name : String) (ty : Ty)
  | getStatic (owner name : String) (ty : Ty)
  /-- Pushes the var itself. -/
  | varRef (space name : String)
  /-- Defines a var, with the popped value as its root when `init` is set, and pushes the var. -/
  | defVar (space name : String) (flags : VarFlags) (init : Bool)
  /-- Rebinds a var and leaves the value on the stack. -/
  | setVar (space name : String)
  | invokeDynamic (site : Nat)
  /-- Runs a superclass constructor on the receiver below the arguments. -/
  | invokeSuper (owner : String) (params : List Ty)
  | newInstance (cls : String) (params : List Ty)
  | box (p : Prim)
  | unbox (p : Prim)
  | convert (source target : Prim)
  | checkCast (cls : String)
  | truthy
  | hashCode
  | equiv
  | instanceOf (cls : String)
  | ifFalse (label : Label)
  | goto (label : Label)
  | lookupSwitch (keys : List Int64) (targets : List Label) (default : Label)
  | tableSwitch (low : Int64) (targets : List Label) (default : Label)
  | makeCollection (kind : CollectionKind) (count : Nat)
  /-- Builds a collection from operands, the flagged ones being sequences whose items go in. -/
  | buildSpliced (kind : CollectionKind) (splices : List Bool)
  | switchSpace (name : String)
  | importClass (name : String)
  | pop
  | pop2
  | dup
  | throwTop
  | ret (ty : Ty)
deriving Inhabited

/-- What an instruction does to the operand stack. -/
inductive Effect where
  /-- Pops operands of the given types, the last one being on top, and may push a result. -/
  | ops (pops : List Ty) (push : Option Ty)
  /-- Pushes the top once more. -/
  | dupTop
deriving DecidableEq, Inhabited

namespace Instruction

/-- The effect on the operand stack, given the call sites of the class. -/
def effect (sites : List SiteSpec) : Instruction → Except Error Effect
  | .nop => .ok (.ops [] none)
  | .goto _ => .ok (.ops [] none)
  | .const c => .ok (.ops [] (some c.ty))
  | .load _ ty => .ok (.ops [] (some ty))
  | .store _ ty => .ok (.ops [ty] none)
  | .getField _ _ ty => .ok (.ops [.any] (some ty))
  | .putField _ _ ty => .ok (.ops [.any, ty] none)
  | .getStatic _ _ ty => .ok (.ops [] (some ty))
  | .varRef .. => .ok (.ops [] (some (.cls Names.var)))
  | .defVar _ _ _ init => .ok (.ops (if init then [.any] else []) (some (.cls Names.var)))
  | .setVar .. => .ok (.ops [.any] (some .any))
  | .invokeDynamic i =>
    match sites[i]? with
    | some s => .ok (.ops s.argTypes (if s.ret = .void then none else some s.ret))
    | none => .error (Error.classFormat ("call site " ++ toString i ++ " out of range"))
  | .invokeSuper _ params => .ok (.ops (.any :: params) none)
  | .newInstance cls params => .ok (.ops params (some (.cls cls)))
  | .box p => .ok (.ops [.prim p] (some (.cls p.wrapper)))
  | .unbox p => .ok (.ops [.any] (some (.prim p)))
  | .convert source target => .ok (.ops [.prim source] (some (.prim target)))
  | .checkCast cls => .ok (.ops [.any] (some (.cls cls)))
  | .truthy => .ok (.ops [.any] (some .boolean))
  | .hashCode => .ok (.ops [.any] (some .long))
  | .equiv => .ok (.ops [.any, .any] (some .boolean))
  | .instanceOf _ => .ok (.ops [.any] (some .boolean))
  | .ifFalse _ => .ok (.ops [.boolean] none)
  | .lookupSwitch .. => .ok (.ops [.long] none)
  | .tableSwitch .. => .ok (.ops [.long] none)
  | .makeCollection kind count =>
    let n := if kind = .map then count * 2 else count
    .ok (.ops (List.replicate n .any) (some (.cls kind.className)))
  | .buildSpliced kind splices =>
    .ok (.ops (List.replicate splices.length .any) (some (.cls kind.className)))
  | .switchSpace _ => .ok (.ops [] (some (.cls Names.nameSpace)))
  | .importClass _ => .ok (.ops [] (some (.cls Names.cls)))
  | .pop => .ok (.ops [.any] none)
  | .pop2 => .ok (.ops [.long] none)
  | .dup => .ok .dupTop
  | .throwTop => .ok (.ops [.any] none)
  | .ret ty => .ok (.ops (if ty = .void then [] else [ty]) none)

/-- Control never goes on to the next instruction. -/
def endsBlock : Instruction → Bool
  | .goto _ => true
  | .lookupSwitch .. => true
  | .tableSwitch .. => true
  | .throwTop => true
  | .ret _ => true
  | _ => false

/-- The labels control may go to. -/
def targets : Instruction → List Label
  | .ifFalse l => [l]
  | .goto l => [l]
  | .lookupSwitch _ ts d => ts ++ [d]
  | .tableSwitch _ ts d => ts ++ [d]
  | _ => []

/-- The local slot an instruction reads or writes. -/
def slot? : Instruction → Option Nat
  | .load slot _ => some slot
  | .store slot _ => some slot
  | _ => none

/-- Equality; doubles in constants compare as numbers. -/
def same : Instruction → Instruction → Bool
  | .nop, .nop => true
  | .const c, .const d => c.same d
  | .load s t, .load s' t' => s == s' && t == t'
  | .store s t, .store s' t' => s == s' && t == t'
  | .getField o n t, .getField o' n' t' => o == o' && n == n' && t == t'
  | .putField o n t, .putField o' n' t' => o == o' && n == n' && t == t'
  | .getStatic o n t, .getStatic o' n' t' => o == o' && n == n' && t == t'
  | .varRef s n, .varRef s' n' => s == s' && n == n'
  | .defVar s n f i, .defVar s' n' f' i' => s == s' && n == n' && f == f' && i == i'
  | .setVar s n, .setVar s' n' => s == s' && n == n'
  | .invokeDynamic i, .invokeDynamic i' => i == i'
  | .invokeSuper o ps, .invokeSuper o' ps' => o == o' && ps == ps'
  | .newInstance c ps, .newInstance c' ps' => c == c' && ps == ps'
  | .box p, .box p' => p == p'
  | .unbox p, .unbox p' => p == p'
  | .convert s t, .convert s' t' => s == s' && t == t'
  | .checkCast c, .checkCast c' => c == c'
  | .truthy, .truthy => true
  | .hashCode, .hashCode => true
  | .equiv, .equiv => true
  | .instanceOf c, .instanceOf c' => c == c'
  | .ifFalse l, .ifFalse l' => l == l'
  | .goto l, .goto l' => l == l'
  | .lookupSwitch ks ts d, .lookupSwitch ks' ts' d' => ks == ks' && ts == ts' && d == d'
  | .tableSwitch l ts d, .tableSwitch l' ts' d' => l == l' && ts == ts' && d == d'
  | .makeCollection k n, .makeCollection k' n' => k == k' && n == n'
  | .buildSpliced k ss, .buildSpliced k' ss' => k == k' && ss == ss'
  | .switchSpace n, .switchSpace n' => n == n'
  | .importClass n, .importClass n' => n == n'
  | .pop, .pop => true
  | .pop2, .pop2 => true
  | .dup, .dup => true
  | .throwTop, .throwTop => true
  | .ret t, .ret t' => t == t'
  | _, _ => false

end Instruction

end LispMachine
