import LispMachine.World.Basic

/-!
# Namespaces and vars

Looking names up, making vars and binding them.  Every binding advances the epoch of its var, by which
call sites notice that what they remember is stale.
-/

namespace LispMachine.World

/-! ### Vars -/

/-- The cell of a var. -/
def cell? (w : World) (v : VarRef) : Option VarCell := w.vars[v.id]?

/-- The root value of a var, if it is bound. -/
def root? (w : World) (v : VarRef) : Option Value := (w.cell? v).bind VarCell.root

/-- The flags of a var. -/
def flagsOf (w : World) (v : VarRef) : VarFlags := ((w.cell? v).map VarCell.flags).getD {}

def unboundVar (v : VarRef) : Error := Error.runtime ("var " ++ v.toText ++ " is unbound")

/-- The root value of a var. -/
def valueOf (w : World) (v : VarRef) : Except Error Value :=
  match w.root? v with
  | some value => .ok value
  | none => .error (unboundVar v)

/-- Changes a var and advances its epoch. -/
def changeVar (w : World) (v : VarRef) (change : VarCell → VarCell) : World :=
  { w with vars := w.vars.modify v.id fun c => { change c with epoch := c.epoch + 1 } }

/-- Binds the root of a var. -/
def bindRoot (w : World) (v : VarRef) (value : Value) : World :=
  w.changeVar v fun c => { c with root := some value }

/-- Sets the properties of a var, and its root when there is a value. -/
def define (w : World) (v : VarRef) (value : Option Value) (flags : VarFlags) : World :=
  w.changeVar v fun c => { c with root := value <|> c.root, flags }

/-! ### Namespaces -/

/-- The namespace of a name. -/
def space? (w : World) (name : String) : Option Space := w.spaces.find? name

/-- The current namespace. -/
def here (w : World) : Space := (w.space? w.current).getD {}

/-- Changes a namespace, starting from an empty one if there is none. -/
def changeSpace (w : World) (name : String) (change : Space → Space) : World :=
  { w with spaces := w.spaces.insert name (change ((w.space? name).getD {})) }

/-- Makes sure there is a namespace of a name. -/
def ensureSpace (w : World) (name : String) : World :=
  if w.spaces.contains name then w else w.changeSpace name id

/-- The var a name stands for in a namespace. -/
def findVar? (w : World) (space name : String) : Option VarRef :=
  (w.space? space).bind fun s => s.mappings.find? name

/-- The namespace's own var of a name, made if needed; it replaces one referred from elsewhere. -/
def intern (w : World) (space name : String) : VarRef × World :=
  let fresh : VarRef := { id := w.vars.size, space, name }
  let made := { w with vars := w.vars.push { space, name } }.changeSpace space fun s =>
    { s with mappings := s.mappings.insert name fresh }
  match w.findVar? space name with
  | some v => if v.space = space then (v, w) else (fresh, made)
  | none => (fresh, made)

/-- The vars a namespace owns, in the order of their names. -/
def ownVars (w : World) (space : String) : List VarRef :=
  let vars := (((w.space? space).getD {}).mappings.entries.map Prod.snd).filter fun v =>
    v.space == space
  vars.mergeSort fun a b => decide (a.name ≤ b.name)

/-- Maps the name of a var to it, unless the name is taken. -/
def refer (s : Space) (v : VarRef) : Space :=
  if s.mappings.contains v.name then s else { s with mappings := s.mappings.insert v.name v }

/-- Gives a new namespace the built-in vars and classes. -/
def prepareSpace (w : World) (name : String) : World :=
  if name = Names.coreSpace then w
  else
    w.changeSpace name fun s =>
      let s := (w.ownVars Names.coreSpace).foldl refer s
      let imports := Host.defaultImports.foldl (fun t e => t.insert e.1 e.2) s.imports
      { s with imports }

/-- Makes a namespace current, preparing it when it is new. -/
def enter (w : World) (name : String) : World :=
  let w := if w.spaces.contains name then w else (w.ensureSpace name).prepareSpace name
  { w with current := name }

/-! ### Classes by name -/

/-- The class a name stands for: an import of the current namespace first, then a full name. -/
def resolveClass? (w : World) (name : String) : Option ClassInfo :=
  ((w.here.imports.find? name).bind w.registry.find?) <|> w.registry.find? name

def classNotFound (name : String) : Error := Error.linkage ("class " ++ name ++ " not found")

/-- Makes a class known by its simple name in the current namespace. -/
def importClass (w : World) (full : String) : Except Error World :=
  if w.registry.contains full then
    .ok (w.changeSpace w.current fun s =>
      { s with imports := s.imports.insert (simpleClassName full) full })
  else .error (classNotFound full)

/-! ### Names -/

/-- A number not given out before. -/
def nextId (w : World) : Nat × World := (w.counter + 1, { w with counter := w.counter + 1 })

/-- Puts a name that was made up on record. -/
def note (w : World) (name : String) : World := { w with given := w.given.push name }

/-- A name not given out before. -/
def gensym (w : World) (stem : String) : String × World :=
  let (n, w) := w.nextId
  let name := stem ++ "__" ++ toString n
  (name, w.note name)

/-! ### The start -/

def finalFlags : VarFlags := { isFinal := true }

/-- Binds a final var of the core namespace. -/
def defineCore (w : World) (name : String) (value : Value) : World :=
  let (v, w) := w.intern Names.coreSpace name
  w.define v (some value) finalFlags

/-- The core namespace filled with special forms and built-in functions. -/
def core : World :=
  let w : World := { registry := Host.registry, current := Names.userSpace }
  let w := (w.ensureSpace Names.userSpace).ensureSpace Names.coreSpace
  let w := SpecialForm.all.foldl (fun w f => w.defineCore f.title (.special f)) w
  let w := Native.all.foldl (fun w n => w.defineCore n.title (.function (.native n))) w
  w.prepareSpace Names.userSpace

/-- The world a session starts with. -/
def start (options : Options) : World := { core with options }

end LispMachine.World
