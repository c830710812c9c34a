import LispMachine.Form.Basic

/-!
# Templates

A quoted form with holes: unquoted parts are evaluated, spliced parts contribute their elements, and
symbols are qualified so that they mean the same wherever the result is used.  A symbol ending in `#`
becomes a new name, the same one throughout a template.
-/

namespace LispMachine.Template

/-- Names that stay as they are, because they are read and not looked up. -/
def reserved : List String := ["&", "catch", "finally", "recur"]

/-- The unquoted form of an element, and whether its elements are spliced in. -/
def unquoted? : Datum → Option (Datum × Bool)
  | .list [.atom (.symbol head) _, inner] _ =>
    if head = "unquote" then some (inner, false)
    else if head = "unquote-splicing" then some (inner, true)
    else none
  | _ => none

mutual
/-- Something inside is unquoted. -/
def hasUnquote : Datum → Bool
  | .atom .. => false
  | .list items i => (unquoted? (.list items i)).isSome || anyUnquote items
  | .vector items _ => anyUnquote items
  | .set items _ => anyUnquote items
  | .map entries _ => entriesUnquote entries

def anyUnquote : List Datum → Bool
  | [] => false
  | d :: ds => hasUnquote d || anyUnquote ds

def entriesUnquote : List (Datum × Datum) → Bool
  | [] => false
  | (k, v) :: es => hasUnquote k || hasUnquote v || entriesUnquote es
end

/-! ### Symbols -/

/-- The error of a generated name outside a template. -/
def notInTemplate (name : String) : Error :=
  Error.compile ("Gensym literal " ++ name ++ " not in syntax-quote")

/-- The name a symbol ending in `#` stands for in the innermost template. -/
def templateName (name : String) : FormM String := do
  let n ← FormM.lift (Action.change World.nextId)
  match (← get).templates with
  | [] => FormM.fail (notInTemplate name)
  | names :: rest =>
    match names.find? name with
    | some made =>
      FormM.lift (modify fun w => w.note made)
      return made
    | none =>
      let stem := String.ofList name.toList.dropLast
      let made := stem ++ "__" ++ toString n ++ "__auto__"
      FormM.lift (modify fun w => w.note made)
      modify fun s => { s with templates := names.insert name made :: rest }
      return made

/-- The name stands for a new one. -/
def isTemporary (name : String) : Bool :=
  let cs := name.toList
  1 < cs.length && cs.getLast? == some '#' && !cs.contains '/'

/-- The name is a shorthand for a member of a class. -/
def isMember (name : String) : Bool :=
  let cs := name.toList
  1 < cs.length && (cs.head? == some '.' || cs.getLast? == some '.')

/-- The full name of a symbol that is looked up in the current namespace. -/
def fullName (w : World) (name : String) : String :=
  match splitQualified name with
  | (some q, member) =>
    match w.here.aliases.find? q with
    | some full => full ++ "/" ++ member
    | none => name
  | (none, _) =>
    match w.here.mappings.find? name with
    | some v =>
      match w.root? v with
      | some (.special _) => name
      | _ => v.toText
    | none =>
      match w.resolveClass? name with
      | some c => c.name
      | none => w.current ++ "/" ++ name

/-- The name a symbol of a template stands for. -/
def qualify (name : String) : FormM String := do
  if isTemporary name then templateName name
  else if reserved.contains name || Expansion.derivedForms.contains name || isMember name then
    return name
  else return fullName (← FormM.world) name

mutual
/-- A template without unquoted parts, its symbols qualified. -/
def qualifyDatum : Datum → FormM Datum
  | .atom (.symbol name) i => do return .atom (.symbol (← qualify name)) i
  | .atom a i => return .atom a i
  | .list items i => do return .list (← qualifyData items) i
  | .vector items i => do return .vector (← qualifyData items) i
  | .set items i => do return .set (← qualifyData items) i
  | .map entries i => do return .map (← qualifyEntries entries) i
termination_by structural d => d

def qualifyData : List Datum → FormM (List Datum)
  | [] => return []
  | d :: ds => do
    let e ← qualifyDatum d
    let es ← qualifyData ds
    return e :: es
termination_by structural ds => ds

def qualifyEntries : List (Datum × Datum) → FormM (List (Datum × Datum))
  | [] => return []
  | (k, v) :: rest => do
    let k ← qualifyDatum k
    let v ← qualifyDatum v
    let es ← qualifyEntries rest
    return (k, v) :: es
termination_by structural es => es
end

/-! ### Compiling -/

/-- What the code of an element does.  Names are settled before any code is emitted. -/
inductive Plan where
  | constant (c : Constant)
  /-- Computes an unquoted form. -/
  | compute (inner : Datum)
  /-- Builds a collection from elements, some of which are spliced in. -/
  | build (kind : CollectionKind) (items : List (Datum × Plan × Bool)) (count : Nat)
deriving Inhabited

/-- The error of splicing into a map. -/
def splicedIntoMap (d : Datum) : Error :=
  d.compileError "unquote-splicing is not supported inside a map"

/-- The constant an element without unquoted parts is kept as. -/
def constantElement (d : Datum) : FormM Constant :=
  match d with
  | .atom (.symbol name) _ => do return .symbol (← qualify name)
  | .atom _ _ => FormM.ofExcept (Form.literalConstant d)
  | d => do return .quoted (← qualifyDatum d)

mutual
/-- Plans an element; also tells whether its elements are spliced in. -/
def plan : Datum → FormM (Plan × Bool)
  | .atom a i => do return (.constant (← constantElement (.atom a i)), false)
  | .list items i => do
    match unquoted? (.list items i) with
    | some (inner, splice) => return (.compute inner, splice)
    | none =>
      if anyUnquote items then
        return (.build .list (← planAll items) items.length, false)
      else return (.constant (← constantElement (.list items i)), false)
  | .vector items i => do
    if anyUnquote items then return (.build .vector (← planAll items) items.length, false)
    else return (.constant (← constantElement (.vector items i)), false)
  | .set items i => do
    if anyUnquote items then return (.build .set (← planAll items) items.length, false)
    else return (.constant (← constantElement (.set items i)), false)
  | .map entries i => do
    if entriesUnquote entries then
      let parts ← planEntries entries
      if parts.any fun p => p.2.2 then FormM.fail (splicedIntoMap (.map entries i))
      else return (.build .map parts entries.length, false)
    else return (.constant (← constantElement (.map entries i)), false)
termination_by structural d => d

def planAll : List Datum → FormM (List (Datum × Plan × Bool))
  | [] => return []
  | d :: ds => do
    let (p, splice) ← plan d
    let ps ← planAll ds
    return (d, p, splice) :: ps
termination_by structural ds => ds

def planEntries : List (Datum × Datum) → FormM (List (Datum × Plan × Bool))
  | [] => return []
  | (k, v) :: rest => do
    let (pk, sk) ← plan k
    let (pv, sv) ← plan v
    let ps ← planEntries rest
    return (k, pk, sk) :: (v, pv, sv) :: ps
termination_by structural es => es
end

mutual
/-- Emits the code of a planned element. -/
def emitPlan (h : Handlers) (d : Datum) : Plan → FormM Unit
  | .constant c => Form.emitForm d (FormM.emitConstant c)
  | .compute inner => Form.emitForm d (h.compile inner)
  | .build kind items count =>
    Form.emitForm d do
      FormM.withTail false (emitPlans h items)
      let splices := items.map fun p => p.2.2
      if splices.contains true then FormM.emit (.buildSpliced kind splices)
      else FormM.emit (.makeCollection kind count)
termination_by structural p => p

/-- Emits the parts of a collection, each boxed or as a sequence to splice. -/
def emitPlans (h : Handlers) : List (Datum × Plan × Bool) → FormM Unit
  | [] => return ()
  | (d, p, _) :: rest => do
    emitPlan h d p
    FormM.boxTop
    emitPlans h rest
termination_by structural ps => ps
end

/-! ### Evaluating -/

/-- The error of splicing what is not a sequence. -/
def cannotSplice (v : Value) (d : Datum) : Error :=
  d.compileError ("Cannot splice a " ++ v.typeName ++ " into a template")

mutual
/-- Evaluates an element; also tells whether its elements are spliced in. -/
def evaluateElement [Libraries] (h : Handlers) : Datum → FormM (Value × Bool)
  | .atom (.symbol name) _ => do return (.symbol (Symbol.parse (← qualify name)), false)
  | .atom a _ => return (a.toValue, false)
  | .list items i => do
    match unquoted? (.list items i) with
    | some (inner, splice) => return (← FormM.withTail false (h.evaluate inner), splice)
    | none => return (.list (← evaluateItems h items), false)
  | .vector items _ => do return (.vector (← evaluateItems h items), false)
  | .set items _ => do return (.setOf (← evaluateItems h items), false)
  | .map entries i => do
    return (.mapOf (← evaluateEntries h (splicedIntoMap (.map entries i)) entries), false)
termination_by structural d => d

/-- Evaluates the items of a collection, splicing where they say so. -/
def evaluateItems [Libraries] (h : Handlers) : List Datum → FormM (List Value)
  | [] => return []
  | d :: ds => do
    let (v, splice) ← evaluateElement h d
    let vs ← if splice then
        match v.items? with
        | some vs => pure vs
        | none => FormM.fail (cannotSplice v d)
      else pure [v]
    let rest ← evaluateItems h ds
    return vs ++ rest
termination_by structural ds => ds

def evaluateEntries [Libraries] (h : Handlers) (misplaced : Error) :
    List (Datum × Datum) → FormM (List (Value × Value))
  | [] => return []
  | (k, v) :: rest => do
    let (key, keySplice) ← evaluateElement h k
    let (value, valueSplice) ← evaluateElement h v
    if keySplice || valueSplice then FormM.fail misplaced
    let es ← evaluateEntries h misplaced rest
    return (key, value) :: es
termination_by structural es => es
end

/-! ### The form -/

/-- Runs with an empty table of new names. -/
def withNames {α : Type} (m : FormM α) : FormM α := do
  modify fun s => { s with templates := {} :: s.templates }
  m.andFinally fun s => { s with templates := s.templates.drop 1 }

/-- The one form a template takes. -/
def theTemplate (d : Datum) : Except Error Datum :=
  match Form.argsOf d with
  | [template] => .ok template
  | _ => .error (d.readingError "syntax-quote takes exactly one argument")

def splicedOutside (d : Datum) : Error :=
  d.compileError "unquote-splicing used outside of a collection"

/-- Code that builds the template. -/
def compile (h : Handlers) (d : Datum) : FormM Unit := do
  let template ← FormM.ofExcept (theTemplate d)
  withNames do
    let (p, splice) ← plan template
    if splice then FormM.fail (splicedOutside template)
    emitPlan h template p

/-- The template with its unquoted parts evaluated. -/
def evaluate [Libraries] (h : Handlers) (d : Datum) : FormM Value := do
  let template ← FormM.ofExcept (theTemplate d)
  withNames do
    let (v, splice) ← evaluateElement h template
    if splice then FormM.fail (splicedOutside template)
    return v

end LispMachine.Template
