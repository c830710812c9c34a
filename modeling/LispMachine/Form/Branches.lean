import LispMachine.Form.Basic

/-!
# Branches

`if` and `case`.  The branches of compiled code agree on one type: each ends in a hole that is filled with
the conversion to it once all branches are known.  A compiled `case` switches on the hash of the value,
confirms the match by equality within the bucket, and switches again on the number of the branch, so that
each branch is emitted once.
-/

namespace LispMachine.Form

/-! ### Arms -/

/-- The end of a branch: the type it leaves, if control gets there, and the hole for its conversion. -/
structure Arm where
  ty : Option Ty
  hole : Hole

/-- Ends a branch with a jump. -/
def closeArm (last : Label) : FormM Arm := do
  let ty ← FormM.topType?
  let hole ← FormM.onCode CodeBuffer.hole
  FormM.emit (.goto last)
  return { ty, hole }

/-- The type all arms agree on, if any gets to its end. -/
def armType? (r : Registry) (arms : List Arm) : Option Ty :=
  match arms.filterMap Arm.ty with
  | [] => none
  | ty :: rest => some (rest.foldl (Ty.unify r) ty)

/-- Fills the hole of an arm with the conversion to a type. -/
def fillArm (target : Ty) (arm : Arm) : FormM Unit := do
  match arm.ty with
  | none => return ()
  | some ty =>
    let code ← FormM.ofExcept (Coercion.coerce (← FormM.registry) ty target)
    FormM.modifyCode fun c => c.fill arm.hole code

/-- Makes all arms agree on a type. -/
def joinArms (arms : List Arm) : FormM (Option Ty) := do
  let joined := armType? (← FormM.registry) arms
  match joined with
  | some target => arms.forM (fillArm target)
  | none => pure ()
  return joined

/-- Goes back to the records of `base`, at a label. -/
def startAt (base : List StackRecord) (l : Label) : FormM Unit := do
  FormM.modifyStack fun s => s.withRecords base
  FormM.place l

/-! ### If -/

/-- Turns the top value into a primitive boolean that tells whether it counts as true. -/
def emitTest : FormM Unit := do
  match ← FormM.topType? with
  | none => return ()
  | some ty =>
    if ty = .boolean then return ()
    else
      FormM.emitAll (Coercion.toBoxed ty)
      FormM.emit .truthy

/-- The test, the branch for true, and the branch for false. -/
def ifParts (d : Datum) : Except Error (Datum × Datum × Option Datum) :=
  match argsOf d with
  | [test, whenTrue] => .ok (test, whenTrue, none)
  | [test, whenTrue, whenFalse] => .ok (test, whenTrue, some whenFalse)
  | [] => .error (d.readingError "Too few arguments to if")
  | [_] => .error (d.readingError "Too few arguments to if")
  | _ => .error (d.readingError "Too many arguments to if")

/-- A form that may be missing, which counts as `nil`. -/
def compileOptional (h : Handlers) : Option Datum → FormM Unit
  | some d => h.compile d
  | none => FormM.emitConstant .nil

/-- The arms of a conditional end with one value of the type that `joinArms` gives. -/
def compileIf (h : Handlers) (d : Datum) : FormM Unit := do
  let (test, whenTrue, whenFalse) ← FormM.ofExcept (ifParts d)
  FormM.withTail false (h.compile test)
  if ← FormM.isUnreachable then return ()
  emitTest
  let otherwise ← FormM.newLabel
  let last ← FormM.newLabel
  FormM.emit (.ifFalse otherwise)
  let base := (← FormM.stack).records
  h.compile whenTrue
  let first ← closeArm last
  startAt base otherwise
  compileOptional h whenFalse
  let second ← closeArm last
  FormM.place last
  FormM.settle base (← joinArms [first, second])

/-- Only nil and false choose the second branch. -/
def evaluateIf (h : Handlers) (d : Datum) : FormM Value := do
  let (test, whenTrue, whenFalse) ← FormM.ofExcept (ifParts d)
  if (← FormM.withTail false (h.evaluate test)).truthy then h.evaluate whenTrue
  else
    match whenFalse with
    | some d => h.evaluate d
    | none => return .nil

/-! ### Case -/

/-- A constant that a `case` tests for, and the number of the branch it selects. -/
structure CaseKey where
  constant : Constant
  value : Value
  branch : Nat

/-- The clauses of a `case`. -/
structure CaseClauses where
  keys : List CaseKey := []
  branches : List Datum := []
  fallback : Option Datum := none

/-- The constant of a test; symbols stand for themselves. -/
def caseConstant (key : Datum) : Except Error Constant :=
  match key with
  | .atom (.symbol name) _ => .ok (.symbol name)
  | .atom (.regex _) _ =>
    .error (key.compileError ("case does not support regex test constants: " ++ key.toText))
  | .list [] _ => .ok (.quoted key)
  | _ =>
    match constantOf? key with
    | some c => .ok c
    | none => .error (key.compileError ("case test constants must be literals: " ++ key.toText))

/-- Adds a test for a branch; no value is tested for twice. -/
def CaseClauses.addKey [Libraries] (d : Datum) (branch : Nat) (clauses : CaseClauses) (key : Datum) :
    Except Error CaseClauses := do
  let constant ← caseConstant key
  let value := key.toValue
  if clauses.keys.any fun k => k.value == value then
    throw (d.compileError ("Duplicate case test constant: " ++ key.toText))
  else return { clauses with keys := clauses.keys ++ [{ constant, value, branch }] }

/-- The tests of a clause; a list stands for any of its items. -/
def caseTests (test : Datum) : List Datum :=
  match test.list? with
  | some (item :: items) => item :: items
  | _ => [test]

/-- Adds the remaining clauses, the first of which has the given number. -/
def CaseClauses.addAll [Libraries] (d : Datum) (branch : Nat) (clauses : CaseClauses) :
    List Datum → Except Error CaseClauses
  | test :: body :: rest => do
    let clauses ← (caseTests test).foldlM (CaseClauses.addKey d branch) clauses
    CaseClauses.addAll d (branch + 1) { clauses with branches := clauses.branches ++ [body] } rest
  | [fallback] => .ok { clauses with fallback := some fallback }
  | [] => .ok clauses

/-- The form tested and the clauses. -/
def caseParts [Libraries] (d : Datum) : Except Error (Datum × CaseClauses) :=
  match argsOf d with
  | [] => .error (d.readingError "case requires an expression")
  | subject :: clauses => do return (subject, ← CaseClauses.addAll d 0 {} clauses)

/-- Keys with one hash. -/
structure Bucket where
  hash : Int
  keys : List CaseKey

/-- Adds a key to the bucket of its hash; buckets ascend by hash. -/
def insertKey (key : CaseKey) : List Bucket → List Bucket
  | [] => [⟨key.value.hashCode, [key]⟩]
  | b :: rest =>
    let hash := key.value.hashCode
    if hash < b.hash then ⟨hash, [key]⟩ :: b :: rest
    else if hash = b.hash then { b with keys := b.keys ++ [key] } :: rest
    else b :: insertKey key rest

/-- The keys by ascending hash; keys of one hash keep their order. -/
def bucketsOf (keys : List CaseKey) : List Bucket := keys.foldl (fun bs k => insertKey k bs) []

/-- Tests the value in slot `temp` for a key; on a match goes to `dispatch` with the branch number. -/
def emitKeyTest (base : List StackRecord) (temp : Nat) (dispatch : Label) (key : CaseKey) :
    FormM Unit := do
  let next ← FormM.newLabel
  FormM.emit (.load temp .any)
  FormM.emit (.const key.constant)
  FormM.emitAll (Coercion.toBoxed key.constant.ty)
  FormM.emit .equiv
  FormM.emit (.ifFalse next)
  FormM.emit (.const (.long (Int64.ofNat key.branch)))
  FormM.emit (.goto dispatch)
  startAt base next

/-- Compares the subject with every key of one hash. -/
def emitBucket (base : List StackRecord) (temp : Nat) (dispatch fallback : Label) (b : Bucket)
    (l : Label) : FormM Unit := do
  startAt base l
  b.keys.forM (emitKeyTest base temp dispatch)
  FormM.emit (.goto fallback)

/-- New labels, one for each item of a list. -/
def labelsFor {α : Type} (items : List α) : FormM (List Label) := items.mapM fun _ => FormM.newLabel

/-- From the value in slot `temp` to the label of its branch; without keys nothing is tested. -/
def emitSwitch (base : List StackRecord) (temp : Nat) (fallback : Label) (branches : List Label)
    (keys : List CaseKey) : FormM Unit := do
  if keys.isEmpty then return ()
  let buckets := bucketsOf keys
  let labels ← labelsFor buckets
  let dispatch ← FormM.newLabel
  FormM.emit (.load temp .any)
  FormM.emit .hashCode
  FormM.emit (.lookupSwitch (buckets.map fun b => Int64.ofInt b.hash) labels fallback)
  (buckets.zip labels).forM fun (b, l) => emitBucket base temp dispatch fallback b l
  FormM.modifyStack fun s => (s.withRecords base).push .long false
  FormM.place dispatch
  FormM.emit (.tableSwitch 0 branches fallback)

def noMatchText : String := "No matching clause: "

/-- Throws an exception that names the value in slot `temp`. -/
def emitNoMatch (temp : Nat) (span : Span) : FormM Unit := do
  FormM.emitConstant (.str noMatchText)
  FormM.emit (.load temp .any)
  FormM.emitCall
    { SiteSpec.new (.globalCall Names.coreSpace "str") [.string, .any] .string with span := some span }
  FormM.emit (.newInstance Names.exception [.string])
  FormM.emit .throwTop

/-- What is done with the value in slot `temp` if no clause matches. -/
def compileFallback (h : Handlers) (temp : Nat) (span : Span) : Option Datum → FormM Unit
  | some d => h.compile d
  | none => emitNoMatch temp span

/-- A branch starts from the stack that all branches share. -/
def compileBranch (h : Handlers) (base : List StackRecord) (last : Label) (body : Datum) (l : Label) :
    FormM Arm := do
  startAt base l
  h.compile body
  closeArm last

/-- Jumps by the hash of the subject, then compares. -/
def compileCase [Libraries] (h : Handlers) (d : Datum) : FormM Unit := do
  let (subject, clauses) ← FormM.ofExcept (caseParts d)
  FormM.withTail false (h.compile subject)
  if ← FormM.isUnreachable then return ()
  FormM.boxTop
  let temp ← FormM.allocSlot
  FormM.emit (.store temp .any)
  let base := (← FormM.stack).records
  let fallback ← FormM.newLabel
  let last ← FormM.newLabel
  let branches ← labelsFor clauses.branches
  emitSwitch base temp fallback branches clauses.keys
  let arms ← (clauses.branches.zip branches).mapM fun (body, l) => compileBranch h base last body l
  startAt base fallback
  compileFallback h temp d.span clauses.fallback
  let arm ← closeArm last
  FormM.place last
  FormM.modifyCode fun c => c.freeSlot temp
  FormM.settle base (← joinArms (arms ++ [arm]))

/-- The first equal key decides. -/
def evaluateCase [Libraries] (h : Handlers) (d : Datum) : FormM Value := do
  let (subject, clauses) ← FormM.ofExcept (caseParts d)
  let value ← FormM.withTail false (h.evaluate subject)
  let chosen := (clauses.keys.find? fun k => k.value == value).bind fun k => clauses.branches[k.branch]?
  match chosen <|> clauses.fallback with
  | some d => h.evaluate d
  | none =>
    let message := noMatchText ++ (← FormM.world).bareTextOf value
    let exception ← FormM.lift (Machine.makeException h.call Names.exception message)
    FormM.fail (Error.thrown exception)

end LispMachine.Form
