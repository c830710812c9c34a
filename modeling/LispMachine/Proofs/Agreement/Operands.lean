import LispMachine.Form.Analysis
import LispMachine.Proofs.Emission.Computing

/-! # Literals and locals in both modes

A form that is evaluated at once and a form that is compiled and run later go through different code.  For
the smallest forms the two agree: a literal gives the value it is written for (`pushes_literal`,
`evaluate_literal`), and a local gives the value it holds, kept in a slot of the frame or in the scope itself
(`pushes_local`, `evaluate_local`).  Interpreted code has no other locals: functions and methods, with
their parameters, fields and captures, are compiled in either mode.  `Operand` joins the two modes, for forms
made of such operands. -/

namespace LispMachine.Agreement

open Form Emission Machine

/-! ### Literals -/

/-- A form that is written for its value: an atom other than a symbol, a collection of such forms, or the empty
list. -/
def IsLiteral (d : Datum) : Prop := (constantOf? d).isSome = true ∨ ∃ i, d = .list [] i

/-- The type the compiler gives to a literal or a local. -/
def staticType (s : FormState) : Datum → Ty
  | .atom (.symbol name) _ => ((s.scopes.lexical? name s.methods.length).map fun r => r.2.ty).getD .any
  | d => ((constantOf? d).getD (.quoted d)).ty

theorem staticType_literal {d : Datum} (hd : IsLiteral d) (s : FormState) :
    staticType s d = ((constantOf? d).getD (.quoted d)).ty := by
  rcases hd with hd | ⟨i, rfl⟩
  · cases d with
    | atom a i =>
      cases a with
      | symbol name => cases hd
      | _ => rfl
    | _ => rfl
  · rfl

theorem constantValue_atom [Libraries] {a : Atom} {c : Constant} (hc : atomConstant? a = some c) {w : World} {v : Value}
    (hv : constantValue w c = .ok v) : v = a.toValue := by
  cases a with
  | symbol s => cases hc
  | regex s =>
    cases hc
    simp only [constantValue, patternValue] at hv
    split at hv
    · rename_i hformed
      cases hv
      simp [Atom.toValue, hformed]
    · cases hv
  | _ =>
    cases hc
    cases hv
    rfl

/-- The constant a form folds to has the value of the form, if it has one. -/
theorem constantValue_literal [Libraries] {d : Datum} {c : Constant} (hc : constantOf? d = some c) {w : World}
    {v : Value}
    (hv : constantValue w c = .ok v) : v = d.toValue := by
  cases d with
  | atom a i => exact constantValue_atom hc hv
  | _ =>
    simp only [constantOf?] at hc
    split at hc
    · cases hc
      cases hv
      rfl
    · cases hc

section Compiled

variable {h : Handlers} {d : Datum} {s t : FormState} {u : Unit} {locals : Array Value}

/-- A literal is analysed as a constant that has its value. -/
theorem analyse_literal [Libraries] {call : Caller} {a : Analysis} (hd : IsLiteral d)
    (hrun : analyse call d s = .ok a t) :
    t = s ∧ ∃ c, a = .constant c ∧ c.ty = staticType s d ∧ ∀ w v, constantValue w c = .ok v → v = d.toValue := by
  rw [staticType_literal hd]
  have hrun := atSpan_ok hrun
  rcases hd with hd | ⟨i, rfl⟩
  · obtain ⟨c, hc⟩ := Option.isSome_iff_exists.mp hd
    have hvalue : ∀ w v, constantValue w c = .ok v → v = d.toValue := fun w v => constantValue_literal hc
    cases d with
    | atom a i =>
      cases a with
      | symbol name => cases hc
      | _ =>
        obtain ⟨c', s₁, h₁, hrun⟩ := State.ok_of_bind hrun
        obtain ⟨hliteral, rfl⟩ := ofExcept_ok h₁
        simp only [literalConstant, hc] at hliteral
        cases hliteral
        cases hrun
        exact ⟨rfl, c, rfl, by rw [hc]; rfl, hvalue⟩
    | list items i =>
      simp [constantOf?, isConstant] at hc
    | _ =>
      simp only [hc] at hrun
      cases hrun
      exact ⟨rfl, c, rfl, by rw [hc]; rfl, hvalue⟩
  · cases hrun
    refine ⟨rfl, _, rfl, rfl, ?_⟩
    intro w v hv
    cases hv
    rfl

/-- The code of a literal pushes its value. -/
theorem pushes_literal [Libraries] (hd : IsLiteral d) (hlive : (view s).stack.isUnreachable = false)
    (hrun : compileForm h d s = .ok u t) : ∃ code, Pushes locals s t code (staticType s d) (· = d.toValue) := by
  obtain ⟨a, s₁, h₁, hrun⟩ := State.ok_of_bind hrun
  obtain ⟨rfl, c, rfl, hty, hc⟩ := analyse_literal hd h₁
  rw [← hty]
  exact ⟨_, pushes_constant hlive hc (emitForm_ok hrun).2⟩

/-! ### Locals -/

/-- The name is a local that the code finds in a slot of its frame, which holds a value. -/
def InSlot (s : FormState) (locals : Array Value) (name : String) (a : Value) : Prop :=
  (splitQualified name).1 = none ∧ ∃ kind b n, s.scopes.lexical? name s.methods.length = some (kind, b) ∧
    kind ≠ .closure ∧ b.slot = .local n ∧ b.ty ≠ .void ∧ (locals[n]?).getD .nil = a

/-- The name is a local of interpreted code, which holds a value. -/
def Holds (s : FormState) (name : String) (a : Value) : Prop :=
  (splitQualified name).1 = none ∧
    ∃ kind b, s.scopes.lexical? name s.methods.length = some (kind, b) ∧ b.value = some a

theorem lookup_lexical {name : String} {kind : ScopeKind} {b : Binding} (hsimple : (splitQualified name).1 = none)
    (hlexical : s.scopes.lexical? name s.methods.length = some (kind, b)) :
    s.scopes.lookup s.world name s.methods.length = .ok (some (.local kind b)) := by
  unfold Scopes.lookup
  split
  · simp [Scopes.lookupSimple?, hlexical]
  · rename_i q simple hsplit
    rw [hsplit] at hsimple
    cases hsimple

/-- The code of a local pushes what its slot holds. -/
theorem pushes_local [Libraries] {name : String} {i : Info} {a : Value} (hname : InSlot s locals name a)
    (hlive : (view s).stack.isUnreachable = false) (hrun : compileForm h (.atom (.symbol name) i) s = .ok u t) :
    ∃ code, Pushes locals s t code (staticType s (.atom (.symbol name) i)) (· = a) := by
  obtain ⟨hsimple, kind, b, n, hlexical, hkind, hslot, hty, rfl⟩ := hname
  obtain ⟨analysis, s₁, h₁, hrun⟩ := State.ok_of_bind hrun
  cases atSpan_ok h₁
  have hrun : compileName name _ s = .ok () t := (emitForm_ok hrun).2
  obtain ⟨r, s₁, h₁, hrun⟩ := State.ok_of_bind hrun
  obtain ⟨rfl, hfound⟩ := resolve_run h₁
  rw [lookup_lexical hsimple hlexical] at hfound
  cases hfound
  have hload : FormM.emit (.load n b.ty) s = .ok () t := by
    cases kind with
    | closure => exact absurd rfl hkind
    | _ => simpa only [loadBinding, hslot] using hrun
  rw [staticType, hlexical]
  refine ⟨_, pushes_emit hlive (fun _ => rfl) rfl hty (by trivial) ?_ hload⟩
  rintro call body r r' rfl hperforms
  exact ⟨_, rfl, performs_load hperforms⟩

end Compiled

/-! ### Interpreted forms -/

section Evaluated

variable {s t : FormState} {v : Value}

/-- Work in or out of tail position that changes nothing changes nothing. -/
theorem withTail_same {α : Type} {m : FormM α} {a : α} {tail : Bool}
    (hm : ∀ s t a, m s = .ok a t → t = s) (hrun : FormM.withTail tail m s = .ok a t) :
    t = s ∧ m { s with tail } = .ok a { s with tail } := by
  obtain ⟨t₁, ht₁, rfl⟩ := withTail_run hrun
  obtain rfl := hm _ _ _ ht₁
  exact ⟨rfl, ht₁⟩

theorem evaluate_ok [Libraries] {fuel : Nat} {d : Datum} (hrun : (handlers fuel).evaluate d s = .ok v t) :
    ∃ n, fuel = n + 1 ∧ evaluateForm (handlers n) d s = .ok v t := by
  cases fuel with
  | zero => cases hrun
  | succ n => exact ⟨n, rfl, hrun⟩

theorem compile_ok [Libraries] {fuel : Nat} {d : Datum} {u : Unit} (hrun : (handlers fuel).compile d s = .ok u t) :
    ∃ n, fuel = n + 1 ∧ compileForm (handlers n) d s = .ok u t := by
  cases fuel with
  | zero => cases hrun
  | succ n => exact ⟨n, rfl, hrun⟩

/-- The values of the keys and values of a map in a row. -/
def flatEntries [Libraries] : List (Datum × Datum) → List Value
  | [] => []
  | (k, v) :: es => k.toValue :: v.toValue :: flatEntries es

theorem pairs_flatEntries [Libraries] (es : List (Datum × Datum)) :
    (flatEntries es).length % 2 = 0 ∧ Sequence.pairs (flatEntries es) = Datum.toEntries es := by
  induction es with
  | nil => exact ⟨rfl, rfl⟩
  | cons e es ih =>
    refine ⟨?_, ?_⟩
    · rw [flatEntries, List.length_cons, List.length_cons]
      omega
    · rw [flatEntries, Sequence.pairs, ih.2, Datum.toEntries]

/-- How a collection is evaluated, if its items are in a certain way. -/
theorem evaluateCollection_ok {h : Handlers} {d : Datum} {kind : CollectionKind} {items : List Datum} {count : Nat}
    {values : List Value} (hparts : collectionParts? d = some (kind, items, count))
    (hitems : ∀ s t vs, evaluateEach h items s = .ok vs t → vs = values ∧ t = s)
    (hrun : evaluateCollection h d s = .ok v t) : buildCollection kind values = .ok v ∧ t = s := by
  rw [evaluateCollection, hparts] at hrun
  obtain ⟨vs, s₁, h₁, hbuild⟩ := State.ok_of_bind hrun
  obtain ⟨hs₁, hvs⟩ := withTail_same (fun s t vs hvs => (hitems s t vs hvs).2) h₁
  obtain ⟨hbuild, ht⟩ := ofExcept_ok hbuild
  rw [(hitems _ _ _ hvs).1] at hbuild
  exact ⟨hbuild, ht.symm.trans hs₁⟩

mutual

/-- A constant form evaluates to its value, and changes nothing. -/
theorem evaluate_constant [Libraries] (d : Datum) (hd : isConstant d = true) (fuel : Nat) (s t : FormState) (v : Value)
    (hrun : (handlers fuel).evaluate d s = .ok v t) : v = d.toValue ∧ t = s := by
  obtain ⟨n, rfl, hrun⟩ := evaluate_ok hrun
  have hrun := atSpan_ok hrun
  match d with
  | .atom a i =>
    cases a with
    | symbol name => cases hd
    | _ =>
      cases hrun
      exact ⟨rfl, rfl⟩
  | .list items i => cases hd
  | .vector items i =>
    obtain ⟨hbuild, rfl⟩ := evaluateCollection_ok rfl (evaluateEach_constant items hd n) hrun
    cases hbuild
    exact ⟨rfl, rfl⟩
  | .set items i =>
    obtain ⟨hbuild, rfl⟩ := evaluateCollection_ok rfl (evaluateEach_constant items hd n) hrun
    cases hbuild
    exact ⟨rfl, rfl⟩
  | .map entries i =>
    obtain ⟨hbuild, rfl⟩ := evaluateCollection_ok rfl (evaluateEach_entries entries hd n) hrun
    obtain ⟨heven, hpairs⟩ := pairs_flatEntries entries
    rw [buildCollection, if_pos heven, hpairs] at hbuild
    cases hbuild
    exact ⟨rfl, rfl⟩

theorem evaluateEach_constant [Libraries] (ds : List Datum) (hds : areConstant ds = true) (fuel : Nat) (s t : FormState)
    (vs : List Value) (hrun : evaluateEach (handlers fuel) ds s = .ok vs t) : vs = Datum.toValues ds ∧ t = s := by
  match ds with
  | [] =>
    cases hrun
    exact ⟨rfl, rfl⟩
  | d :: ds =>
    rw [areConstant, Bool.and_eq_true] at hds
    obtain ⟨v, s₁, h₁, hrun⟩ := State.ok_of_bind hrun
    obtain ⟨vs', s₂, h₂, hrun⟩ := State.ok_of_bind hrun
    cases hrun
    obtain ⟨rfl, rfl⟩ := evaluate_constant d hds.1 fuel s s₁ v h₁
    obtain ⟨rfl, rfl⟩ := evaluateEach_constant ds hds.2 fuel s₁ t vs' h₂
    exact ⟨rfl, rfl⟩

theorem evaluateEach_entries [Libraries] (es : List (Datum × Datum)) (hes : entriesConstant es = true) (fuel : Nat)
    (s t : FormState) (vs : List Value)
    (hrun : evaluateEach (handlers fuel) (es.flatMap fun (k, v) => [k, v]) s = .ok vs t) :
    vs = flatEntries es ∧ t = s := by
  match es with
  | [] =>
    cases hrun
    exact ⟨rfl, rfl⟩
  | (k, v) :: es =>
    rw [entriesConstant, Bool.and_eq_true, Bool.and_eq_true] at hes
    obtain ⟨a, s₁, h₁, hrun⟩ := State.ok_of_bind hrun
    obtain ⟨vs₁, s₂, h₂, hrun⟩ := State.ok_of_bind hrun
    cases hrun
    obtain ⟨b, s₃, h₃, h₂⟩ := State.ok_of_bind h₂
    obtain ⟨vs₂, s₄, h₄, h₂⟩ := State.ok_of_bind h₂
    cases h₂
    obtain ⟨rfl, rfl⟩ := evaluate_constant k hes.1.1 fuel s s₁ a h₁
    obtain ⟨rfl, rfl⟩ := evaluate_constant v hes.1.2 fuel s₁ s₃ b h₃
    obtain ⟨rfl, rfl⟩ := evaluateEach_entries es hes.2 fuel s₃ t vs₂ h₄
    exact ⟨rfl, rfl⟩

end

/-- A literal evaluates to its value. -/
theorem evaluate_literal [Libraries] {fuel : Nat} {d : Datum} (hd : IsLiteral d)
    (hrun : (handlers fuel).evaluate d s = .ok v t) : v = d.toValue ∧ t = s := by
  rcases hd with hd | ⟨i, rfl⟩
  · refine evaluate_constant d ?_ fuel s t v hrun
    cases d with
    | atom a i => exact hd
    | _ => simpa [constantOf?] using hd
  · obtain ⟨n, rfl, hform⟩ := evaluate_ok hrun
    cases atSpan_ok hform
    exact ⟨rfl, rfl⟩

/-- A local evaluates to the value it holds. -/
theorem evaluate_local [Libraries] {fuel : Nat} {name : String} {i : Info} {a : Value} (hname : Holds s name a)
    (hrun : (handlers fuel).evaluate (.atom (.symbol name) i) s = .ok v t) : v = a ∧ t = s := by
  obtain ⟨hsimple, kind, b, hlexical, hvalue⟩ := hname
  obtain ⟨n, rfl, hrun⟩ := evaluate_ok hrun
  have hrun : evaluateName name s = .ok v t := atSpan_ok hrun
  obtain ⟨r, s₁, h₁, hrun⟩ := State.ok_of_bind hrun
  obtain ⟨rfl, hfound⟩ := resolve_run h₁
  rw [lookup_lexical hsimple hlexical] at hfound
  cases hfound
  simp only [hvalue] at hrun
  cases hrun
  exact ⟨rfl, rfl⟩

end Evaluated

/-! ### Both modes -/

/-- A form whose code, at whatever place among the same locals, pushes a value kept as a type. -/
def Computes [Libraries] (h : Handlers) (locals : Array Value) (s : FormState) (d : Datum) (ty : Ty) (a : Value) :
    Prop :=
  ∀ ⦃s' u t⦄, (view s').scopes = (view s).scopes → (view s').methods.length = (view s).methods.length →
    (view s').stack.isUnreachable = false → h.compile d s' = .ok u t →
    ∃ code, Pushes locals s' t code ty (· = a)

theorem Computes.later [Libraries] {h : Handlers} {locals : Array Value} {s t : FormState} {code : List Instruction}
    {d : Datum} {ty : Ty} {a : Value} (hd : Computes h locals s d ty a) (hne : (view s).methods ≠ [])
    (hadds : Adds (view s) (view t) code) (hunmoved : Unmoved (view s) (view t)) : Computes h locals t d ty a := by
  intro s' u t' hscopes hmethods hlive hrun
  exact hd (hscopes.trans hunmoved.scopes) (hmethods.trans (hadds.length_eq hne)) hlive hrun

/-- A form that, among the same locals, evaluates to a value and changes nothing. -/
def Evaluates (h : Handlers) (s : FormState) (d : Datum) (a : Value) : Prop :=
  ∀ ⦃s' v t⦄, s'.scopes = s.scopes → s'.methods = s.methods → h.evaluate d s' = .ok v t → v = a ∧ t = s'

/-- A literal, or a local that compiled code finds in a slot and interpreted code in its scope, with the value
it has in both modes. -/
inductive Operand [Libraries] (s : FormState) (locals : Array Value) (s' : FormState) (a : Value) : Datum → Prop
  | literal {d : Datum} (hd : IsLiteral d) (hvalue : a = d.toValue) : Operand s locals s' a d
  | name {name : String} {i : Info} (compiled : InSlot s locals name a) (interpreted : Holds s' name a) :
    Operand s locals s' a (.atom (.symbol name) i)

section Operand

variable {s s' : FormState} {locals : Array Value} {a : Value} {d : Datum} {fuel : Nat}

theorem Operand.computes [Libraries] (hd : Operand s locals s' a d) :
    Computes (handlers fuel) locals s d (staticType s d) a := by
  intro s₁ u t hscopes hmethods hlive hrun
  obtain ⟨n, rfl, hrun⟩ := compile_ok hrun
  cases hd with
  | literal hd hvalue =>
    rw [hvalue, staticType_literal hd, ← staticType_literal hd s₁]
    exact pushes_literal hd hlive hrun
  | name compiled interpreted =>
    obtain ⟨hsimple, kind, b, n, hlexical, hrest⟩ := compiled
    have hscopes : s₁.scopes = s.scopes := hscopes
    have hmethods : s₁.methods.length = s.methods.length := hmethods
    rw [staticType, ← hscopes, ← hmethods]
    rw [← hscopes, ← hmethods] at hlexical
    exact pushes_local ⟨hsimple, kind, b, n, hlexical, hrest⟩ hlive hrun

theorem Operand.evaluates [Libraries] (hd : Operand s locals s' a d) : Evaluates (handlers fuel) s' d a := by
  intro s₁ v t hscopes hmethods hrun
  cases hd with
  | literal hd hvalue =>
    rw [hvalue]
    exact evaluate_literal hd hrun
  | name compiled interpreted =>
    obtain ⟨hsimple, kind, b, hlexical, hvalue⟩ := interpreted
    rw [← hscopes, ← hmethods] at hlexical
    exact evaluate_local ⟨hsimple, kind, b, hlexical, hvalue⟩ hrun

end Operand

/-- Names stand for the same in both worlds. -/
structure SameNames (w w' : World) : Prop where
  current : w'.current = w.current
  spaces : w'.spaces = w.spaces
  vars : w'.vars = w.vars
  registry : w'.registry = w.registry

/-! ### Methods run on their own -/

/-- What the code of the method at work runs to, in a frame with certain locals. -/
def ranTo? [Libraries] (locals : Array Value) (w : World) (t : FormState) : Option Running :=
  performed? (handlers 1).call ⟨default, [], 0⟩ (instructionsOf (view t).code.items.toList) ⟨{ locals }, w⟩

/-- The code of a method that was empty before is what was added. -/
theorem performs_of_ranTo [Libraries] {s t : FormState} {code : List Instruction} {locals : Array Value} {w : World}
    {r : Running}
    (hadds : Adds (view s) (view t) code) (hempty : (view s).code.items = #[]) (hran : ranTo? locals w t = some r) :
    Performs (handlers 1).call ⟨default, [], 0⟩ code ⟨{ locals }, w⟩ r := by
  obtain ⟨items, hitems, hcode, -⟩ := hadds.items
  have hall : instructionsOf (view t).code.items.toList = code := by
    rw [hitems, hempty, ← hcode]
    rfl
  rw [← hall]
  exact performs_iff.mpr hran

end LispMachine.Agreement
