import LispMachine.Proofs.Agreement.Proxies
import LispMachine.Proofs.Emission.Verified
import LispMachine.Proofs.Machine.Conversions
import LispMachine.Proofs.Registry.Subclassing

/-! # Calls of functions with several arities

The arities of a `fn` can be told apart by the number of arguments, so that at most one of them is `Chosen`.
The class made for the form has one method for each, in order (`methods_of_defineFn`), and whatever applies an
instance of the class runs the method of the chosen one, with as many values as it has parameters, or fails
for the number of arguments (`fn_dispatch`). -/

namespace LispMachine

/-! ### The arity to run -/

namespace Form

/-- The clause takes `n` arguments. -/
def FnArity.Serves (a : FnArity) (n : Nat) : Prop :=
  if a.isVariadic then a.required ≤ n else a.names.length = n

/-- The clause to run for `n` arguments: one that takes just so many, or else a variadic one that takes them. -/
structure Chosen (arities : List FnArity) (n i : Nat) (a : FnArity) : Prop where
  clause : arities[i]? = some a
  serves : a.Serves n
  exactFirst : a.isVariadic = true → ∀ b ∈ arities, b.isVariadic = false → b.names.length ≠ n

/-- What the parameters of a clause are given: the arguments, those behind the required ones as a list, which
is `nil` if there are none. -/
def FnArity.received (a : FnArity) (args : List Value) : List Value :=
  if a.isVariadic then
    args.take a.required ++ [if args.length = a.required then Value.nil else Value.list (args.drop a.required)]
  else args

/-- Two arities that could be taken for one another. -/
def FnArity.Clashes (a b : FnArity) : Prop :=
  a.isVariadic = b.isVariadic ∧ (a.isVariadic = true ∨ a.names.length = b.names.length)

theorem not_clashes_of_checkArities {d : Datum} {arities : List FnArity}
    (hcheck : checkArities d arities = .ok ()) : arities.Pairwise fun a b => ¬a.Clashes b := by
  unfold checkArities at hcheck
  dsimp only at hcheck
  split at hcheck
  · cases hcheck
  rename_i hone
  split at hcheck
  · cases hcheck
  rename_i hdistinct
  have hvariadic : (arities.filter FnArity.isVariadic).Pairwise fun _ _ => False := by
    match hall : arities.filter FnArity.isVariadic, hone with
    | [], _ => exact .nil
    | [_], _ => exact List.pairwise_singleton ..
    | _ :: _ :: _, hone => simp at hone
  have hfixed : (arities.filter fun a => !a.isVariadic).Pairwise fun a b => a.names.length ≠ b.names.length :=
    List.pairwise_map.mp (not_not.mp hdistinct)
  rw [List.pairwise_filter] at hvariadic hfixed
  refine (hvariadic.and hfixed).imp ?_
  rintro a b ⟨hnone, hlengths⟩ ⟨hkind, hsame⟩
  cases hv : a.isVariadic with
  | true => exact hnone hv (hkind ▸ hv)
  | false =>
    rcases hsame with hsame | hsame
    · rw [hv] at hsame
      cases hsame
    · exact hlengths (by simp [hv]) (by simp [← hkind, hv]) hsame

/-- No two clauses are to be run for the same number of arguments. -/
theorem chosen_unique {d : Datum} {arities : List FnArity} {n i j : Nat} {a b : FnArity}
    (hcheck : checkArities d arities = .ok ()) (ha : Chosen arities n i a) (hb : Chosen arities n j b) :
    j = i := by
  have hclash : a.Clashes b ∧ b.Clashes a := by
    have hserves := ha.serves
    have hserves' := hb.serves
    unfold FnArity.Serves at hserves hserves'
    cases hva : a.isVariadic with
    | true =>
      cases hvb : b.isVariadic with
      | true => exact ⟨⟨hva.trans hvb.symm, .inl hva⟩, ⟨hvb.trans hva.symm, .inl hvb⟩⟩
      | false =>
        rw [hvb] at hserves'
        exact absurd hserves' (ha.exactFirst hva b (List.mem_of_getElem? hb.clause) hvb)
    | false =>
      cases hvb : b.isVariadic with
      | true =>
        rw [hva] at hserves
        exact absurd hserves (hb.exactFirst hvb a (List.mem_of_getElem? ha.clause) hva)
      | false =>
        rw [hva] at hserves
        rw [hvb] at hserves'
        have hlengths : a.names.length = b.names.length := hserves.trans hserves'.symm
        exact ⟨⟨hva.trans hvb.symm, .inr hlengths⟩, ⟨hvb.trans hva.symm, .inr hlengths.symm⟩⟩
  have hapart := List.pairwise_iff_getElem.mp (not_clashes_of_checkArities hcheck)
  obtain ⟨hi, rfl⟩ := List.getElem?_eq_some_iff.mp ha.clause
  obtain ⟨hj, rfl⟩ := List.getElem?_eq_some_iff.mp hb.clause
  rcases Nat.lt_trichotomy i j with hlt | rfl | hlt
  · exact absurd hclash.1 (hapart i j hi hj hlt)
  · rfl
  · exact absurd hclash.2 (hapart j i hj hi hlt)

/-! ### What `fnParts` accepts -/

theorem paramNames_ne_nil {params : Datum} {items : List Datum} {names : List String} {isVariadic : Bool}
    (h : paramNames params items = .ok (names, isVariadic)) (hvariadic : isVariadic = true) : names ≠ [] := by
  cases items with
  | nil =>
    cases h
    cases hvariadic
  | cons p rest =>
    unfold paramNames at h
    split at h
    · split at h
      · cases h
      · obtain ⟨name, -, h⟩ := bind_ok h
        cases h
        simp
      · cases h
    · obtain ⟨name, -, h⟩ := bind_ok h
      obtain ⟨⟨names', v⟩, -, h⟩ := bind_ok h
      cases h
      simp

theorem names_ne_nil_of_fnArity {params : Datum} {body : List Datum} {a : FnArity}
    (h : fnArity params body = .ok a) (hvariadic : a.isVariadic = true) : a.names ≠ [] := by
  unfold fnArity at h
  split at h
  · cases h
  · obtain ⟨⟨names, v⟩, hnames, h⟩ := bind_ok h
    cases h
    exact paramNames_ne_nil hnames hvariadic

/-- The arities of a form that is accepted: they can be told apart, and a variadic one has a parameter for the
rest. -/
theorem fnParts_ok {d : Datum} {name : Option String} {arities : List FnArity}
    (h : fnParts d = .ok (name, arities)) :
    checkArities d arities = .ok () ∧ ∀ a ∈ arities, a.isVariadic = true → a.names ≠ [] := by
  have hchecked : ∀ {fname found}, (∀ a ∈ found, a.isVariadic = true → a.names ≠ []) →
      (do checkArities d found; pure (fname, found)) = Except.ok (name, arities) →
      checkArities d arities = .ok () ∧ ∀ a ∈ arities, a.isVariadic = true → a.names ≠ [] := by
    intro fname found hnames h
    obtain ⟨⟨⟩, hcheck, h⟩ := bind_ok h
    cases h
    exact ⟨hcheck, hnames⟩
  unfold fnParts at h
  dsimp only at h
  split at h
  · cases h
  · split at h
    · obtain ⟨a, ha, h⟩ := bind_ok h
      exact hchecked (fun b hb => List.mem_singleton.mp hb ▸ names_ne_nil_of_fnArity ha) h
    · obtain ⟨found, hfound, h⟩ := bind_ok h
      refine hchecked (fun a ha => ?_) h
      obtain ⟨clause, -, hclause⟩ := Emission.exists_of_mapM_ok hfound ha
      unfold arityClause at hclause
      split at hclause
      · exact names_ne_nil_of_fnArity hclause
      · cases hclause

theorem length_received {a : FnArity} {args : List Value} (hserves : a.Serves args.length)
    (hnames : a.isVariadic = true → a.names ≠ []) : (a.received args).length = a.names.length := by
  unfold FnArity.Serves at hserves
  unfold FnArity.received
  cases hv : a.isVariadic with
  | false =>
    rw [hv] at hserves
    simpa using hserves.symm
  | true =>
    rw [hv, if_pos rfl] at hserves
    have hpos := List.length_pos_iff.mpr (hnames hv)
    have hrequired : a.required = a.names.length - 1 := by simp [FnArity.required, hv]
    simp only [if_true, List.length_append, List.length_take, List.length_singleton, Nat.min_eq_left hserves]
    omega

end Form

/-! ### The class of a function -/

namespace Machine

open Form Emission

/-- The method for the clause of a `fn` at a position. -/
def clauseMethod (cls : String) (clause : FnArity × Nat) : Method :=
  { owner := cls, name := Names.invoke, params := clause.1.names.map fun _ => .any, ret := .any, isStatic := false
    isVariadic := clause.1.isVariadic, body := .code clause.2 }

/-- The method that is run for a clause has been compiled from it. -/
def CompiledFrom (h : Handlers) (name : Option String) (a : FnArity) (m : MethodDef) : Prop :=
  ∃ built, Implements h (arityPlan name a) built ∧ built.Outlined m

section Lists

variable {α β γ δ : Type} {R : α → β → Prop} {S : β → γ → Prop} {as : List α} {bs more : List β} {cs : List γ}

/-- Two lists side by side with the front of a third. -/
theorem forall₂_through (hR : List.Forall₂ R as bs) (hS : List.Forall₂ S (bs ++ more) cs) :
    ∃ ms rest, cs = ms ++ rest ∧ List.Forall₂ (fun a c => ∃ b, R a b ∧ S b c) as ms ∧ List.Forall₂ S more rest := by
  induction hR generalizing cs with
  | nil => exact ⟨[], cs, rfl, .nil, hS⟩
  | cons hr _ ih =>
    cases hS with
    | cons hs hS =>
      obtain ⟨ms, rest, rfl, hms, hrest⟩ := ih hS
      exact ⟨_ :: ms, rest, rfl, .cons ⟨_, hr, hs⟩ hms, hrest⟩

theorem map_zipIdx_of_forall₂ {f : α × Nat → δ} {g : β × Nat → δ} (hR : List.Forall₂ R as bs)
    (hsame : ∀ a b i, R a b → g (b, i) = f (a, i)) (k : Nat) : (bs.zipIdx k).map g = (as.zipIdx k).map f := by
  induction hR generalizing k with
  | nil => rfl
  | cons hr _ ih => rw [List.zipIdx_cons, List.zipIdx_cons, List.map_cons, List.map_cons, hsame _ _ k hr, ih]

end Lists

section Classes

variable {h : Handlers} {d : Datum} {s t : FormState} {file : ClassFile} {cls : ClassInfo} {captures : List Capture}

/-- Compiles the class of arities that have been read. -/
def buildArities (h : Handlers) (name : Option String) (arities : List FnArity) : FormM (ClassFile × List Capture) := do
  let file ← newFile (← generatedName (.fn name)) Names.object
  buildClass h { file with interfaces := [Names.fn], flags := { isFinal := true } } .closure
    (arities.map fun a _ => arityPlan name a) .captures

theorem buildFn_of_parts {name : Option String} {arities : List FnArity} (hparts : fnParts d = .ok (name, arities)) :
    buildFn h d s = buildArities h name arities s := by
  rw [buildFn, hparts]
  rfl

/-- What is built for a `fn`: a class that implements functions, with a method for each arity. -/
theorem buildFn_outline (hc : Compiles h) (hlevels : Levelled (view s))
    (hrun : buildFn h d s = .ok (file, captures) t) :
    ∃ name arities, fnParts d = .ok (name, arities) ∧ file.interfaces = [Names.fn] ∧
      ∃ (built : List MethodDef) (init : Option MethodDef), file.methods = built ++ init.toList ∧
        List.Forall₂ (fun a m => Implements h (arityPlan name a) m) arities built ∧
        ∀ m ∈ init, m.name = Names.constructor := by
  obtain ⟨⟨name, arities⟩, s₁, h₁, hrun⟩ := State.ok_of_bind hrun
  obtain ⟨hparts, rfl⟩ := ofExcept_ok h₁
  obtain ⟨className, s₃, h₃, hrun⟩ := State.ok_of_bind hrun
  have hview : view s₃ = view s := aside_generatedName _ h₃
  obtain ⟨start, s₄, h₄, hrun⟩ := State.ok_of_bind hrun
  obtain ⟨rfl, hempty⟩ := newFile_ok h₄
  let fresh : ClassFile := { start with interfaces := [Names.fn], flags := { isFinal := true } }
  replace hempty : fresh.methods = [] := hempty
  have hself : ∀ m ∈ arities.map fun a (_ : Registry) => arityPlan name a, ∀ r, SelfContained (view s₃) (m r) := by
    intro m hm r
    obtain ⟨a, -, rfl⟩ := List.mem_map.mp hm
    exact .inl rfl
  obtain ⟨-, -, hinterfaces, built, init, hmethods, hbuilt, hinit⟩ :=
    buildClass_outline hc (hview ▸ hlevels) hself hempty hrun
  refine ⟨name, arities, hparts, hinterfaces, built, init, hmethods, ?_, hinit⟩
  exact (List.forall₂_map_left_iff.mp hbuilt).imp fun a m ⟨_, hm⟩ => hm

/-- What is known of the class of a `fn`. -/
structure FnClass (h : Handlers) (name : Option String) (arities : List FnArity) (cls : ClassInfo) : Prop where
  interfaces : cls.interfaces = [Names.fn]
  methods : cls.methods = arities.zipIdx.map (clauseMethod cls.name)
  code : ∃ file site rest, cls.origin = .loaded file site ∧
    ∃ compiled, file.methods = compiled ++ rest ∧ List.Forall₂ (CompiledFrom h name) arities compiled

theorem name_outlined {name : Option String} {a : FnArity} {m : MethodDef} (hm : CompiledFrom h name a m)
    (cls : String) (i : Nat) : methodInfo cls m i = clauseMethod cls (a, i) := by
  obtain ⟨built, ⟨_, _, _, _, _, code, _, _, rfl⟩, hsame, hcode⟩ := hm
  have hsome : m.code.isSome = true := hcode
  rw [hsame, methodInfo, if_pos hsome]
  rfl

/-- The class that is made for a `fn` has the methods of its arities. -/
theorem defineFn_ok [Libraries] (hc : Compiles h) (hlevels : Levelled (view s))
    (hrun : defineFn h d s = .ok (cls, captures) t) :
    ∃ name arities, fnParts d = .ok (name, arities) ∧ FnClass h name arities cls ∧
      t.world.registry.find? cls.name = some cls := by
  obtain ⟨⟨file, captures'⟩, s₁, hbuild, hrun⟩ := State.ok_of_bind hrun
  obtain ⟨cls', s₂, hload, hrun⟩ := State.ok_of_bind hrun
  cases hrun
  obtain ⟨name, arities, hparts, hinterfaces, built, init, hmethods, hbuilt, hinit⟩ := buildFn_outline hc hlevels hbuild
  obtain ⟨loaded, houtline, hregistered⟩ := loadClass_outlined hload
  have hloaded := houtline.methods
  rw [hmethods] at hloaded
  obtain ⟨compiled, rest, hsplit, hcompiled, hrest⟩ := forall₂_through hbuilt hloaded
  refine ⟨name, arities, hparts, ?_, hregistered.find_self⟩
  obtain ⟨serial, layout, rfl⟩ := hregistered.info
  refine ⟨houtline.interfaces.trans hinterfaces, ?_, loaded, _, rest, rfl, compiled, hsplit, hcompiled⟩
  have hconstructors : ∀ m ∈ rest, m.name = Names.constructor := by
    cases init with
    | none =>
      cases hrest
      exact nofun
    | some m =>
      obtain - | ⟨hm, ⟨⟩⟩ := hrest
      intro m' hm'
      rw [List.mem_singleton.mp hm', hm.same]
      exact hinit m rfl
  change ((loaded.methods.zipIdx.map fun p => methodInfo loaded.name p.1 p.2).filter
    fun m => m.name != Names.constructor) = arities.zipIdx.map (clauseMethod loaded.name)
  rw [hsplit, List.zipIdx_append, List.map_append, List.filter_append,
    map_zipIdx_of_forall₂ hcompiled (f := clauseMethod loaded.name) (fun a m i hm => name_outlined hm loaded.name i)]
  -- The methods of the arities are kept, and the constructor is not among the methods.
  rw [List.filter_eq_self.mpr, List.filter_eq_nil_iff.mpr, List.append_nil]
  · intro m hm
    obtain ⟨⟨m', i⟩, hm', rfl⟩ := List.mem_map.mp hm
    have hname : (methodInfo loaded.name m' i).name = Names.constructor :=
      hconstructors m' (List.fst_mem_of_mem_zipIdx hm')
    simp [hname]
  · intro m hm
    obtain ⟨clause, -, rfl⟩ := List.mem_map.mp hm
    rfl

end Classes

/-! ### Calls -/

section Calls

variable {cls : ClassInfo} {arities : List FnArity} {n : Nat} {w w' : World} {o : ObjectRef}

/-- The method of the arity that is chosen is selected, and none if no arity is. -/
theorem selectInvoke_cases (hmethods : cls.methods = arities.zipIdx.map (clauseMethod cls.name)) (n : Nat) :
    (∃ i a, Chosen arities n i a ∧ selectInvoke cls n = .ok (clauseMethod cls.name (a, i))) ∨
      ((∀ i a, ¬Chosen arities n i a) ∧ selectInvoke cls n = .error (wrongArity n cls.name)) := by
  have hinvokes : (cls.methods.filter fun m => m.name == Names.invoke && !m.isAbstract) = cls.methods := by
    refine List.filter_eq_self.mpr fun m hm => ?_
    rw [hmethods] at hm
    obtain ⟨clause, -, rfl⟩ := List.mem_map.mp hm
    rfl
  unfold selectInvoke
  dsimp only
  rw [hinvokes, hmethods, List.find?_map, List.find?_map]
  cases hexact : arities.zipIdx.find? ((fun m => !m.isVariadic && m.params.length == n) ∘ clauseMethod cls.name) with
  | some clause =>
    obtain ⟨a, i⟩ := clause
    have hclause := List.mem_zipIdx_iff_getElem?.mp (List.mem_of_find?_eq_some hexact)
    have htakes := List.find?_some hexact
    simp only [Function.comp_apply, clauseMethod, List.length_map, Bool.and_eq_true, Bool.not_eq_true',
      beq_iff_eq] at htakes
    refine .inl ⟨i, a, ⟨hclause, ?_, fun hvariadic => ?_⟩, rfl⟩
    · rw [FnArity.Serves, htakes.1]
      exact htakes.2
    · rw [htakes.1] at hvariadic
      cases hvariadic
  | none =>
    have hnone : ∀ a ∈ arities, a.isVariadic = false → a.names.length ≠ n := by
      intro a ha hfixed hlength
      obtain ⟨i, hi⟩ := List.mem_iff_getElem?.mp ha
      have hother := List.find?_eq_none.mp hexact (a, i) (List.mem_zipIdx_iff_getElem?.mpr hi)
      simp [clauseMethod, hfixed, hlength] at hother
    rw [Option.map_none]
    cases hrest : arities.zipIdx.find?
        ((fun m => m.isVariadic && decide (m.params.length ≤ n + 1)) ∘ clauseMethod cls.name) with
    | some clause =>
      obtain ⟨a, i⟩ := clause
      have hclause := List.mem_zipIdx_iff_getElem?.mp (List.mem_of_find?_eq_some hrest)
      have htakes := List.find?_some hrest
      simp only [Function.comp_apply, clauseMethod, List.length_map, Bool.and_eq_true, decide_eq_true_eq] at htakes
      refine .inl ⟨i, a, ⟨hclause, ?_, fun _ => hnone⟩, rfl⟩
      rw [FnArity.Serves, FnArity.required, htakes.1, if_pos rfl, if_pos rfl]
      omega
    | none =>
      refine .inr ⟨fun i a ha => ?_, rfl⟩
      have hserves := ha.serves
      unfold FnArity.Serves at hserves
      cases hv : a.isVariadic with
      | false =>
        rw [hv] at hserves
        exact hnone a (List.mem_of_getElem? ha.clause) hv hserves
      | true =>
        have hother := List.find?_eq_none.mp hrest (a, i) (List.mem_zipIdx_iff_getElem?.mpr ha.clause)
        simp only [Function.comp_apply, clauseMethod, List.length_map, hv, Bool.true_and, decide_eq_true_eq] at hother
        rw [hv, if_pos rfl, FnArity.required, hv, if_pos rfl] at hserves
        omega

/-- The method of a clause is given what the clause receives. -/
theorem packRest_clauseMethod {a : FnArity} {args : List Value} (hserves : a.Serves args.length)
    (name : String) (i : Nat) : packRest (clauseMethod name (a, i)) args = a.received args := by
  unfold FnArity.Serves at hserves
  unfold packRest FnArity.received
  cases hv : a.isVariadic with
  | false => simp [clauseMethod, hv]
  | true =>
    rw [hv, if_pos rfl] at hserves
    have hrequired : (clauseMethod name (a, i)).params.length - 1 = a.required := by
      simp [clauseMethod, FnArity.required, hv]
    have hempty : (args.drop a.required).isEmpty = true ↔ args.length = a.required := by
      rw [List.isEmpty_iff, List.drop_eq_nil_iff]
      omega
    rw [if_pos (show (clauseMethod name (a, i)).isVariadic = true from hv), hrequired]
    by_cases hlength : args.length = a.required
    · simp only [if_true, if_pos (hempty.mpr hlength), if_pos hlength]
    · simp only [if_true, if_neg (fun h => hlength (hempty.mp h)), if_neg hlength]

/-- An object made of a class that is registered. -/
structure InstanceOf (w : World) (o : ObjectRef) (cls : ClassInfo) : Prop where
  className : o.className = cls.name
  made : w.Made o cls
  registered : w.registry.find? cls.name = some cls

/-- It stays one while code runs. -/
theorem InstanceOf.course (h : InstanceOf w o cls) (hcourse : Course w w') : InstanceOf w' o cls :=
  ⟨h.className, h.made.course hcourse, hcourse.onward.registry ▸ h.registered⟩

theorem instanceOf_newInstance [Libraries] {fuel : Nat} {params : List Ty} {args : List Value} {v : Value}
    (hregistered : w.registry.find? cls.name = some cls)
    (hnew : newInstance (call fuel) cls.name params args w = .ok v w') : ∃ o, v = .object o ∧ InstanceOf w' o cls := by
  obtain ⟨c, k, a, hfound, -, -, rfl, hcall⟩ := newInstance_ok hnew
  cases hregistered.symm.trans hfound
  have hmade : InstanceOf (w.allocate cls).2 (w.allocate cls).1 cls := ⟨rfl, World.made_allocate w cls, hregistered⟩
  have hcourse := call_course fuel (.invoke cls k (some (.object (w.allocate cls).1)) args) (w.allocate cls).2
  rw [hcall] at hcourse
  exact ⟨_, rfl, hmade.course hcourse⟩

/-- Instances of a class that implements functions can be called. -/
theorem functionClass?_instance (h : InstanceOf w o cls) (hinterfaces : cls.interfaces = [Names.fn]) :
    functionClass? w o = some cls := by
  have hsub : w.registry.isSubclass o.className Names.fn = true := by
    refine Registry.isSubclass_iff.mpr (.inr (.inr (.single ⟨cls, ?_, ?_⟩)))
    · rw [h.className]
      exact h.registered
    · simp [ClassInfo.parents, hinterfaces]
  obtain ⟨i, hi, rfl, -⟩ := h.made
  rw [functionClass?, if_pos hsub, hi]
  rfl

/-- Whatever applies an instance of the class made for a `fn`, directly or by a handle prepared for the number
of arguments, asks for the method of the one clause that is chosen, which gets a value for each parameter; if no
clause is chosen, applying fails for the number of arguments, and no handle can be prepared. -/
theorem fn_dispatch [Libraries] {fuel : Nat} {d : Datum} {s t : FormState} {captures : List Capture}
    (hlevels : ∀ f ∈ s.scopes.frames, f.level ≤ s.methods.length)
    (hdefine : defineFn (handlers fuel) d s = .ok (cls, captures) t) :
    ∃ name arities, fnParts d = .ok (name, arities) ∧ FnClass (handlers fuel) name arities cls ∧
      t.world.registry.find? cls.name = some cls ∧
      ∀ (w : World) (o : ObjectRef), InstanceOf w o cls → ∀ (call : Caller) (args : List Value),
        (∃ i a, Chosen arities args.length i a ∧ (∀ j b, Chosen arities args.length j b → j = i) ∧
          (a.received args).length = a.names.length ∧
          ∃ m, cls.methods[i]? = some m ∧ m = clauseMethod cls.name (a, i) ∧
            applyValue call (.object o) args w = call (.invoke cls m (some (.object o)) (a.received args)) w ∧
            prepareCall w (.object o) args.length = .ok (.method cls m (.object o)) ∧
            runTarget call (.method cls m (.object o)) args
              = call (.invoke cls m (some (.object o)) (a.received args))) ∨
        ((∀ i a, ¬Chosen arities args.length i a) ∧
          applyValue call (.object o) args w = .error (.error (wrongArity args.length cls.name)) w ∧
          prepareCall w (.object o) args.length = .error (wrongArity args.length cls.name)) := by
  obtain ⟨name, arities, hparts, hclass, hfind⟩ := defineFn_ok (compiles_handlers fuel) hlevels hdefine
  refine ⟨name, arities, hparts, hclass, hfind, fun w o ho call args => ?_⟩
  obtain ⟨hcheck, hnames⟩ := fnParts_ok hparts
  have hfunction := functionClass?_instance ho hclass.interfaces
  have happly : applyValue call (.object o) args w = (do
      let m ← Action.ofExcept (selectInvoke cls args.length)
      call (.invoke cls m (some (.object o)) (packRest m args))) w := by
    rw [applyValue, State.bind_of_ok (State.get_eq w), hfunction]
  have hprepare : prepareCall w (.object o) args.length
      = (selectInvoke cls args.length).map fun m => .method cls m (.object o) := by
    rw [prepareCall, hfunction]
  rcases selectInvoke_cases hclass.methods args.length with ⟨i, a, hchosen, hselect⟩ | ⟨hnone, hselect⟩
  · have hpack := packRest_clauseMethod hchosen.serves cls.name i
    refine .inl ⟨i, a, hchosen, fun j b hb => chosen_unique hcheck hchosen hb, ?_, _, ?_, rfl, ?_, ?_, ?_⟩
    · exact length_received hchosen.serves (hnames a (List.mem_of_getElem? hchosen.clause))
    · rw [hclass.methods, List.getElem?_map, List.getElem?_zipIdx, hchosen.clause, Nat.zero_add]
      rfl
    · rw [happly, hselect, State.bind_of_ok (Action.ofExcept_ok _ w), hpack]
    · rw [hprepare, hselect]
      rfl
    · rw [runTarget, hpack]
  · refine .inr ⟨hnone, ?_, ?_⟩
    · rw [happly, hselect, State.bind_of_error (Action.ofExcept_error _ w)]
    · rw [hprepare, hselect]
      rfl

/-- The form `(fn ([x] x) ([x & more] more))`. -/
def oneOrMore : Datum :=
  let x : Datum := .symbol "x" default
  let more : Datum := .symbol "more" default
  .ofList [.symbol "fn" default, .ofList [.ofVector [x] default, x] default,
    .ofList [.ofVector [x, .symbol "&" default, more] default, more] default] default

/-- Its second arity. -/
def someMore : FnArity :=
  { names := ["x", "more"], isVariadic := true, body := [.symbol "more" default] }

/-- Its two arities. -/
def oneOrMoreArities : List FnArity :=
  [{ names := ["x"], isVariadic := false, body := [.symbol "x" default] }, someMore]

/-- The class of a `fn`, made with no image in between. -/
theorem exists_defineFn [Libraries] {h : Handlers} {d : Datum} {s : FormState} {name : Option String}
    {arities : List FnArity}
    {q : ClassInfo × FormState → Bool} (hparts : fnParts d = .ok (name, arities))
    (hq : (State.answer? (buildArities h name arities s)).any (fun r => Agreement.isLoadable r.1.1 &&
      (State.answer? (Agreement.loadUnread r.1.1 r.2)).any q) = true) :
    ∃ cls captures t, defineFn h d s = .ok (cls, captures) t ∧ q (cls, t) = true := by
  obtain ⟨⟨file, captures⟩, s₁, hbuild, hq⟩ := State.exists_answer hq
  rw [← buildFn_of_parts hparts] at hbuild
  obtain ⟨hloadable, hq⟩ := Bool.and_eq_true_iff.mp hq
  obtain ⟨cls, t, hload, hq⟩ := State.exists_answer hq
  rw [← Agreement.loadClass_eq hloadable] at hload
  refine ⟨cls, captures, t, ?_, hq⟩
  rw [defineFn, State.bind_of_ok hbuild]
  exact State.bind_of_ok hload

/-- Of the two arities the second is run for two arguments, and gets the second argument in a list. -/
theorem fn_dispatch_more :
    ∃ cls captures t w o m, defineFn (handlers 1) oneOrMore { world := { registry := Host.registry } }
        = .ok (cls, captures) t ∧ InstanceOf w o cls ∧ cls.methods[1]? = some m ∧
      ∀ call, applyValue call (.object o) [.int 5, .int 6] w
        = call (.invoke cls m (some (.object o)) [.int 5, .list [.int 6]]) w := by
  have hparts : fnParts oneOrMore = .ok (none, oneOrMoreArities) := by cbv
  obtain ⟨cls, captures, t, hdefine, hmakes⟩ := exists_defineFn (h := handlers 1)
    (s := { world := { registry := Host.registry } })
    (q := fun r => (State.answer? (newInstance (call 4) r.1.name [] [] r.2.world)).any fun _ => true)
    hparts (by decide +kernel)
  obtain ⟨v, w, hnew, -⟩ := State.exists_answer hmakes
  obtain ⟨name, arities, hread, -, hfind, hcalls⟩ := fn_dispatch (by simp) hdefine
  cases hparts.symm.trans hread
  obtain ⟨o, -, ho⟩ := instanceOf_newInstance hfind hnew
  have hsecond : Chosen oneOrMoreArities 2 1 someMore := ⟨rfl, Nat.le_succ 1, fun _ => by decide⟩
  have hrun : ∀ call, cls.methods[1]? = some (clauseMethod cls.name (someMore, 1)) ∧
      applyValue call (.object o) [.int 5, .int 6] w
        = call (.invoke cls (clauseMethod cls.name (someMore, 1)) (some (.object o)) [.int 5, .list [.int 6]]) w := by
    intro call
    rcases hcalls w o ho call [.int 5, .int 6] with ⟨i, a, hchosen, honly, -, m, hm, rfl, happly, -⟩ | ⟨hnone, -⟩
    · cases honly 1 someMore hsecond
      cases hchosen.clause
      exact ⟨hm, happly⟩
    · exact absurd hsecond (hnone 1 someMore)
  exact ⟨cls, captures, t, w, o, _, hdefine, ho, (hrun (call 0)).1, fun call => (hrun call).2⟩

end Calls

end Machine

end LispMachine
