import Mathlib.Data.List.Sort
import Mathlib.Order.Defs.Unbundled
import LispMachine.Proofs.Context.EvaluatedForms

/-! # Classes by name while a form is worked on

A name stands for the class it is imported as, or else for the class registered under it.  `Undisturbed`
says that all names of the current namespace go on standing for their classes, and `Along R` says of work on
a form that, however it ends, the world then stands to the world before as `R` says.  What only emits code
leaves the world alone; compiling the methods of a type does what compiling the forms in them does
(`along_buildType`). -/

namespace LispMachine

/-! ### Tables and the registry -/

theorem Table.lookup_erase {α β : Type} [DecidableEq α] (es : List (α × β)) (k j : α) :
    Table.lookup j (es.filter fun e => !decide (e.1 = k)) = if k = j then none else Table.lookup j es := by
  induction es with
  | nil => simp [Table.lookup]
  | cons e rest ih =>
    obtain ⟨k', v⟩ := e
    by_cases hk : k' = k
    · subst hk
      by_cases hj : k' = j
      · subst hj
        simpa using ih
      · simp [Table.lookup, ih, hj]
    · by_cases hj : k' = j
      · subst hj
        simp [Table.lookup, hk, Ne.symm hk]
      · simp [Table.lookup, hk, hj, ih]

/-- Taking a key out changes no other lookup. -/
theorem Table.find?_erase {α β : Type} [DecidableEq α] (t : Table α β) (k j : α) :
    (t.erase k).find? j = if k = j then none else t.find? j :=
  Table.lookup_erase t.entries k j

/-- Putting back what stood under a name changes that name alone. -/
theorem Registry.find?_reinstate (r : Registry) (name other : String) (previous : Option ClassInfo) :
    (r.reinstate name previous).find? other = if name = other then previous else r.find? other := by
  cases previous with
  | none => exact Table.find?_erase r.classes name other
  | some c => exact Table.find?_insert r.classes name other c

theorem Registry.contains_of_find? {r : Registry} {name : String} {c : ClassInfo} (h : r.find? name = some c) :
    r.contains name = true := by
  have hfound : r.classes.find? name = some c := h
  simp [contains, Table.contains, hfound]

theorem Registry.find?_of_contains {r : Registry} {name : String} (h : r.contains name = true) :
    ∃ c, r.find? name = some c := Option.isSome_iff_exists.mp h

/-- A class is registered as it is, with a number and with the layout of its objects. -/
theorem Registry.register_eq {r r' : Registry} {c c' : ClassInfo} (h : r.register c = .ok (c', r')) :
    (∃ inherited, c' = { c with serial := r.next, layout := layoutOf inherited c.fields }) ∧
      r' = { classes := r.classes.insert c.name c', next := r.next + 1 } := by
  unfold register at h
  split at h
  · split at h
    · cases h
    · split at h <;> cases h
  · split at h
    · cases h
      exact ⟨⟨_, rfl⟩, rfl⟩
    · split at h
      · cases h
        exact ⟨⟨_, rfl⟩, rfl⟩
      · cases h

/-- A class is registered under its name, and no other name is touched. -/
theorem Registry.register_ok {r r' : Registry} {c c' : ClassInfo} (h : r.register c = .ok (c', r')) :
    c'.name = c.name ∧ ∀ name, r'.find? name = if c.name = name then some c' else r.find? name := by
  obtain ⟨⟨inherited, rfl⟩, rfl⟩ := register_eq h
  refine ⟨rfl, fun name => ?_⟩
  exact Table.find?_insert r.classes c.name name _

namespace World

theorem here_changeSpace (w : World) (change : Space → Space) :
    (w.changeSpace w.current change).here = change w.here := by
  simp only [changeSpace, here, space?, Table.find?_insert, if_true, Option.getD_some]

/-- An import is one more name for a class that is there. -/
theorem importClass_ok {w w' : World} {full : String} (h : w.importClass full = .ok w') :
    w'.current = w.current ∧ w'.registry = w.registry ∧
      ∀ name, w'.here.imports.find? name
        = if simpleClassName full = name then some full else w.here.imports.find? name := by
  unfold importClass at h
  split at h
  · cases h
    refine ⟨rfl, rfl, fun name => ?_⟩
    rw [here_changeSpace]
    exact Table.find?_insert w.here.imports _ name full
  · cases h

/-- What a name stands for rests on its import, the class under the imported name and the class under the name
itself. -/
theorem resolveClass?_of_same {w w' : World} {name : String} {c : ClassInfo}
    (himport : w'.here.imports.find? name = w.here.imports.find? name)
    (hfull : ∀ full, w.here.imports.find? name = some full → w'.registry.find? full = w.registry.find? full)
    (hclass : w.registry.find? name = some c → w'.registry.find? name = some c)
    (hname : w.resolveClass? name = some c) : w'.resolveClass? name = some c := by
  unfold resolveClass? at hname ⊢
  rw [himport]
  cases hbound : w.here.imports.find? name with
  | none =>
    rw [hbound] at hname
    exact hclass hname
  | some full =>
    rw [hbound, Option.bind_some] at hname
    rw [Option.bind_some, hfull full hbound]
    cases hfound : w.registry.find? full with
    | some c' => rwa [hfound] at hname
    | none =>
      rw [hfound] at hname
      exact hclass hname

/-! ### Worlds in which names stand for the same classes -/

/-- The second world has the imports of the first, and the classes of the first under the names that are
registered or imported there; classes of other names may have been added. -/
structure Undisturbed (w w' : World) : Prop where
  current : w'.current = w.current
  imports : ∀ name, w'.here.imports.find? name = w.here.imports.find? name
  classes : ∀ name, w.registry.contains name = true ∨ (∃ simple, w.here.imports.find? simple = some name) →
    w'.registry.find? name = w.registry.find? name

namespace Undisturbed

variable {w w' w'' : World}

theorem refl (w : World) : Undisturbed w w := ⟨rfl, fun _ => rfl, fun _ _ => rfl⟩

theorem trans (h : Undisturbed w w') (h' : Undisturbed w' w'') : Undisturbed w w'' where
  current := h'.current.trans h.current
  imports name := (h'.imports name).trans (h.imports name)
  classes name hname := by
    rw [← h.classes name hname]
    refine h'.classes name (hname.imp (fun hcontains => ?_) fun ⟨simple, hsimple⟩ => ?_)
    · obtain ⟨c, hc⟩ := Registry.find?_of_contains hcontains
      exact Registry.contains_of_find? ((h.classes name hname).trans hc)
    · exact ⟨simple, (h.imports simple).trans hsimple⟩

instance : IsPreorder World Undisturbed where
  refl := refl
  trans _ _ _ := trans

/-- What a name stood for it still stands for. -/
theorem resolveClass? (h : Undisturbed w w') {name : String} {c : ClassInfo}
    (hname : w.resolveClass? name = some c) : w'.resolveClass? name = some c :=
  resolveClass?_of_same (h.imports name) (fun full himport => h.classes full (.inr ⟨name, himport⟩))
    (fun hclass => (h.classes name (.inl (Registry.contains_of_find? hclass))).trans hclass) hname

end Undisturbed

end World

namespace Form

open World

/-! ### Work that leaves the classes alone -/

/-- The world some work ends in, well or not. -/
def endWorld {α : Type} : EStateM.Result Fault FormState α → World
  | .ok _ t => t.world
  | .error _ t => t.world

/-- However the work ends, the world then stands to the world before as `R` says. -/
def Along {α : Type} (R : World → World → Prop) (x : FormM α) : Prop := ∀ s, R s.world (endWorld (x s))

section Along

variable {α β : Type} {R : World → World → Prop} {x : FormM α} {f : α → FormM β}

theorem along_ite {c : Prop} [Decidable c] {x y : FormM α} (hx : Along R x) (hy : Along R y) :
    Along R (if c then x else y) := by
  split
  · exact hx
  · exact hy

/-- Work in changed surroundings, which are left again at every end. -/
theorem along_enclosed {x : FormState → FormM α} {y : FormM α} (enter : FormState → FormState)
    (leave : FormState → FormState → FormState) (hrun : ∀ s, y s = (x s).andFinally (leave s) (enter s))
    (hx : ∀ s, Along R (x s)) (henter : ∀ s, (enter s).world = s.world)
    (hleave : ∀ s t, (leave s t).world = t.world) : Along R y := by
  intro s
  have hinside := hx s (enter s)
  rw [henter] at hinside
  rw [hrun, FormM.andFinally]
  cases hend : x s (enter s) with
  | ok a t =>
    rw [hend] at hinside
    simpa only [endWorld, hleave] using hinside
  | error e t =>
    rw [hend] at hinside
    simpa only [endWorld, hleave] using hinside

theorem Along.atSpan (hx : Along R x) (span : Span) : Along R (x.atSpan span) := by
  intro s
  have hend := hx s
  unfold FormM.atSpan
  cases hrun : x s with
  | ok a t =>
    rw [hrun] at hend
    exact hend
  | error e t =>
    rw [hrun] at hend
    cases e <;> exact hend

variable [IsPreorder World R]

theorem along_pure (a : α) : Along R (pure a : FormM α) := fun s => refl_of R s.world

theorem along_fail (e : Error) : Along R (FormM.fail e : FormM α) := fun s => refl_of R s.world

theorem along_get : Along R (get : FormM FormState) := fun s => refl_of R s.world

theorem along_ofExcept (e : Except Error α) : Along R (FormM.ofExcept e) := by
  cases e with
  | ok a => exact along_pure a
  | error e => exact along_fail e

theorem along_modify {change : FormState → FormState} (h : ∀ s, (change s).world = s.world) :
    Along R (modify change : FormM PUnit) := by
  intro s
  rw [State.modify_eq, endWorld, h]
  exact refl_of R s.world

theorem Along.bind (hx : Along R x) (hf : ∀ a, Along R (f a)) : Along R (x >>= f) := by
  intro s
  have hfirst := hx s
  rw [State.bind_eq]
  cases hrun : x s with
  | ok a t =>
    rw [hrun] at hfirst
    exact trans_of R hfirst (hf a t)
  | error e t =>
    rw [hrun] at hfirst
    exact hfirst

theorem along_mapM {xs : List α} (h : ∀ a ∈ xs, Along R (f a)) : Along R (xs.mapM f) := by
  induction xs with
  | nil =>
    rw [List.mapM_nil]
    exact along_pure _
  | cons a rest ih =>
    rw [List.mapM_cons]
    refine (h a List.mem_cons_self).bind fun b => Along.bind ?_ fun _ => along_pure _
    exact ih fun c hc => h c (List.mem_cons_of_mem _ hc)

theorem along_forM {xs : List α} {f : α → FormM PUnit} (h : ∀ a ∈ xs, Along R (f a)) : Along R (xs.forM f) := by
  induction xs with
  | nil => exact along_pure _
  | cons a rest ih =>
    exact (h a List.mem_cons_self).bind fun _ => ih fun b hb => h b (List.mem_cons_of_mem _ hb)

end Along

/-! ### The surroundings of a form -/

section Surroundings

variable {α : Type} {R : World → World → Prop} {x : FormM α}

theorem along_withTail (tail : Bool) (hx : Along R x) : Along R (FormM.withTail tail x) :=
  along_enclosed (fun s => { s with tail }) (fun s t => { t with tail := s.tail }) (fun _ => rfl)
    (fun _ => hx) (fun _ => rfl) fun _ _ => rfl

theorem along_withLoop (target : LoopTarget) (hx : Along R x) : Along R (withLoop target x) :=
  along_enclosed (fun s => { s with loops := target :: s.loops }) (fun s t => { t with loops := s.loops })
    (fun _ => rfl) (fun _ => hx) (fun _ => rfl) fun _ _ => rfl

theorem releaseSlots_world (frames : List ScopeFrame) (level : Nat) (s : FormState) :
    (FormM.releaseSlots frames level s).world = s.world := by
  unfold FormM.releaseSlots
  split
  · split <;> rfl
  · rfl

theorem along_withScope (kind : ScopeKind) (hx : Along R x) : Along R (FormM.withScope kind x) :=
  along_enclosed (fun s => { s with scopes := s.scopes.push kind s.methods.length })
    (fun s t => FormM.releaseSlots (t.scopes.truncate s.scopes.depth).1 s.methods.length
      { t with scopes := (t.scopes.truncate s.scopes.depth).2 }) (fun _ => rfl) (fun _ => hx) (fun _ => rfl)
    fun _ _ => releaseSlots_world ..

variable [IsPreorder World R]

theorem along_bindName (b : Binding) : Along R (FormM.bindName b) :=
  along_get.bind fun _ => (along_ofExcept _).bind fun _ => along_modify fun _ => rfl

theorem along_withMethod (context : MethodContext) (hx : Along R x) : Along R (FormM.withMethod context x) := by
  rw [Keeping.withMethod_eq]
  refine (along_enclosed (fun s => { s with methods := context :: s.methods, loops := [] })
    (fun s t => { t with
      loops := s.loops, tail := s.tail, methods := t.methods.drop (t.methods.length - s.methods.length) })
    (fun _ => rfl) (fun _ => hx.bind fun _ => along_get.bind fun _ => along_pure _) (fun _ => rfl)
    fun _ _ => rfl).bind fun (a, made) => ?_
  cases made with
  | some made => exact along_pure _
  | none => exact along_fail _

theorem along_withClass (context : ClassContext) {x : Nat → FormM α} (hx : ∀ i, Along R (x i)) :
    Along R (FormM.withClass context x) := by
  rw [Keeping.withClass_eq]
  refine (along_enclosed (fun s => { s with classes := s.classes.push context })
    (fun s t => { t with classes := t.classes.take s.classes.size }) (fun _ => rfl)
    (fun s => (hx s.classes.size).bind fun _ => along_get.bind fun _ => along_pure _) (fun _ => rfl)
    fun _ _ => rfl).bind fun (a, made) => ?_
  cases made with
  | some made => exact along_pure _
  | none => exact along_fail _

theorem along_modifyMethod (f : MethodContext → MethodContext) : Along R (FormM.modifyMethod f) := by
  refine along_get.bind fun s => ?_
  split
  · exact along_modify fun _ => rfl
  · exact along_fail _

theorem along_method : Along R FormM.method := by
  refine along_get.bind fun s => ?_
  split
  · exact along_pure _
  · exact along_fail _

theorem along_onCode (f : CodeBuffer → α × CodeBuffer) : Along R (FormM.onCode f) :=
  along_method.bind fun _ => (along_modifyMethod _).bind fun _ => along_pure _

theorem along_topType? : Along R FormM.topType? :=
  (along_method.bind fun _ => along_pure _).bind fun _ => along_pure _

theorem along_currentClass : Along R FormM.currentClass := by
  refine along_get.bind fun s => ?_
  refine Along.bind ?_ fun i => ?_
  · refine along_get.bind fun s => ?_
    split
    · exact along_pure _
    · exact along_ite (along_fail _) (along_pure _)
  · split
    · exact along_pure _
    · exact along_fail _

theorem along_modifyClass (f : ClassContext → ClassContext) : Along R (FormM.modifyClass f) := by
  refine Along.bind (along_get.bind fun s => ?_) fun i => along_modify fun _ => rfl
  split
  · exact along_pure _
  · exact along_ite (along_fail _) (along_pure _)

theorem along_emit (i : Instruction) : Along R (FormM.emit i) := by
  refine along_get.bind fun s => ?_
  split
  · exact along_fail _
  · refine along_ite (along_pure _) ((along_ofExcept _).bind fun effect => ?_)
    refine (along_modifyMethod _).bind fun _ => (along_ofExcept _).bind fun _ => ?_
    exact (along_modifyMethod _).bind fun _ => along_ite (along_modifyMethod _) (along_pure _)

theorem along_emitAll (code : List Instruction) : Along R (FormM.emitAll code) :=
  along_forM fun i _ => along_emit i

theorem along_emitConstant (c : Constant) : Along R (FormM.emitConstant c) :=
  (along_emit _).bind fun _ => along_modifyMethod _

theorem along_emitCall (spec : SiteSpec) : Along R (FormM.emitCall spec) :=
  along_currentClass.bind fun _ => (along_modifyClass _).bind fun _ => along_emit _

theorem along_popValue : Along R FormM.popValue := by
  refine along_topType?.bind fun ty => ?_
  split
  · exact along_emit _
  · exact along_emit _
  · exact along_pure _

end Surroundings

/-! ### Forms and methods -/

section Methods

variable {R : World → World → Prop} [IsPreorder World R]

theorem along_world : Along R FormM.world := along_get.bind fun _ => along_pure _

theorem along_registry : Along R FormM.registry := along_get.bind fun _ => along_pure _

theorem along_resolve (name : String) : Along R (resolve name) := by
  refine (along_get.bind fun _ => along_ofExcept _).bind fun r => ?_
  split
  · exact along_pure _
  · exact along_fail _

theorem along_capture (name : String) (ty : Ty) : Along R (FormM.capture name ty) := by
  refine along_currentClass.bind fun c => along_ite (along_fail _) ?_
  split
  · exact along_pure _
  · exact (along_modifyClass _).bind fun _ => along_pure _

theorem along_loadField (field : String) (ty : Ty) : Along R (loadField field ty) :=
  ((along_currentClass.bind fun _ => along_pure _).bind fun _ => (along_emit _).bind fun _ =>
    along_pure _).bind fun _ => along_emit _

theorem along_compileName (name : String) (span : Span) : Along R (compileName name span) := by
  refine (along_resolve name).bind fun r => ?_
  split
  · exact (along_capture _ _).bind fun _ => along_loadField _ _
  · unfold loadBinding
    split
    · exact along_emit _
    · exact along_emit _
    · exact along_loadField _ _
    · exact along_fail _
  · exact along_world.bind fun _ => (along_ofExcept _).bind fun _ => along_emitCall _
  · exact along_emitConstant _
  · exact along_emitConstant _
  · exact along_emit _

theorem along_emitForm (d : Datum) {x : FormM Unit} (hx : Along R x) : Along R (emitForm d x) := by
  refine (along_method.bind fun _ => along_pure _).bind fun before => (hx.atSpan _).bind fun _ => ?_
  exact (along_method.bind fun _ => along_pure _).bind fun stack => along_ite (along_pure _) (along_fail _)

/-- Names and literals are compiled without a change of the world. -/
theorem along_compile_atom [Libraries] (fuel : Nat) (a : Atom) (i : Info) :
    Along R ((handlers (fuel + 1)).compile (.atom a i)) := by
  have hanalysis : ∃ analysis, analyse (handlers fuel).call (.atom a i) = pure analysis ∧
      (analysis = .name ∨ ∃ c, analysis = .constant c) := by
    cases a with
    | symbol name => exact ⟨_, rfl, .inl rfl⟩
    | _ => exact ⟨_, rfl, .inr ⟨_, rfl⟩⟩
  obtain ⟨analysis, hanalysis, hkind⟩ := hanalysis
  change Along R (compileForm (handlers fuel) (.atom a i))
  rw [compileForm, hanalysis, pure_bind]
  refine along_emitForm _ ?_
  rcases hkind with rfl | ⟨c, rfl⟩
  · change Along R (compileSymbol (.atom a i))
    unfold compileSymbol
    split
    · exact along_compileName _ _
    · exact along_fail _
  · exact along_emitConstant c

variable {h : Handlers}

theorem along_compileBody {forms : List Datum} (hforms : ∀ d ∈ forms, Along R (h.compile d)) :
    Along R (compileBody h forms) := by
  induction forms with
  | nil => exact along_emitConstant _
  | cons d rest ih =>
    cases rest with
    | nil => exact hforms d List.mem_cons_self
    | cons d' rest =>
      refine (along_withTail false (hforms d List.mem_cons_self)).bind fun _ => along_popValue.bind fun _ => ?_
      exact ih fun e he => hforms e (List.mem_cons_of_mem _ he)

theorem along_emitReturn (cls : String) (p : MethodPlan) : Along R (emitReturn cls p) := by
  refine along_topType?.bind fun ty => ?_
  split
  · exact along_pure _
  · refine along_registry.bind fun r => ?_
    split
    · exact (along_emitAll _).bind fun _ => along_emit _
    · exact along_world.bind fun _ => along_fail _

theorem along_compileMethodBody (cls : String) {p : MethodPlan}
    (hbody : ∀ d ∈ p.body, Along R (h.compile d)) : Along R (compileMethodBody h cls p) := by
  refine along_withScope _ (Along.bind ?_ fun _ => along_withScope _ ?_)
  · refine (along_forM fun _ _ => along_bindName _).bind fun _ => ?_
    split
    · exact along_bindName _
    · exact along_pure _
  · refine (along_onCode _).bind fun first => (along_forM fun _ _ => along_bindName _).bind fun _ => ?_
    refine Along.bind ?_ fun _ => (along_emitReturn _ _).bind fun _ => (along_onCode _).bind fun last =>
      along_forM fun _ _ => along_modifyMethod _
    exact along_ite (along_withLoop _ (along_withTail _ (along_compileBody hbody)))
      (along_withTail _ (along_compileBody hbody))

theorem along_buildMethod (owner : Nat) {p : MethodPlan} (hbody : ∀ d ∈ p.body, Along R (h.compile d)) :
    Along R (buildMethod h owner p) := by
  refine along_get.bind fun s => ?_
  split
  · exact along_fail _
  · refine (along_withMethod _ (along_compileMethodBody _ hbody)).bind fun (_, context) => ?_
    exact (along_ofExcept _).bind fun code => along_modify fun _ => rfl

theorem along_buildType (full : String) (interfaces : List String) (fields : List FieldBinding)
    {methods : List TypeMethod} (hbody : ∀ m ∈ methods, ∀ d ∈ m.body, Along R (h.compile d)) :
    Along R (buildType h full interfaces fields methods) := by
  refine Along.bind ?_ fun file => Along.bind (Along.bind (along_withClass _ fun owner => ?_) fun (_, context) => ?_)
    fun _ => along_pure _
  · exact (along_world.bind fun _ => along_pure _).bind fun _ => along_pure _
  · refine along_forM fun plan hplan => along_registry.bind fun r => along_buildMethod _ ?_
    obtain ⟨m, hm, rfl⟩ := List.mem_map.mp hplan
    have hsame : (methodPlan r (interfaces ++ [Names.object]) m).body = m.body := by
      unfold methodPlan
      dsimp only
      split <;> rfl
    rw [hsame]
    exact hbody m hm
  · exact (along_ofExcept _).bind fun _ => along_pure _

end Methods

end Form

/-! ### The world a session starts with, computed

The start of a session sorts the vars of the core namespace by name before it refers them.  The names are all different,
so any way to sort them gives the same list; with one that can be evaluated step by step, the whole world can be
(`start_eq`), and closed statements about sessions become decidable by running them. -/

namespace World

open List

/-- The vars a namespace owns, as the table lists them. -/
def ownVarsUnsorted (w : World) (space : String) : List VarRef :=
  (((w.space? space).getD {}).mappings.entries.map Prod.snd).filter fun v => v.space == space

/-- The order of the names of vars. -/
def NameLe (a b : VarRef) : Prop := a.name ≤ b.name

instance (a b : VarRef) : Decidable (NameLe a b) := inferInstanceAs (Decidable (a.name ≤ b.name))

instance : IsTrans VarRef NameLe := ⟨fun _ _ _ h h' => String.le_trans h h'⟩

instance : Std.Total NameLe := ⟨fun a b => String.le_total a.name b.name⟩

/-- Where names are different, there is one way to put vars in the order of their names. -/
theorem ownVars_eq (w : World) (space : String)
    (hdistinct : ((w.ownVarsUnsorted space).map VarRef.name).Nodup) :
    w.ownVars space = (w.ownVarsUnsorted space).insertionSort NameLe := by
  change (w.ownVarsUnsorted space).mergeSort (NameLe · ·) = _
  generalize w.ownVarsUnsorted space = vars at *
  have hperm := (mergeSort_perm vars (NameLe · ·)).trans (perm_insertionSort NameLe vars).symm
  refine hperm.eq_of_pairwise (fun a b ha hb hab hba => ?_) (pairwise_mergeSort' NameLe vars)
    (pairwise_insertionSort NameLe vars)
  -- Two vars of one name are the same var, as the names in the list are different.
  exact inj_on_of_nodup_map hdistinct (mem_mergeSort.mp ha) ((mem_insertionSort _).mp hb)
    (String.le_antisymm hab hba)

/-- Gives a namespace some vars and the built-in classes. -/
def introduce (w : World) (name : String) (vars : List VarRef) : World :=
  w.changeSpace name fun s =>
    let s := vars.foldl refer s
    { s with imports := Host.defaultImports.foldl (fun t e => t.insert e.1 e.2) s.imports }

/-- The core namespace, before anything refers to it. -/
def coreAlone : World :=
  let w : World := { registry := Host.registry, current := Names.userSpace }
  let w := (w.ensureSpace Names.userSpace).ensureSpace Names.coreSpace
  let w := SpecialForm.all.foldl (fun w f => w.defineCore f.title (.special f)) w
  Native.all.foldl (fun w n => w.defineCore n.title (.function (.native n))) w

/-- The world a session starts with, sorted step by step. -/
def startByInsertion (options : Options) : World :=
  let vars := (coreAlone.ownVarsUnsorted Names.coreSpace).insertionSort NameLe
  { coreAlone.introduce Names.userSpace vars with options }

theorem start_eq (options : Options) : start options = startByInsertion options := by
  have hdistinct : ((coreAlone.ownVarsUnsorted Names.coreSpace).map VarRef.name).Nodup := by
    decide +kernel
  have hcore : core = coreAlone.introduce Names.userSpace (coreAlone.ownVars Names.coreSpace) := by
    change coreAlone.prepareSpace Names.userSpace = _
    rw [prepareSpace, if_neg (by decide)]
    rfl
  rw [start, hcore, ownVars_eq _ _ hdistinct]
  rfl

end World

end LispMachine
