import LispMachine.Proofs.Agreement.Proxies
import LispMachine.Proofs.Emission.Verified
import LispMachine.Proofs.Machine.Onward
import LispMachine.Proofs.World.FailedTypes

/-! # The class names of types

The class of a type is called after the namespace that declares it, in the spelling of class names, and after
its simple name.  Class names keep the simple names apart, but namespaces only as far as their spellings are
apart (`className_eq_iff`), and several characters are spelled the same: `a-b` and `a_b` have one stem, and every
namespace has that of the one called like it (`className_munge`).  So what a definition displaces is the class of
its own name, which may be a type of another namespace (`later_definition_displaces`). -/

namespace LispMachine

/-! ### The spelling of a namespace -/

section Spelling

variable {c d : Char} {as bs : List Char} {m n : String}

/-- The characters that class names do not hold as they are. -/
def spelledOut : List Char := ['-', '?', '!', '*', '+', '>', '<', '=', '/', '.']

theorem mungeChar_of_notMem (h : c ∉ spelledOut) : mungeChar c = [c] := by
  have hne : ∀ d ∈ spelledOut, c ≠ d := fun d hd heq => h (heq ▸ hd)
  unfold mungeChar
  split
  case h_11 => rfl
  all_goals exact absurd rfl (hne _ (by decide))

theorem mungeChar_ne_nil (c : Char) : mungeChar c ≠ [] := by
  by_cases h : c ∈ spelledOut
  · have hlisted : spelledOut.all fun c => mungeChar c ≠ [] := by decide
    exact of_decide_eq_true (List.all_eq_true.mp hlisted c h)
  · rw [mungeChar_of_notMem h]
    exact List.cons_ne_nil _ _

/-- What a character is spelled with is spelled as it is, and is no dot. -/
theorem mungeChar_of_mem (h : d ∈ mungeChar c) : mungeChar d = [d] ∧ d ≠ '.' := by
  by_cases hc : c ∈ spelledOut
  · have hlisted : spelledOut.all fun c => (mungeChar c).all fun d => mungeChar d = [d] ∧ d ≠ '.' := by decide
    exact of_decide_eq_true (List.all_eq_true.mp (List.all_eq_true.mp hlisted c hc) d h)
  · rw [mungeChar_of_notMem hc, List.mem_singleton] at h
    subst h
    exact ⟨mungeChar_of_notMem hc, fun hdot => hc (by simp [hdot, spelledOut])⟩

theorem toList_munge (name : String) : (munge name).toList = name.toList.flatMap mungeChar := String.toList_ofList

theorem dot_notMem_munge (name : String) : '.' ∉ (munge name).toList := by
  rw [toList_munge, List.mem_flatMap]
  rintro ⟨c, -, hdot⟩
  exact (mungeChar_of_mem hdot).2 rfl

/-- A namespace has the same stem as the one that is called like the stem. -/
theorem munge_munge (name : String) : munge (munge name) = munge name := by
  have hkept : ∀ d ∈ (munge name).toList, mungeChar d = [d] := by
    intro d hd
    rw [toList_munge, List.mem_flatMap] at hd
    obtain ⟨c, -, hd⟩ := hd
    exact (mungeChar_of_mem hd).1
  refine String.toList_injective ?_
  calc (munge (munge name)).toList
      = (munge name).toList.flatMap mungeChar := toList_munge _
    _ = (munge name).toList.flatMap fun d => [d] := List.flatMap_congr hkept
    _ = (munge name).toList := List.flatMap_singleton' _

/-- The spelling of no character in the one name is a part of, or continues, that of another in the other. -/
def SpelledApart (m n : String) : Prop :=
  ∀ c ∈ m.toList, ∀ d ∈ n.toList, mungeChar c <+: mungeChar d ∨ mungeChar d <+: mungeChar c → c = d

instance (m n : String) : Decidable (SpelledApart m n) :=
  @List.decidableBAll _ _ (fun _ => List.decidableBAll _ _) m.toList

/-- The first characters in which two names differ show in the stems. -/
theorem eq_of_spellings (hapart : ∀ c ∈ as, ∀ d ∈ bs, mungeChar c <+: mungeChar d ∨ mungeChar d <+: mungeChar c → c = d)
    (heq : as.flatMap mungeChar = bs.flatMap mungeChar) : as = bs := by
  induction as generalizing bs with
  | nil =>
    cases bs with
    | nil => rfl
    | cons d bs => exact absurd (List.append_eq_nil_iff.mp heq.symm).1 (mungeChar_ne_nil d)
  | cons c as ih =>
    cases bs with
    | nil => exact absurd (List.append_eq_nil_iff.mp heq).1 (mungeChar_ne_nil c)
    | cons d bs =>
      rw [List.flatMap_cons, List.flatMap_cons] at heq
      have hsame : c = d := by
        have hc : mungeChar c <+: mungeChar c ++ as.flatMap mungeChar := List.prefix_append _ _
        have hd : mungeChar d <+: mungeChar c ++ as.flatMap mungeChar := heq ▸ List.prefix_append _ _
        exact hapart c List.mem_cons_self d List.mem_cons_self (List.prefix_or_prefix_of_prefix hc hd)
      subst hsame
      rw [ih (fun a ha b hb => hapart a (List.mem_cons_of_mem _ ha) b (List.mem_cons_of_mem _ hb))
        (List.append_cancel_left heq)]

theorem munge_injective_of_apart (hapart : SpelledApart m n) (heq : munge m = munge n) : m = n := by
  have hlists := congrArg String.toList heq
  rw [toList_munge, toList_munge] at hlists
  exact String.toList_injective (eq_of_spellings hapart hlists)

/-- Names that class names hold as they are are spelled apart. -/
theorem spelledApart_of_plain (hm : ∀ c ∈ m.toList, c ∉ spelledOut) (hn : ∀ c ∈ n.toList, c ∉ spelledOut) :
    SpelledApart m n := by
  intro c hc d hd hprefix
  rw [mungeChar_of_notMem (hm c hc), mungeChar_of_notMem (hn d hd)] at hprefix
  rcases hprefix with hprefix | hprefix
  · exact (List.cons_prefix_cons.mp hprefix).1
  · exact (List.cons_prefix_cons.mp hprefix).1.symm

end Spelling

namespace Form

/-! ### The name of a class -/

/-- The class name of a type of a namespace. -/
def className (space simple : String) : String := munge space ++ "." ++ simple

/-- The first dot divides a text. -/
theorem divided_inj {stem stem' rest rest' : List Char} (hstem : '.' ∉ stem) (hstem' : '.' ∉ stem')
    (heq : stem ++ '.' :: rest = stem' ++ '.' :: rest') : stem = stem' ∧ rest = rest' := by
  induction stem generalizing stem' with
  | nil =>
    cases stem' with
    | nil => exact ⟨rfl, (List.cons.inj heq).2⟩
    | cons c stem' => exact absurd ((List.cons.inj heq).1 ▸ List.mem_cons_self) hstem'
  | cons c stem ih =>
    cases stem' with
    | nil => exact absurd ((List.cons.inj heq).1 ▸ List.mem_cons_self) hstem
    | cons c' stem' =>
      obtain ⟨rfl, htails⟩ := List.cons.inj heq
      obtain ⟨rfl, hrest⟩ := ih (fun h => hstem (List.mem_cons_of_mem _ h))
        (fun h => hstem' (List.mem_cons_of_mem _ h)) htails
      exact ⟨rfl, hrest⟩

/-- Class names keep simple names apart, and namespaces as far as their stems are apart. -/
theorem className_eq_iff {m n t u : String} : className m t = className n u ↔ munge m = munge n ∧ t = u := by
  constructor
  · intro heq
    have hlists : (munge m).toList ++ '.' :: t.toList = (munge n).toList ++ '.' :: u.toList := by
      simpa [className] using congrArg String.toList heq
    obtain ⟨hstem, hsimple⟩ := divided_inj (dot_notMem_munge m) (dot_notMem_munge n) hlists
    exact ⟨String.toList_injective hstem, String.toList_injective hsimple⟩
  · rintro ⟨hstem, rfl⟩
    rw [className, className, hstem]

/-- A namespace shares all its class names with the namespace that is called like its stem. -/
theorem className_munge (space simple : String) : className (munge space) simple = className space simple :=
  className_eq_iff.mpr ⟨munge_munge space, rfl⟩

/-! ### What a definition does to the classes -/

/-- The simple name of the type or the protocol that a form declares. -/
def simpleName? (d : Datum) : Option String := (argsOf d).head?.bind Datum.symbol?

/-- What is registered under a name stays. -/
def KeepsClass (name : String) (w w' : World) : Prop := w'.registry.find? name = w.registry.find? name

instance (name : String) : IsPreorder World (KeepsClass name) where
  refl _ := rfl
  trans _ _ _ h h' := Eq.trans h' h

section Definitions

open Emission

variable {h : Handlers} {d : Datum} {s t : FormState} {cls : ClassInfo}

/-- A form defines a type, where no scope is of a method that is not open, or a protocol. -/
inductive Defines [Libraries] (h : Handlers) (d : Datum) (s : FormState) (cls : ClassInfo) (t : FormState) : Prop
  | type (hlevels : ∀ f ∈ s.scopes.frames, f.level ≤ s.methods.length) (hrun : defineType h d s = .ok cls t)
  | protocol (hrun : defineProtocol d s = .ok cls t)

theorem importClass_keeps {full name : String} (hrun : FormM.importClass full s = .ok () t) :
    KeepsClass name s.world t.world := by
  rw [importClass_run] at hrun
  cases himport : s.world.importClass full with
  | error e =>
    rw [himport] at hrun
    cases hrun
  | ok w =>
    rw [himport] at hrun
    cases hrun
    exact congrArg (Registry.find? · name) (World.importClass_ok himport).2.1

theorem dispatchers_registry (methods : List (String × List Nat)) (w : World) :
    (methods.foldl (fun w m => defineDispatcher w m.1) w).registry = w.registry := by
  have hstep : ∀ w method, (defineDispatcher w method).registry = w.registry := by
    intro w method
    change (World.intern { w with dispatchers := w.dispatchers + 1 } w.current method).2.registry = w.registry
    rcases World.intern_cases { w with dispatchers := w.dispatchers + 1 } w.current method with hintern | hintern
    all_goals rw [hintern]
  induction methods generalizing w with
  | nil => rfl
  | cons m rest ih => exact (ih _).trans (hstep w m.1)

/-- What registering a class of a form leaves in the registry. -/
structure Registers (d : Datum) (s : FormState) (cls : ClassInfo) (t : FormState) (quiet : String → Prop) : Prop where
  name : ∃ simple, simpleName? d = some simple ∧ cls.name = className s.world.current simple
  found : t.world.registry.find? cls.name = some cls
  others : ∀ name, quiet name → cls.name ≠ name → KeepsClass name s.world t.world

theorem simpleName_of_typeName {name : Datum} {rest : List Datum} {full : String} (hargs : argsOf d = name :: rest)
    (hrun : typeName name s = .ok full t) :
    s = t ∧ ∃ simple, simpleName? d = some simple ∧ full = className s.world.current simple := by
  obtain ⟨hsame, hfull⟩ := typeName_ok hrun
  obtain ⟨simple, hsimple, rfl⟩ := Option.map_eq_some_iff.mp hfull
  exact ⟨hsame.symm, simple, by rw [simpleName?, hargs]; exact hsimple, rfl⟩

theorem newFile_name {name superclass : String} {file : ClassFile} (hrun : newFile name superclass s = .ok file t) :
    file.name = name := by
  obtain ⟨w, s₁, h₁, hrun⟩ := State.ok_of_bind hrun
  cases hrun
  rfl

/-- A class that is loaded is registered under its name alone. -/
theorem loadClass_registers [Libraries] {file : ClassFile} (hrun : loadClass file s = .ok cls t) :
    cls.name = file.name ∧ ∀ name, t.world.registry.find? name
      = if cls.name = name then some cls else s.world.registry.find? name := by
  obtain ⟨loaded, houtline, hregistered⟩ := loadClass_outlined hrun
  refine ⟨hregistered.name.trans houtline.name, fun name => ?_⟩
  rw [hregistered.find, hregistered.name]

theorem defineProtocol_registers [Libraries] (hrun : defineProtocol d s = .ok cls t) :
    Registers d s cls t fun _ => True := by
  unfold defineProtocol at hrun
  rcases hargs : argsOf d with _ | ⟨name, specs⟩ <;> rw [hargs] at hrun
  · cases hrun
  · obtain ⟨full, s₁, h₁, hrun⟩ := State.ok_of_bind hrun
    obtain ⟨rfl, simple, hsimple, rfl⟩ := simpleName_of_typeName hargs h₁
    obtain ⟨methods, s₂, h₂, hrun⟩ := State.ok_of_bind hrun
    obtain ⟨-, rfl⟩ := ofExcept_ok h₂
    obtain ⟨file, s₂, h₂, hrun⟩ := State.ok_of_bind hrun
    obtain ⟨rfl, -⟩ := newFile_ok h₂
    have hfile := newFile_name h₂
    obtain ⟨cls', s₃, h₃, hrun⟩ := State.ok_of_bind hrun
    obtain ⟨⟨⟩, s₄, h₄, hrun⟩ := State.ok_of_bind hrun
    obtain ⟨⟨⟩, s₅, h₅, hrun⟩ := State.ok_of_bind hrun
    cases hrun
    cases h₅
    obtain ⟨hname, hfind⟩ := loadClass_registers h₃
    have hkept : ∀ name, (methods.foldl (fun w m => defineDispatcher w m.1) s₄.world).registry.find? name
        = s₃.world.registry.find? name := by
      intro name
      rw [dispatchers_registry]
      exact importClass_keeps h₄
    refine ⟨⟨simple, hsimple, hname.trans hfile⟩, ?_, fun other _ hother => ?_⟩
    · exact (hkept cls.name).trans ((hfind cls.name).trans (if_pos rfl))
    · exact (hkept other).trans ((hfind other).trans (if_neg hother))

/-- The forms in the methods leave the class of a name alone. -/
def Quiet (h : Handlers) (forms : List Datum) (name : String) : Prop :=
  ∀ form ∈ forms, Along (KeepsClass name) (h.compile form)

theorem buildType_name (hc : Compiles h) {full : String} {interfaces : List String} {fields : List FieldBinding}
    {methods : List TypeMethod} {file : ClassFile} (hlevels : Levelled (view s))
    (hrun : buildType h full interfaces fields methods s = .ok file t) : file.name = full := by
  obtain ⟨start, s₁, h₁, hrun⟩ := State.ok_of_bind hrun
  obtain ⟨fresh, s₂, h₂, h₁⟩ := State.ok_of_bind h₁
  obtain ⟨rfl, hempty⟩ := newFile_ok h₂
  have hname := newFile_name h₂
  cases h₁
  obtain ⟨⟨built, captures⟩, s₃, h₃, hrun⟩ := State.ok_of_bind hrun
  cases hrun
  refine (buildClass_outline hc hlevels (fun m hm r => ?_) ?_ h₃).1.trans hname
  · obtain ⟨a, -, rfl⟩ := List.mem_map.mp hm
    exact .inl (isStatic_methodPlan r _ a)
  · exact hempty

theorem defineAnnounced_registers [Libraries] (hc : Compiles h) {full : String} {interfaces : List String}
    {fields : List FieldBinding} {methods : List TypeMethod} {previous : Option ClassInfo}
    (hlevels : Levelled (view s))
    (hrun : defineAnnounced h full interfaces fields methods previous s = .ok cls t) :
    cls.name = full ∧ t.world.registry.find? cls.name = some cls ∧
      ∀ name, (∀ m ∈ methods, Quiet h m.body name) → cls.name ≠ name → KeepsClass name s.world t.world := by
  obtain ⟨cls', s₁, h₁, hrun⟩ := State.ok_of_bind hrun
  obtain ⟨⟨⟩, s₂, h₂, hrun⟩ := State.ok_of_bind hrun
  cases hrun
  obtain ⟨file, s₃, h₃, h₁⟩ := State.ok_of_bind (orReinstate_ok h₁)
  obtain ⟨hname, hfind⟩ := loadClass_registers h₁
  refine ⟨hname.trans (buildType_name hc hlevels h₃), ?_, fun name hquiet hother => ?_⟩
  · exact (importClass_keeps h₂).trans ((hfind cls.name).trans (if_pos rfl))
  · have hbuilt := along_buildType (R := KeepsClass name) full interfaces fields hquiet s
    rw [h₃] at hbuilt
    exact (importClass_keeps h₂).trans (((hfind name).trans (if_neg hother)).trans hbuilt)

theorem defineNamed_registers [Libraries] (hc : Compiles h) {full : String} {fields : List FieldBinding}
    {specs : List Datum}
    (hlevels : Levelled (view s)) (hrun : defineNamed h full fields specs s = .ok cls t) :
    cls.name = full ∧ t.world.registry.find? cls.name = some cls ∧
      ∀ name, (∀ spec ∈ specs, ∀ m, typeMethod spec = .ok m → Quiet h m.body name) → cls.name ≠ name →
        KeepsClass name s.world t.world := by
  cases hitems : specs.foldlM (classItem s.world) ([], []) with
  | error e =>
    simp only [defineNamed, FormM.world, bind_assoc, State.bind_of_ok (State.get_eq s), pure_bind, hitems] at hrun
    cases hrun
  | ok parts =>
    obtain ⟨interfaces, methods⟩ := parts
    rw [defineNamed_of_items hitems] at hrun
    obtain ⟨⟨⟩, s₁, h₁, hrun⟩ := State.ok_of_bind hrun
    have hview : view s₁ = view s := aside_announce _ _ _ h₁
    obtain ⟨hname, hfound, hothers⟩ := defineAnnounced_registers hc (hview ▸ hlevels) hrun
    refine ⟨hname, hfound, fun name hquiet hother => (hothers name (fun m hm => ?_) hother).trans ?_⟩
    · rcases methods_of_items hitems m hm with hnone | ⟨spec, hspec, hmade⟩
      · cases hnone
      · exact hquiet spec hspec m hmade
    · rcases announce_run full (interfaces.map ClassInfo.name) fields s with ⟨e, he⟩ | ⟨u, hu, hannounced⟩
      · rw [he] at h₁
        cases h₁
      · rw [hu] at h₁
        cases h₁
        exact hannounced.classes name (hname ▸ hother)

theorem defineType_registers [Libraries] (hc : Compiles h) (hlevels : Levelled (view s))
    (hrun : defineType h d s = .ok cls t) :
    Registers d s cls t (Quiet h (methodForms d)) := by
  unfold defineType at hrun
  rcases hargs : argsOf d with _ | ⟨typeDatum, _ | ⟨fieldVector, specs⟩⟩ <;> rw [hargs] at hrun
  · cases hrun
  · cases hrun
  · obtain ⟨full, s₁, h₁, hrun⟩ := State.ok_of_bind hrun
    obtain ⟨rfl, simple, hsimple, rfl⟩ := simpleName_of_typeName hargs h₁
    cases hitems : fieldVector.vector? with
    | none =>
      rw [hitems] at hrun
      cases hrun
    | some items =>
      rw [hitems] at hrun
      obtain ⟨fields, s₂, h₂, hrun⟩ := State.ok_of_bind hrun
      have hview : view s₂ = view s := Aside.mapM aside_typeField _ h₂
      have hworld : s.world = s₂.world := by
        have hall : Along Eq (items.mapM typeField) := along_mapM fun f _ => along_typeField f
        simpa only [h₂, endWorld] using hall s
      obtain ⟨hname, hfound, hothers⟩ := defineNamed_registers hc (hview ▸ hlevels) hrun
      refine ⟨⟨simple, hsimple, hname⟩, hfound, fun name hquiet hother => ?_⟩
      rw [hworld]
      refine hothers name (fun spec hspec m hm form hform => ?_) hother
      refine hquiet form (List.mem_flatMap.mpr ⟨spec, ?_, by rw [hm]; exact hform⟩)
      rw [hargs]
      exact hspec

theorem Defines.registers [Libraries] {fuel : Nat} (hdefines : Defines (handlers fuel) d s cls t) :
    Registers d s cls t (Quiet (handlers fuel) (methodForms d)) := by
  cases hdefines with
  | type hlevels hrun => exact defineType_registers (compiles_handlers fuel) hlevels hrun
  | protocol hrun =>
    obtain ⟨hname, hfound, hothers⟩ := defineProtocol_registers hrun
    exact ⟨hname, hfound, fun name _ => hothers name trivial⟩

/-- Of two types or protocols defined one after the other, the class of the later one is called like that of the
earlier, and displaces it, just if the two have the same simple name and their namespaces the same stem, even
where the namespaces are different; otherwise the earlier class stays.  Namespaces that are spelled apart keep
all their classes apart. -/
theorem later_definition_displaces [Libraries] {fuel fuel' : Nat} {d' : Datum} {s' t' : FormState} {cls' : ClassInfo}
    (hfirst : Defines (handlers fuel) d s cls t) (hlater : Defines (handlers fuel') d' s' cls' t')
    (hquiet : Quiet (handlers fuel') (methodForms d') cls.name) :
    ∃ simple simple', simpleName? d = some simple ∧ simpleName? d' = some simple' ∧
      cls.name = className s.world.current simple ∧ cls'.name = className s'.world.current simple' ∧
      t.world.registry.find? cls.name = some cls ∧ t'.world.registry.find? cls'.name = some cls' ∧
      t'.world.registry.find? cls.name
        = (if munge s.world.current = munge s'.world.current ∧ simple = simple' then some cls'
          else s'.world.registry.find? cls.name) ∧
      (SpelledApart s.world.current s'.world.current →
        (cls.name = cls'.name ↔ (s.world.current, simple) = (s'.world.current, simple'))) := by
  obtain ⟨⟨simple, hsimple, hname⟩, hfound, -⟩ := hfirst.registers
  obtain ⟨⟨simple', hsimple', hname'⟩, hfound', hothers⟩ := hlater.registers
  have hsame : cls.name = cls'.name ↔ munge s.world.current = munge s'.world.current ∧ simple = simple' := by
    rw [hname, hname']
    exact className_eq_iff
  refine ⟨simple, simple', hsimple, hsimple', hname, hname', hfound, hfound', ?_, fun hapart => ?_⟩
  · split
    · rename_i heq
      rw [hsame.mpr heq]
      exact hfound'
    · rename_i hne
      exact hothers cls.name hquiet fun heq => hne (hsame.mp heq.symm)
  · rw [hsame, Prod.mk.injEq]
    exact and_congr_left' ⟨munge_injective_of_apart hapart, congrArg munge⟩

/-- The form `(defprotocol T)`. -/
def bareProtocol : Datum := .ofList [.symbol "defprotocol" default, .symbol "T" default] default

/-- What the form does under a class name, with no image in between. -/
def defineBare (full : String) : FormM ClassInfo := do
  let cls ← Agreement.loadUnread
    { name := full, superclass := Names.object, flags := { isInterface := true, isAbstract := true } }
  FormM.importClass cls.name
  return cls

theorem defineProtocol_bare [Libraries] {space : String} (hspace : s.world.current = space)
    (hsource : s.world.options.sourceName = none)
    (hfile : Agreement.isLoadable { name := className space "T", superclass := Names.object
                                    flags := { isInterface := true, isAbstract := true } } = true) :
    defineProtocol bareProtocol s = defineBare (className space "T") s := by
  have hname : typeName (.symbol "T" default) s = .ok (className space "T") s := by
    have hsimple : (Datum.symbol "T" default).symbol?.filter
        (fun n => !n.contains '/' && !n.contains '.') = some "T" := by cbv
    rw [typeName, hsimple, ← hspace]
    rfl
  have hfresh : newFile (className space "T") Names.object s
      = .ok { name := className space "T", superclass := Names.object } s := by
    rw [← hsource]
    rfl
  have hmethods : FormM.ofExcept ((([] : List Datum).filter fun spec => !spec.isStr).mapM protocolMethod) s
      = .ok [] s := rfl
  have hnone : FormM.lift (modify fun w => w) = (pure ⟨⟩ : FormM PUnit) := rfl
  refine (State.bind_of_ok hname).trans ((State.bind_of_ok hmethods).trans ((State.bind_of_ok hfresh).trans ?_))
  rw [defineBare, ← Agreement.loadClass_eq hfile]
  change (loadClass _ >>= fun cls => FormM.importClass cls.name >>= fun _ =>
    FormM.lift (modify fun w => w) >>= fun _ => pure cls) s = _
  rw [hnone]
  rfl

/-- A state in which only the namespace is another. -/
def entered (s : FormState) (space : String) : FormState := { s with world := s.world.enter space }

theorem entered_current (s : FormState) (space : String) : (entered s space).world.current = space := rfl

theorem entered_registry (s : FormState) (space : String) : (entered s space).world.registry = s.world.registry := by
  rw [entered, World.enter_eq]

/-- Defines the protocol where the state is and then in another namespace, with no images in between. -/
def bareTwice (s : FormState) (space' : String) (test : ClassInfo → ClassInfo → Bool) : Bool :=
  s.world.options.sourceName.isNone && (State.answer? (defineBare (className s.world.current "T") s)).any fun r =>
    (entered r.2 space').world.options.sourceName.isNone &&
      (State.answer? (defineBare (className space' "T") (entered r.2 space'))).any fun r' => test r.1 r'.1

theorem exists_bareTwice [Libraries] {space space' : String} {test : ClassInfo → ClassInfo → Bool}
    (hspace : s.world.current = space)
    (hfiles : ∀ full ∈ [className space "T", className space' "T"], Agreement.isLoadable
      { name := full, superclass := Names.object, flags := { isInterface := true, isAbstract := true } } = true)
    (htwice : bareTwice s space' test = true) :
    ∃ cls t cls' t', defineProtocol bareProtocol s = .ok cls t ∧
      defineProtocol bareProtocol (entered t space') = .ok cls' t' ∧ test cls cls' = true := by
  obtain ⟨hsource, htwice⟩ := Bool.and_eq_true_iff.mp htwice
  obtain ⟨cls, t, hfirst, htwice⟩ := State.exists_answer htwice
  obtain ⟨hsource', htwice⟩ := Bool.and_eq_true_iff.mp htwice
  obtain ⟨cls', t', hlater, htest⟩ := State.exists_answer htwice
  rw [hspace, ← defineProtocol_bare hspace (Option.isNone_iff_eq_none.mp hsource)
    (hfiles _ List.mem_cons_self)] at hfirst
  rw [← defineProtocol_bare (entered_current ..) (Option.isNone_iff_eq_none.mp hsource')
    (hfiles _ (List.mem_cons_of_mem _ List.mem_cons_self))] at hlater
  exact ⟨cls, t, cls', t', hfirst, hlater, htest⟩

/-- A state with the built-in classes and no other. -/
def builtinOnly (space : String) : FormState := { world := { registry := Host.registry, current := space } }

/-- A type of a namespace with another stem leaves a type of the same simple name where it is. -/
theorem later_definition_elsewhere :
    ∃ cls t cls' t', Defines (handlers 0) bareProtocol (builtinOnly "a-b") cls t ∧
      Defines (handlers 0) bareProtocol (entered t "a-c") cls' t' ∧
      cls.name ≠ cls'.name ∧ t'.world.registry.find? cls.name = some cls := by
  have htwice : bareTwice (builtinOnly "a-b") "a-c" (fun _ _ => true) = true := by decide +kernel
  obtain ⟨cls, t, cls', t', hfirst, hlater, -⟩ := exists_bareTwice rfl (by decide +kernel) htwice
  have hdefines : Defines (handlers 0) bareProtocol (builtinOnly "a-b") cls t := .protocol hfirst
  have hdefines' : Defines (handlers 0) bareProtocol (entered t "a-c") cls' t' := .protocol hlater
  have hquiet : Quiet (handlers 0) (methodForms bareProtocol) cls.name := nofun
  obtain ⟨simple, simple', -, -, -, -, hfound, -, hfind, hapart⟩ :=
    later_definition_displaces hdefines hdefines' hquiet
  rw [entered_current, show (builtinOnly "a-b").world.current = "a-b" from rfl] at hfind hapart
  refine ⟨cls, t, cls', t', hdefines, hdefines', fun hsame => ?_, ?_⟩
  · have hspaces : "a-b" = "a-c" := congrArg Prod.fst ((hapart (by decide)).mp hsame)
    exact absurd hspaces (by decide)
  · rw [hfind, if_neg fun hstems => absurd hstems.1 (by decide), entered_registry]
    exact hfound

/-- The type `T` of the namespace `a_b` displaces that of the namespace `a-b`: they have one class name. -/
theorem dashed_type_displaced :
    ∃ cls t cls' t', defineProtocol bareProtocol (builtinOnly "a-b") = .ok cls t ∧
      defineProtocol bareProtocol (entered t "a_b") = .ok cls' t' ∧
      ("a-b", simpleName? bareProtocol) ≠ ("a_b", simpleName? bareProtocol) ∧
      cls.name = "a_b.T" ∧ cls'.name = "a_b.T" ∧ t.world.registry.find? "a_b.T" = some cls ∧
      t'.world.registry.find? "a_b.T" = some cls' ∧ cls' ≠ cls := by
  have htwice : bareTwice (builtinOnly "a-b") "a_b"
      (fun cls cls' => cls.name = "a_b.T" && cls'.name = "a_b.T" && cls'.serial != cls.serial) = true := by
    decide +kernel
  obtain ⟨cls, t, cls', t', hfirst, hlater, htest⟩ := exists_bareTwice rfl (by decide +kernel) htwice
  simp only [Bool.and_eq_true, decide_eq_true_eq, bne_iff_ne] at htest
  obtain ⟨⟨hname, hname'⟩, hserial⟩ := htest
  have hfound := (defineProtocol_registers hfirst).found
  have hfound' := (defineProtocol_registers hlater).found
  rw [hname] at hfound
  rw [hname'] at hfound'
  exact ⟨cls, t, cls', t', hfirst, hlater, by decide, hname, hname', hfound, hfound',
    fun heq => hserial (congrArg ClassInfo.serial heq)⟩

end Definitions

end Form

end LispMachine
