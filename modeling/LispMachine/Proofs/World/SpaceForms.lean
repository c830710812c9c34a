import LispMachine.Proofs.World.FailedTypes

/-! # Forms that enter namespaces and import classes

An `ns` or an `import` form says several things, which take effect one after the other: a namespace is
entered, others are required, perhaps under an alias, and classes are imported.  `partsOf` lists them, and
`SpacePart.apply` says what one of them does.  Work on such a form carries its parts out in order and stops at the
first that fails (`Carries`); nothing that was done before is taken back.  So a form that fails leaves the
world that the parts before the failing one make, and these touch one namespace only, the one that is then
current (`stopped_form`). -/

namespace LispMachine.Form

open World

/-! ### Parts -/

/-- A part of an `ns` or an `import` form. -/
inductive SpacePart where
  | enter (name : String)
  /-- A namespace that has to be there, with the alias it gets in `space`. -/
  | require (form : Datum) (space : String) (target : String × Option String)
  | importClass (span : Span) (full : String)
  /-- An import spec that names no classes. -/
  | refused (e : Error)

namespace SpacePart

/-- The world after a part, or why the part fails. -/
def apply (w : World) : SpacePart → Except Error World
  | .enter name => .ok (w.enter name)
  | .require form space (target, short) =>
    if (w.space? target).isNone then .error (form.compileError ("Could not locate namespace: " ++ target))
    else
      match short with
      | some short => .ok (w.changeSpace space fun s => { s with aliases := s.aliases.insert short target })
      | none => .ok w
  | .importClass span full => (w.importClass full).mapError (·.atSpan span)
  | .refused e => .error e

end SpacePart

/-- The parts of an import spec. -/
def specParts (spec : Datum) : List SpacePart :=
  match importNames spec with
  | .ok names => names.map (.importClass spec.span)
  | .error e => [.refused e]

/-- The parts of an `ns` form that could be read. -/
def SpaceForm.parts (d : Datum) (form : SpaceForm) : List SpacePart :=
  SpacePart.enter form.name :: form.requires.map (.require d form.name) ++ form.imports.flatMap specParts

/-- The parts of an `ns` form, which is read as a whole first, or of an `import` form. -/
def partsOf (f : SpecialForm) (d : Datum) : Except Error (List SpacePart) :=
  match f with
  | .nsForm => (spaceForm d).map (SpaceForm.parts d)
  | .importForm => .ok ((argsOf d).flatMap specParts)
  | _ => .ok []

/-- The namespace that a form is about: the one it names, or else the current one. -/
def formSpace (f : SpecialForm) (d : Datum) (w : World) : String :=
  match f, spaceForm d with
  | .nsForm, .ok form => form.name
  | _, _ => w.current

/-! ### Carrying parts out -/

/-- From one world parts lead to another, where the next one fails. -/
def HaltsAt (parts : List SpacePart) (w w' : World) (e : Error) : Prop :=
  ∃ done failed rest, parts = done ++ failed :: rest ∧ done.foldlM SpacePart.apply w = .ok w' ∧
    failed.apply w' = .error e

theorem HaltsAt.prepend {before parts : List SpacePart} {w w₁ w' : World} {e : Error}
    (hbefore : before.foldlM SpacePart.apply w = .ok w₁) (h : HaltsAt parts w₁ w' e) :
    HaltsAt (before ++ parts) w w' e := by
  obtain ⟨done, failed, rest, rfl, hdone, hfailed⟩ := h
  refine ⟨before ++ done, failed, rest, (List.append_assoc ..).symm, ?_, hfailed⟩
  rw [List.foldlM_append, hbefore]
  exact hdone

theorem HaltsAt.append {parts after : List SpacePart} {w w' : World} {e : Error} (h : HaltsAt parts w w' e) :
    HaltsAt (parts ++ after) w w' e := by
  obtain ⟨done, failed, rest, rfl, hdone, hfailed⟩ := h
  exact ⟨done, failed, rest ++ after, by simp, hdone, hfailed⟩

/-- Work that carries parts out in order: it ends well behind the last of them, and fails as the first does
that fails. -/
def Carries {α : Type} (x : FormM α) (parts : List SpacePart) : Prop :=
  ∀ s, match x s with
    | .ok _ t => parts.foldlM SpacePart.apply s.world = .ok t.world
    | .error fault t => ∃ e, fault = .error e ∧ HaltsAt parts s.world t.world e

section Carries

variable {α β : Type} {x : FormM α} {f : α → FormM β} {parts after : List SpacePart} {s t : FormState}

theorem Carries.ok (hx : Carries x parts) {a : α} (hrun : x s = .ok a t) :
    parts.foldlM SpacePart.apply s.world = .ok t.world := by
  have h := hx s
  rwa [hrun] at h

theorem Carries.error (hx : Carries x parts) {fault : Fault} (hrun : x s = .error fault t) :
    ∃ e, fault = .error e ∧ HaltsAt parts s.world t.world e := by
  have h := hx s
  rwa [hrun] at h

theorem carries_pure (a : α) : Carries (pure a : FormM α) [] := fun _ => rfl

theorem Carries.bind (hx : Carries x parts) (hf : ∀ a, Carries (f a) after) :
    Carries (x >>= f) (parts ++ after) := by
  intro s
  cases hfirst : x s with
  | error fault t =>
    rw [State.bind_of_error hfirst]
    obtain ⟨e, he, hhalts⟩ := hx.error hfirst
    exact ⟨e, he, hhalts.append⟩
  | ok a t =>
    rw [State.bind_of_ok hfirst]
    have hdone := hx.ok hfirst
    cases hsecond : f a t with
    | ok b u =>
      change (parts ++ after).foldlM SpacePart.apply s.world = .ok u.world
      rw [List.foldlM_append, hdone]
      exact (hf a).ok hsecond
    | error fault u =>
      obtain ⟨e, he, hhalts⟩ := (hf a).error hsecond
      exact ⟨e, he, hhalts.prepend hdone⟩

/-- What follows the last part may only give a result. -/
theorem Carries.map (hx : Carries x parts) (g : α → β) :
    Carries (do return g (← x)) parts := by
  have hboth : Carries (x >>= fun a => pure (g a)) (parts ++ []) := hx.bind fun a => carries_pure (g a)
  rwa [List.append_nil] at hboth

theorem carries_forM {items : List α} {job : α → FormM PUnit} {part : α → SpacePart}
    (hjob : ∀ a, Carries (job a) [part a]) : Carries (items.forM job) (items.map part) := by
  induction items with
  | nil => exact carries_pure _
  | cons a rest ih => exact (hjob a).bind fun _ => ih

/-- Work that is one part. -/
theorem carries_single {x : FormM Unit} {part : SpacePart}
    (hrun : ∀ s, x s = match part.apply s.world with
      | .ok w => .ok () { s with world := w }
      | .error e => .error (.error e) s) : Carries x [part] := by
  intro s
  rw [hrun]
  cases happly : part.apply s.world with
  | ok w =>
    change [part].foldlM SpacePart.apply s.world = .ok w
    rw [List.foldlM_cons, happly]
    rfl
  | error e => exact ⟨e, rfl, [], part, [], rfl, rfl, happly⟩

end Carries

/-! ### The work on a form -/

theorem carries_enterSpace (name : String) : Carries (enterSpace name) [.enter name] := fun _ => rfl

theorem require_run (d : Datum) (space : String) (target : String × Option String) (s : FormState) :
    require d space target s = match SpacePart.apply s.world (.require d space target) with
      | .ok w => .ok () { s with world := w }
      | .error e => .error (.error e) s := by
  obtain ⟨target, short⟩ := target
  simp only [require, FormM.world, bind_assoc, State.bind_of_ok (State.get_eq s), pure_bind, SpacePart.apply]
  split
  · rfl
  · cases short <;> rfl

theorem carries_require (d : Datum) (space : String) (target : String × Option String) :
    Carries (require d space target) [.require d space target] := carries_single (require_run d space target)

theorem carries_importClass (span : Span) (full : String) :
    Carries ((FormM.importClass full).atSpan span) [.importClass span full] := by
  refine carries_single fun s => ?_
  rw [FormM.atSpan, importClass_run, SpacePart.apply]
  cases s.world.importClass full <;> rfl

/-- A place given to all of several pieces of work is given to each. -/
theorem atSpan_forM (span : Span) (names : List String) (job : String → FormM PUnit) :
    (names.forM job).atSpan span = names.forM fun name => (job name).atSpan span := by
  induction names with
  | nil => rfl
  | cons name rest ih =>
    change FormM.atSpan span (job name >>= fun _ => rest.forM job)
      = (job name).atSpan span >>= fun _ => rest.forM fun name => (job name).atSpan span
    rw [← ih]
    funext s
    simp only [FormM.atSpan, State.bind_eq]
    cases job name s with
    | ok a t => rfl
    | error fault t => cases fault <;> rfl

theorem carries_importAll (specs : List Datum) : Carries (importAll specs) (specs.flatMap specParts) := by
  induction specs with
  | nil => exact carries_pure _
  | cons spec rest ih =>
    rw [List.flatMap_cons, importAll, specParts]
    cases hnames : importNames spec with
    | error e => exact fun s => ⟨e, rfl, [], .refused e, _, rfl, rfl, rfl⟩
    | ok names =>
      rw [FormM.ofExcept, pure_bind, atSpan_forM]
      exact (carries_forM (carries_importClass spec.span)).bind fun _ => ih.map (names ++ ·)

theorem carries_enterForm (d : Datum) (form : SpaceForm) : Carries (enterForm d form) (form.parts d) := by
  have hrequires : Carries (form.requires.forM (require d form.name)) _ :=
    carries_forM (carries_require d form.name)
  have hrest := hrequires.bind fun _ => carries_importAll form.imports
  exact (carries_enterSpace form.name).bind fun _ => hrest

/-! ### One namespace -/

/-- A part is about a namespace, where that is the current one or becomes it. -/
def SpacePart.IsAbout (space : String) : SpacePart → Prop
  | .enter name => name = space
  | .require _ name _ => name = space
  | _ => True

/-- At most one namespace has changed, and no var and no class. -/
structure Apart (space : String) (w w' : World) : Prop where
  others : ∀ other, other ≠ space → w'.space? other = w.space? other
  vars : w'.vars = w.vars
  registry : w'.registry = w.registry

theorem Apart.refl (space : String) (w : World) : Apart space w w := ⟨fun _ _ => rfl, rfl, rfl⟩

theorem Apart.trans {space : String} {w w₁ w₂ : World} (h : Apart space w w₁) (h' : Apart space w₁ w₂) :
    Apart space w w₂ where
  others other hother := (h'.others other hother).trans (h.others other hother)
  vars := h'.vars.trans h.vars
  registry := h'.registry.trans h.registry

theorem apart_changeSpace (w : World) (name : String) (change : Space → Space) :
    Apart name w (w.changeSpace name change) :=
  ⟨fun other hother => (Table.find?_insert w.spaces name other _).trans (if_neg hother.symm), rfl, rfl⟩

theorem apart_enter (w : World) (name : String) : Apart name w (w.enter name) := by
  suffices h : Apart name w (if w.spaces.contains name then w else (w.ensureSpace name).prepareSpace name) from
    ⟨h.others, h.vars, h.registry⟩
  split
  · exact .refl name w
  · have hensured : Apart name w (w.ensureSpace name) := by
      unfold ensureSpace
      split
      · exact .refl name w
      · exact apart_changeSpace w name id
    refine hensured.trans ?_
    unfold prepareSpace
    split
    · exact .refl name _
    · exact apart_changeSpace _ name _

/-- A part leaves the namespace that it is about as the current one. -/
theorem SpacePart.apply_apart {space : String} {part : SpacePart} {w w' : World} (habout : part.IsAbout space)
    (hspace : w.current = space) (hdone : part.apply w = .ok w') : w'.current = space ∧ Apart space w w' := by
  cases part with
  | enter name =>
    cases hdone
    cases habout
    exact ⟨rfl, apart_enter _ _⟩
  | require form name target =>
    cases habout
    simp only [apply] at hdone
    split at hdone
    · cases hdone
    · split at hdone
      · cases hdone
        exact ⟨hspace, apart_changeSpace _ _ _⟩
      · cases hdone
        exact ⟨hspace, .refl _ _⟩
  | importClass span full =>
    simp only [apply, World.importClass] at hdone
    split at hdone
    · cases hdone
      exact ⟨hspace, hspace ▸ apart_changeSpace _ _ _⟩
    · cases hdone
  | refused e => cases hdone

/-- Parts that are about the current namespace change no other. -/
theorem apart_of_parts {space : String} {parts : List SpacePart} {w w' : World}
    (habout : ∀ part ∈ parts, part.IsAbout space) (hspace : w.current = space)
    (hdone : parts.foldlM SpacePart.apply w = .ok w') : w'.current = space ∧ Apart space w w' := by
  induction parts generalizing w with
  | nil =>
    cases hdone
    exact ⟨hspace, .refl _ _⟩
  | cons part rest ih =>
    rw [List.foldlM_cons] at hdone
    obtain ⟨w₁, hfirst, hrest⟩ := bind_ok hdone
    obtain ⟨hcurrent, hpart⟩ := SpacePart.apply_apart (habout part List.mem_cons_self) hspace hfirst
    obtain ⟨hcurrent', hparts⟩ := ih (fun p hp => habout p (List.mem_cons_of_mem _ hp)) hcurrent hrest
    exact ⟨hcurrent', hpart.trans hparts⟩

theorem isAbout_specParts (space : String) {spec : Datum} {part : SpacePart} (hpart : part ∈ specParts spec) :
    part.IsAbout space := by
  unfold specParts at hpart
  split at hpart
  · obtain ⟨name, -, rfl⟩ := List.mem_map.mp hpart
    trivial
  · rw [List.mem_singleton.mp hpart]
    trivial

theorem isAbout_imports (space : String) {specs : List Datum} {part : SpacePart}
    (hpart : part ∈ specs.flatMap specParts) : part.IsAbout space := by
  obtain ⟨spec, -, hspec⟩ := List.mem_flatMap.mp hpart
  exact isAbout_specParts space hspec

/-- Behind the entering, the parts of an `ns` form are about the namespace entered. -/
theorem isAbout_parts {d : Datum} {form : SpaceForm} {part : SpacePart} (hpart : part ∈ form.parts d) :
    part.IsAbout form.name := by
  simp only [SpaceForm.parts, List.cons_append, List.mem_cons, List.mem_append, List.mem_map] at hpart
  rcases hpart with rfl | ⟨target, -, rfl⟩ | himport
  · rfl
  · rfl
  · exact isAbout_imports form.name himport

/-- An `ns` form starts with the entering. -/
theorem parts_entered {d : Datum} {parts : List SpacePart} (hparts : partsOf .nsForm d = .ok parts) :
    ∃ name rest, parts = .enter name :: rest := by
  obtain ⟨form, -, rfl⟩ := map_ok hparts
  exact ⟨form.name, _, rfl⟩

/-- The parts that a form starts with change the namespace that the form is about, which is then current, once
an `ns` form has entered it. -/
theorem apart_of_prefix {f : SpecialForm} {d : Datum} {parts done rest : List SpacePart} {w w' : World}
    (hform : f = .nsForm ∨ f = .importForm) (hparts : partsOf f d = .ok parts) (hsplit : parts = done ++ rest)
    (hstarted : f = .nsForm → done ≠ []) (hdone : done.foldlM SpacePart.apply w = .ok w') :
    w'.current = formSpace f d w ∧ Apart (formSpace f d w) w w' := by
  rcases hform with rfl | rfl
  · obtain ⟨form, hread, rfl⟩ := map_ok hparts
    obtain ⟨first, done, rfl⟩ := List.exists_cons_of_ne_nil (hstarted rfl)
    obtain ⟨rfl, -⟩ : SpacePart.enter form.name = first ∧ _ := List.cons.inj hsplit
    have habout : ∀ part ∈ done, part.IsAbout form.name := fun part hpart =>
      isAbout_parts (d := d) (hsplit ▸ List.mem_append_left rest (List.mem_cons_of_mem _ hpart))
    rw [List.foldlM_cons] at hdone
    obtain ⟨hcurrent, hrest⟩ := apart_of_parts (w := w.enter form.name) habout rfl hdone
    have hspace : formSpace .nsForm d w = form.name := by simp only [formSpace, hread]
    rw [hspace]
    exact ⟨hcurrent, (apart_enter w form.name).trans hrest⟩
  · cases hparts
    have habout : ∀ part ∈ done, part.IsAbout w.current := fun part hpart =>
      isAbout_imports _ (hsplit ▸ List.mem_append_left rest hpart)
    exact apart_of_parts habout rfl hdone

/-! ### A form that fails -/

/-- Evaluating a form carries its parts out. -/
theorem carries_evaluate [Libraries] {h : Handlers} {f : SpecialForm} {d : Datum} {parts : List SpacePart}
    (hform : f = .nsForm ∨ f = .importForm) (hparts : partsOf f d = .ok parts) :
    Carries (evaluateSpecial h f d) parts := by
  rcases hform with rfl | rfl
  · obtain ⟨form, hread, rfl⟩ := map_ok hparts
    change Carries (evaluateSpaceForm d) (form.parts d)
    rw [evaluateSpaceForm, hread, FormM.ofExcept, pure_bind]
    exact (carries_enterForm d form).map fun _ => Value.nameSpace form.name
  · cases hparts
    have hrun : evaluateSpecial h .importForm d = (do
        return match (← importAll (argsOf d)).getLast? with
          | some full => .cls full
          | none => .nil) := by
      change evaluateImport d = _
      unfold evaluateImport
      congr 1
      funext names
      cases names.getLast? <;> rfl
    rw [hrun]
    exact (carries_importAll (argsOf d)).map _

/-- Compiling a form carries its parts out and then emits code. -/
theorem compile_carries [Libraries] {h : Handlers} {f : SpecialForm} {d : Datum} {parts : List SpacePart}
    (hform : f = .nsForm ∨ f = .importForm) (hparts : partsOf f d = .ok parts) :
    ∃ (x : FormM (List String)) (emission : List String → FormM Unit),
      compileSpecial h f d = x >>= emission ∧ Carries x parts ∧ ∀ names, Along Eq (emission names) := by
  rcases hform with rfl | rfl
  · obtain ⟨form, hread, rfl⟩ := map_ok hparts
    refine ⟨enterForm d form, fun imported => do
      FormM.emit (.switchSpace form.name)
      imported.forM emitQuietImport, ?_, carries_enterForm d form, fun imported => ?_⟩
    · change FormM.ofExcept (spaceForm d) >>= _ = _
      rw [hread, FormM.ofExcept, pure_bind]
    · exact (along_emit _).bind fun _ => along_forM fun full _ =>
        (along_emit _).bind fun _ => along_popValue
  · cases hparts
    refine ⟨importAll (argsOf d), emitImports, rfl, carries_importAll _, fun names => ?_⟩
    induction names with
    | nil => exact along_emitConstant _
    | cons full rest ih =>
      cases rest with
      | nil => exact along_emit _
      | cons next rest => exact (along_emit _).bind fun _ => along_popValue.bind fun _ => ih

/-- An `ns` or `import` form that fails, evaluated or compiled.  If it cannot be read, nothing has changed.
Otherwise the parts before the one that fails are carried out and stay, and the error is that part's; when it
is compiled, all parts may have been carried out before code for them could not be emitted.  The namespace
the form is about is then current, and no other has changed, and no var and no class. -/
theorem stopped_form [Libraries] {h : Handlers} {f : SpecialForm} {d : Datum} {s t : FormState} {fault : Fault}
    (hform : f = .nsForm ∨ f = .importForm)
    (hrun : evaluateSpecial h f d s = .error fault t ∨ compileSpecial h f d s = .error fault t) :
    (∃ e, partsOf f d = .error e ∧ fault = .error e ∧ t.world = s.world) ∨
      ∃ parts, partsOf f d = .ok parts ∧
        ((∃ e, fault = .error e ∧ HaltsAt parts s.world t.world e) ∨
          (compileSpecial h f d s = .error fault t ∧ parts.foldlM SpacePart.apply s.world = .ok t.world)) ∧
        t.world.current = formSpace f d s.world ∧ Apart (formSpace f d s.world) s.world t.world := by
  cases hparts : partsOf f d with
  | error e =>
    refine .inl ⟨e, rfl, ?_⟩
    obtain rfl : f = .nsForm := by
      rcases hform with rfl | rfl
      · rfl
      · cases hparts
    have hread : spaceForm d = .error e := by
      cases hspace : spaceForm d with
      | error e' => simpa [partsOf, hspace, Except.map] using hparts
      | ok form => simp [partsOf, hspace, Except.map] at hparts
    rcases hrun with hrun | hrun
    · change evaluateSpaceForm d s = _ at hrun
      rw [evaluateSpaceForm, hread] at hrun
      cases hrun
      exact ⟨rfl, rfl⟩
    · change compileSpaceForm d s = _ at hrun
      rw [compileSpaceForm, hread] at hrun
      cases hrun
      exact ⟨rfl, rfl⟩
  | ok parts =>
    refine .inr ⟨parts, rfl, ?_⟩
    have hleft : (∃ e, fault = .error e ∧ HaltsAt parts s.world t.world e) ∨
        (compileSpecial h f d s = .error fault t ∧ parts.foldlM SpacePart.apply s.world = .ok t.world) := by
      rcases hrun with hrun | hrun
      · exact .inl ((carries_evaluate hform hparts).error hrun)
      · obtain ⟨x, emission, hsplit, hcarries, hquiet⟩ := compile_carries (h := h) hform hparts
        have hcompile := hrun
        rw [hsplit] at hrun
        rcases State.error_of_bind hrun with hfail | ⟨names, u, hok, hemit⟩
        · exact .inl (hcarries.error hfail)
        · have hsame : u.world = t.world := by simpa only [hemit, endWorld] using hquiet names u
          exact .inr ⟨hcompile, hsame ▸ hcarries.ok hok⟩
    refine ⟨hleft, ?_⟩
    rcases hleft with ⟨e, -, done, failed, rest, hsplit, hdone, hfailed⟩ | ⟨-, hdone⟩
    · refine apart_of_prefix hform hparts hsplit (fun hns hnone => ?_) hdone
      -- Entering a namespace does not fail.
      subst hns hnone
      obtain ⟨name, after, rfl⟩ := parts_entered hparts
      cases hsplit
      cases hfailed
    · refine apart_of_prefix hform hparts (List.append_nil parts).symm (fun hns hnone => ?_) hdone
      subst hns
      obtain ⟨name, after, rfl⟩ := parts_entered hparts
      cases hnone

/-- The form `(ns foo (:require nope))`. -/
def missingRequire : Datum :=
  .ofList [.symbol "ns" default, .symbol "foo" default,
    .ofList [.ofAtom (.keyword "require") default, .symbol "nope" default] default] default

theorem spaceForm_missingRequire :
    spaceForm missingRequire = .ok { name := "foo", requires := [("nope", none)] } := by cbv

theorem missingRequire_run [Libraries] (h : Handlers) {w : World} (hmissing : w.space? "nope" = none) :
    evaluateSpecial h .nsForm missingRequire { world := w }
      = .error (.error (missingRequire.compileError "Could not locate namespace: nope"))
          { world := w.enter "foo" } := by
  have hmissing' : (w.enter "foo").space? "nope" = none := by
    rw [(apart_enter w "foo").others "nope" (by decide), hmissing]
  change evaluateSpaceForm missingRequire _ = _
  rw [evaluateSpaceForm, spaceForm_missingRequire, FormM.ofExcept, pure_bind]
  refine State.bind_of_error ?_
  refine (State.bind_of_ok rfl).trans (State.bind_of_error (State.bind_of_error ?_))
  rw [require_run, SpacePart.apply, hmissing']
  rfl

theorem start_without_nope : (World.start {}).current = Names.userSpace ∧ (World.start {}).space? "nope" = none := by
  rw [← Option.isNone_iff_eq_none, World.start_eq]
  decide +kernel

theorem stopped_form_missing_require :
    ∃ e t, evaluateSpecial (handlers 1) .nsForm missingRequire { world := World.start {} } = .error (.error e) t ∧
      Apart "foo" (World.start {}) t.world := by
  have hrun := missingRequire_run (handlers 1) start_without_nope.2
  refine ⟨_, _, hrun, ?_⟩
  rcases stopped_form (.inl rfl) (.inl hrun) with ⟨e, hread, -⟩ | ⟨-, -, -, -, hapart⟩
  · rw [partsOf, spaceForm_missingRequire] at hread
    cases hread
  · simpa only [formSpace, spaceForm_missingRequire] using hapart

/-- A form that requires what is missing leaves the namespace that it entered current. -/
theorem missing_require_entered :
    (World.start {}).current = Names.userSpace ∧
      ∃ e t, evaluateSpecial (handlers 1) .nsForm missingRequire { world := World.start {} } = .error (.error e) t ∧
        t.world.current = "foo" :=
  ⟨start_without_nope.1, _, _, missingRequire_run (handlers 1) start_without_nope.2, rfl⟩

end LispMachine.Form
