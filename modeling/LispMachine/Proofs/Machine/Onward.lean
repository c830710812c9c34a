import LispMachine.Proofs.CallSite.Relinking
import LispMachine.Proofs.Machine.Course

/-! # What stays as it is while code runs

No change that code makes touches the classes, takes a var away from its own namespace, gives an object
another class, or sets the epoch of a var back; a var whose epoch is the same is the same in all respects.
`Onward` collects these facts about two worlds of one run. -/

namespace LispMachine

namespace World

/-! ### Namespaces -/

variable (w : World) (space space' name name' : String)

theorem space?_changeSpace (change : Space → Space) :
    (w.changeSpace space change).space? space'
      = if space = space' then some (change ((w.space? space).getD {})) else w.space? space' := by
  simp [changeSpace, space?, Table.find?_insert]

/-- A change that keeps what names stand for. -/
theorem findVar?_changeSpace {change : Space → Space}
    (h : ∀ s : Space, w.space? space = some s → (change s).mappings = s.mappings) {v : VarRef}
    (hv : w.findVar? space' name = some v) :
    (w.changeSpace space change).findVar? space' name = some v := by
  unfold findVar? at hv ⊢
  rw [space?_changeSpace]
  split
  · rename_i heq
    subst heq
    cases hspace : w.space? space with
    | none => simp [hspace] at hv
    | some s => simpa [hspace, h s hspace] using hv
  · exact hv

theorem findVar?_ensureSpace {v : VarRef} (hv : w.findVar? space' name = some v) :
    (w.ensureSpace space).findVar? space' name = some v := by
  unfold ensureSpace
  split
  · exact hv
  · exact w.findVar?_changeSpace _ _ _ (fun _ _ => rfl) hv

/-- Interning keeps every var in its own namespace. -/
theorem findVar?_intern {v : VarRef} (hv : w.findVar? space' name' = some v) (hown : v.space = space') :
    (w.intern space name).2.findVar? space' name' = some v := by
  by_cases hkept : ∃ u, w.findVar? space name = some u ∧ u.space = space
  · obtain ⟨u, hu, huspace⟩ := hkept
    simpa [intern, hu, huspace] using hv
  · have hmade : (w.intern space name).2
        = { w with vars := w.vars.push { space, name } }.changeSpace space fun s =>
            { s with mappings := s.mappings.insert name { id := w.vars.size, space, name } } := by
      unfold intern
      split
      · rename_i u hu
        have hother : u.space ≠ space := fun h => hkept ⟨u, hu, h⟩
        simp [hother]
      · rfl
    rw [hmade]
    unfold findVar? at hv ⊢
    rw [space?_changeSpace]
    split
    · rename_i heq
      subst heq
      have hname : name ≠ name' := fun h => hkept ⟨v, by simpa [findVar?, h] using hv, hown⟩
      cases hspace : w.space? space with
      | none => simp [hspace] at hv
      | some s =>
        have hspace' : ({ w with vars := w.vars.push { space, name } } : World).space? space = some s := hspace
        simpa [hspace, hspace', Table.find?_insert, hname] using hv
    · exact hv

theorem findVar?_prepareSpace (h : name ≠ space') :
    (w.prepareSpace name).findVar? space' name' = w.findVar? space' name' := by
  unfold prepareSpace
  split
  · rfl
  · unfold findVar?
    rw [space?_changeSpace, if_neg h]

theorem findVar?_enter {v : VarRef} (hv : w.findVar? space' name' = some v) :
    (w.enter name).findVar? space' name' = some v := by
  unfold enter
  split
  · exact hv
  · rename_i hnew
    have hne : name ≠ space' := by
      rintro rfl
      have hspace : w.space? name = none := by simpa [space?, Table.contains] using hnew
      simp [findVar?, hspace] at hv
    have hprepared := (w.ensureSpace name).findVar?_prepareSpace space' name name' hne
    exact hprepared.trans (w.findVar?_ensureSpace name _ _ hv)

theorem findVar?_importClass {w' : World} {v : VarRef} (h : w.importClass name = .ok w')
    (hv : w.findVar? space' name' = some v) : w'.findVar? space' name' = some v := by
  unfold importClass at h
  split at h
  · cases h
    refine w.findVar?_changeSpace _ _ _ ?_ hv
    exact fun _ _ => rfl
  · cases h

theorem ensureSpace_eq : w.ensureSpace space = { w with spaces := (w.ensureSpace space).spaces } := by
  unfold ensureSpace
  split <;> rfl

theorem prepareSpace_eq : w.prepareSpace space = { w with spaces := (w.prepareSpace space).spaces } := by
  unfold prepareSpace
  split <;> rfl

theorem enter_eq : w.enter name = { w with spaces := (w.enter name).spaces, current := name } := by
  unfold enter
  split
  · rfl
  · rw [prepareSpace_eq, ensureSpace_eq]

theorem intern_cases : (w.intern space name).2 = w ∨
    (w.intern space name).2 = { w with
      vars := w.vars.push { space, name }, spaces := (w.intern space name).2.spaces } := by
  unfold intern
  dsimp only
  split
  · split
    · exact .inl rfl
    · exact .inr rfl
  · exact .inr rfl

end World

namespace Machine

/-- The second world comes later in the same run. -/
structure Onward (w w' : World) : Prop where
  registry : w'.registry = w.registry
  objects : ∀ o i, w.instance? o = some i → ∃ i', w'.instance? o = some i' ∧ i'.cls = i.cls
  vars : ∀ (id : Nat) (c : VarCell), w.vars[id]? = some c → ∃ c', w'.vars[id]? = some c' ∧ (c' = c ∨ c.epoch < c'.epoch)
  names : ∀ space name v, w.findVar? space name = some v → v.space = space →
    w'.findVar? space name = some v

namespace Onward

variable {w w' w'' : World}

theorem refl (w : World) : Onward w w :=
  ⟨rfl, fun _ i h => ⟨i, h, rfl⟩, fun _ c h => ⟨c, h, .inl rfl⟩, fun _ _ _ h _ => h⟩

theorem trans (h : Onward w w') (h' : Onward w' w'') : Onward w w'' where
  registry := h'.registry.trans h.registry
  objects o i hi := by
    obtain ⟨i', hi', hcls⟩ := h.objects o i hi
    obtain ⟨i'', hi'', hcls'⟩ := h'.objects o i' hi'
    exact ⟨i'', hi'', hcls'.trans hcls⟩
  vars id c hc := by
    obtain ⟨c', hc', hsame⟩ := h.vars id c hc
    obtain ⟨c'', hc'', hsame'⟩ := h'.vars id c' hc'
    refine ⟨c'', hc'', ?_⟩
    rcases hsame with rfl | hlt <;> rcases hsame' with rfl | hlt'
    · exact .inl rfl
    · exact .inr hlt'
    · exact .inr hlt
    · exact .inr (Nat.lt_trans hlt hlt')
  names space name v hv hown := h'.names space name v (h.names space name v hv hown) hown

/-- Changes outside the classes, the objects, the vars and the namespaces. -/
theorem of_eq (hregistry : w'.registry = w.registry) (hobjects : w'.objects = w.objects)
    (hvars : w'.vars = w.vars) (hspaces : w'.spaces = w.spaces) : Onward w w' where
  registry := hregistry
  objects o i h := ⟨i, by simpa [World.instance?, hobjects] using h, rfl⟩
  vars id c h := ⟨c, by rw [hvars]; exact h, .inl rfl⟩
  names space name v h _ := by simpa [World.findVar?, World.space?, hspaces] using h

/-- Changes of the namespaces alone. -/
theorem of_names (hregistry : w'.registry = w.registry) (hobjects : w'.objects = w.objects)
    (hvars : w'.vars = w.vars) (hnames : ∀ space name v, w.findVar? space name = some v →
      w'.findVar? space name = some v) : Onward w w' where
  registry := hregistry
  objects o i h := ⟨i, by simpa [World.instance?, hobjects] using h, rfl⟩
  vars id c h := ⟨c, by rw [hvars]; exact h, .inl rfl⟩
  names space name v h _ := hnames space name v h

theorem changeVar (w : World) (v : VarRef) (change : VarCell → VarCell) :
    Onward w (w.changeVar v change) where
  registry := rfl
  objects o i h := ⟨i, h, rfl⟩
  vars id c h := by
    unfold World.changeVar
    by_cases hid : v.id = id
    · refine ⟨{ change c with epoch := c.epoch + 1 }, ?_, .inr (Nat.lt_succ_self _)⟩
      simp [Array.getElem?_modify, hid, h]
    · exact ⟨c, by simp [Array.getElem?_modify, hid, h], .inl rfl⟩
  names _ _ _ h _ := h

theorem intern (w : World) (space name : String) :
    Onward w ((w.ensureSpace space).intern space name).2 := by
  have hensured : Onward w (w.ensureSpace space) := by
    have heq := w.ensureSpace_eq space
    refine of_names ?_ ?_ ?_ fun s n v h => w.findVar?_ensureSpace space s n h
    all_goals rw [heq]
  refine hensured.trans ?_
  generalize w.ensureSpace space = w
  rcases w.intern_cases space name with heq | heq
  · rw [heq]
    exact refl w
  · refine ⟨by rw [heq], fun o i h => ⟨i, by rw [heq]; exact h, rfl⟩, ?_,
      fun s n v h hown => w.findVar?_intern space s name n h hown⟩
    intro id c h
    have hlt := (Array.getElem?_eq_some_iff.mp h).1
    refine ⟨c, ?_, .inl rfl⟩
    rw [heq, Array.getElem?_push_lt hlt, ← h, Array.getElem?_eq_getElem hlt]

theorem enter (w : World) (name : String) : Onward w (w.enter name) := by
  have heq := w.enter_eq name
  refine of_names ?_ ?_ ?_ fun s n v h => w.findVar?_enter s name n h
  all_goals rw [heq]

theorem allocate (w : World) (cls : ClassInfo) : Onward w (w.allocate cls).2 where
  registry := rfl
  objects o i h := by
    have hlt := (Array.getElem?_eq_some_iff.mp h).1
    refine ⟨i, ?_, rfl⟩
    unfold World.allocate World.instance? at *
    rw [Array.getElem?_push_lt hlt, ← h, Array.getElem?_eq_getElem hlt]
  vars id c h := ⟨c, h, .inl rfl⟩
  names _ _ _ h _ := h

theorem storeSlot (w : World) (o : ObjectRef) (slot : Nat) (v : Value) : Onward w (w.storeSlot o slot v) where
  registry := rfl
  objects o' i h := by
    unfold World.storeSlot World.instance? at *
    by_cases hid : o.id = o'.id
    · refine ⟨{ i with fields := i.fields.setIfInBounds slot v }, ?_, rfl⟩
      simp [Array.getElem?_modify, hid, h]
    · exact ⟨i, by simp [Array.getElem?_modify, hid, h], rfl⟩
  vars id c h := ⟨c, h, .inl rfl⟩
  names _ _ _ h _ := h

end Onward

/-! ### Asking a call site -/

/-- Asking a call site for a target changes nothing but call sites. -/
theorem linked_eq (index : Nat) (args : List Value) (w : World) :
    linked index args w = { w with sites := (linked index args w).sites } := by
  unfold linked targetOf
  split
  · rfl
  · split
    · rfl
    · dsimp only
      split <;> rfl

theorem onward_linked (index : Nat) (args : List Value) (w : World) : Onward w (linked index args w) := by
  rw [linked_eq]
  exact .of_eq rfl rfl rfl rfl

section Asking

open CallSite

variable {w : World} {index : Nat} {args : List Value} {s : LinkedSite}

/-- What a site goes through when a call asks it for a target: it has one, or is relinked and has one then,
or relinking fails. -/
inductive Asked (w : World) (index : Nat) (args : List Value) (s : LinkedSite) : Site Guard Target → Prop
  | found (target : Target)
      (hselect : s.site.select (holds w args) (fun _ => shapeKey s.spec args) = some target)
      (hresult : targetOf index args w = .ok (s.spec, target) (linked index args w)) :
      Asked w index args s s.site
  | relinked {site : Site Guard Target} (target : Target)
      (hrelink : Site.Relinked (linker w s.spec args) s.site site (.ok ()))
      (hselect : site.select (holds w args) (fun _ => shapeKey s.spec args) = some target)
      (hresult : targetOf index args w = .ok (s.spec, target) (linked index args w)) :
      Asked w index args s site
  | failed {site : Site Guard Target} (e : Error)
      (hrelink : Site.Relinked (linker w s.spec args) s.site site (.error e))
      (hresult : targetOf index args w = .error (.error e) (linked index args w)) :
      Asked w index args s site

/-- A site that has a target for a call is left as it is. -/
theorem targetOf_of_select {target : Target} (hsite : w.sites[index]? = some s)
    (hselect : s.site.select (holds w args) (fun _ => shapeKey s.spec args) = some target) :
    targetOf index args w = .ok (s.spec, target) w ∧ linked index args w = w := by
  have htarget : targetOf index args w = .ok (s.spec, target) w := by
    simp only [targetOf, hsite, hselect]
  exact ⟨htarget, congrArg worldAfter htarget⟩

/-- The world with another site in the place of one. -/
def withSite (w : World) (index : Nat) (s : LinkedSite) : World :=
  { w with sites := w.sites.setIfInBounds index s }

/-- A call asks its site for a target, and nothing else about the site changes. -/
theorem linked_asked (hsite : w.sites[index]? = some s)
    (hholds : ∀ e, (linker w s.spec args).linkGuarded () = .ok (some e) → holds w args e.1 = true) :
    ∃ site, (linked index args w).sites[index]? = some { s with site } ∧ Asked w index args s site := by
  have hset : ∀ site, (withSite w index { s with site }).sites[index]? = some { s with site } := by
    intro site
    simp [withSite, (Array.getElem?_eq_some_iff.mp hsite).1]
  have hrelink := Site.relink_cases w.options.callSites (linker w s.spec args) s.site
  rcases Site.resolve_cases (t := w.options.callSites) (s := s.site) hholds with
    ⟨target, hselect, -⟩ | ⟨hnone, ⟨target, hok, hselect, hresolve⟩ | ⟨e, herror, hresolve⟩⟩
  · change s.site.select (holds w args) (fun _ => shapeKey s.spec args) = some target at hselect
    obtain ⟨htarget, hlinked⟩ := targetOf_of_select hsite hselect
    exact ⟨s.site, by rw [hlinked, hsite], .found target hselect (by rw [hlinked, htarget])⟩
  · change s.site.select (holds w args) (fun _ => shapeKey s.spec args) = none at hnone
    generalize s.site.relink w.options.callSites (linker w s.spec args) = after at *
    have htarget : targetOf index args w
        = .ok (s.spec, target) (withSite w index { s with site := after.1 }) := by
      simp only [targetOf, hsite, hnone, hresolve, withSite]
    have hlinked : linked index args w = withSite w index { s with site := after.1 } :=
      congrArg worldAfter htarget
    rw [hok] at hrelink
    exact ⟨after.1, by rw [hlinked, hset], .relinked target hrelink hselect (by rw [hlinked, htarget])⟩
  · change s.site.select (holds w args) (fun _ => shapeKey s.spec args) = none at hnone
    generalize s.site.relink w.options.callSites (linker w s.spec args) = after at *
    have htarget : targetOf index args w
        = .error (.error e) (withSite w index { s with site := after.1 }) := by
      simp only [targetOf, hsite, hnone, hresolve, withSite]
    have hlinked : linked index args w = withSite w index { s with site := after.1 } :=
      congrArg worldAfter htarget
    rw [herror] at hrelink
    exact ⟨after.1, by rw [hlinked, hset], .failed e hrelink (by rw [hlinked, htarget])⟩

/-- Asking one site leaves the others alone. -/
theorem linked_other {other : Nat} (h : other ≠ index) :
    (linked index args w).sites[other]? = w.sites[other]? := by
  unfold linked targetOf
  split
  · rfl
  · split
    · rfl
    · dsimp only
      split <;> simp [worldAfter, Ne.symm h]

/-- A call through a site runs the target the site has for it. -/
theorem invokeSite_of_target {call : Caller} {spec : SiteSpec} {target : Target}
    (h : targetOf index args w = .ok (spec, target) (linked index args w)) :
    invokeSite call index args w = runTarget call target args (linked index args w) := by
  rw [invokeSite, State.bind_of_ok h]

theorem invokeSite_of_error {call : Caller} {e : Error}
    (h : targetOf index args w = .error (.error e) (linked index args w)) :
    invokeSite call index args w = .error (.error e) (linked index args w) := by
  rw [invokeSite, State.bind_of_error h]

end Asking

theorem Change.onward {w w' : World} (h : Change w w') : Onward w w' := by
  cases h with
  | link index args => exact onward_linked index args w
  | bind v value => exact .changeVar w v _
  | define v value flags => exact .changeVar w v _
  | intern space name => exact .intern w space name
  | enter name => exact .enter w name
  | importClass name h =>
    have hsame : w'.registry = w.registry ∧ w'.objects = w.objects ∧ w'.vars = w.vars := by
      unfold World.importClass at h
      split at h
      · cases h
        exact ⟨rfl, rfl, rfl⟩
      · cases h
    exact .of_names hsame.1 hsame.2.1 hsame.2.2 fun s n v hv => w.findVar?_importClass s name n h hv
  | allocate cls => exact .allocate w cls
  | store o slot value => exact .storeSlot w o slot value
  | print text => exact .of_eq rfl rfl rfl rfl
  | draw stem => exact .of_eq rfl rfl rfl rfl

/-- Only asking a call site changes call sites. -/
theorem Change.sites {w w' : World} (h : Change w w') :
    w'.sites = w.sites ∨ ∃ index args, w' = linked index args w := by
  cases h with
  | link index args => exact .inr ⟨index, args, rfl⟩
  | bind v value => exact .inl rfl
  | define v value flags => exact .inl rfl
  | intern space name =>
    left
    rcases (w.ensureSpace space).intern_cases space name with heq | heq <;> rw [heq, w.ensureSpace_eq]
  | enter name =>
    left
    rw [w.enter_eq]
  | importClass name h =>
    unfold World.importClass at h
    split at h
    · cases h
      exact .inl rfl
    · cases h
  | allocate cls => exact .inl rfl
  | store o slot value => exact .inl rfl
  | print text => exact .inl rfl
  | draw stem => exact .inl rfl

/-- A change leaves a site as it is, or asks it for a target. -/
theorem Change.site {w w' : World} (h : Change w w') (index : Nat) :
    w'.sites[index]? = w.sites[index]? ∨ ∃ args, w' = linked index args w := by
  rcases h.sites with heq | ⟨other, args, rfl⟩
  · exact .inl (by rw [heq])
  · by_cases hother : index = other
    · exact .inr ⟨args, by rw [hother]⟩
    · exact .inl (linked_other hother)

/-- What holds for one change holds for a whole run. -/
theorem Course.onward {w w' : World} (h : Course w w') : Onward w w' := by
  induction h with
  | refl => exact .refl w
  | tail _ hstep ih => exact ih.trans hstep.onward

end Machine

end LispMachine
