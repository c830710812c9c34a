import LispMachine.Libraries.Standard
import LispMachine.Proofs.CallSite.Relinking
import LispMachine.Proofs.Machine.Onward

/-! # Call sites of vars

A site that reads or calls a var remembers targets under the epoch the var had when they were made.  As
every binding advances the epoch, a remembered target whose guard holds stands for the value the var has
now, however the site got to where it is: `globalSite_never_stale` covers every interleaving of calls
through the site with bindings of its var, at any thresholds.  Only a site that found its var final and
bound at the first call keeps the value of that moment for good. -/

namespace LispMachine.Machine

open CallSite

/-! ### The target of a value -/

/-- A site reads or calls the given var. -/
def SiteOf (spec : SiteSpec) (v : VarRef) (isCall : Bool) : Prop :=
  spec.kind = if isCall then .globalCall v.space v.name else .globalValue v.space v.name

/-- A target does what a site on a var with the given value has to do: give the value, or call it with `n`
arguments. -/
inductive Stands (w : World) (n : Nat) : Bool → Value → Target → Prop
  | value (root : Value) : Stands w n false root (.value root)
  | function (f : Function) (h : f.arity.accepts n = true) : Stands w n true (.function f) (.function f)
  | method (o : ObjectRef) (cls : ClassInfo) (m : Method) (hcls : functionClass? w o = some cls)
      (hm : selectInvoke cls n = .ok m) : Stands w n true (.object o) (.method cls m (.object o))
  | apply (root : Value) : Stands w n true root (.apply root)

/-- What a site on a var does: it gives the root of the var, or applies it to the arguments. -/
def onRoot (call : Caller) (v : VarRef) (isCall : Bool) (args : List Value) : Option Value → Action Value
  | none => Action.fail (World.unboundVar v)
  | some root => if isCall then call (.apply root args) else pure root

/-- An action ends in a given way, provided its requests get enough fuel. -/
def Yields [Libraries] (m : Caller → Action Value) (w : World) (r : EStateM.Result Fault World Value) : Prop :=
  (∀ w', r ≠ .error .outOfFuel w') ∧ ∃ fuel, m (call fuel) w = r

theorem yields_congr [Libraries] {m m' : Caller → Action Value} {w w' : World}
    (h : ∀ call, m call w = m' call w') (r : EStateM.Result Fault World Value) :
    Yields m w r ↔ Yields m' w' r := by
  simp only [Yields, h]

section Targets

variable {w w' : World} {spec : SiteSpec} {v : VarRef} {isCall : Bool} {n : Nat} {root : Value}
  {target : Target} {args : List Value}

theorem functionClass?_onward (h : Onward w w') {o : ObjectRef} {cls : ClassInfo}
    (hcls : functionClass? w o = some cls) : functionClass? w' o = some cls := by
  unfold functionClass? at hcls ⊢
  rw [h.registry]
  split at hcls
  · rename_i hfn
    obtain ⟨i, hi, rfl⟩ := Option.map_eq_some_iff.mp hcls
    obtain ⟨i', hi', hsame⟩ := h.objects o i hi
    rw [if_pos hfn, hi', Option.map_some, hsame]
  · cases hcls

theorem Stands.onward (h : Stands w n isCall root target) (hw : Onward w w') :
    Stands w' n isCall root target := by
  cases h with
  | value => exact .value root
  | function f h => exact .function f h
  | method o cls m hcls hm => exact .method o cls m (functionClass?_onward hw hcls) hm
  | apply => exact .apply root

theorem stands_of_varTarget (h : varTarget w spec isCall root = .ok target) :
    Stands w spec.argTypes.length isCall root target := by
  unfold varTarget at h
  cases isCall with
  | false =>
    cases h
    exact .value root
  | true =>
    simp only [if_true, prepareCall] at h
    split at h
    · rename_i f
      split at h
      · rename_i haccepts
        cases h
        exact .function f haccepts
      · cases h
    · rename_i o
      split at h
      · rename_i cls hcls
        cases hm : selectInvoke cls spec.argTypes.length with
        | error e => simp [hm, Except.map] at h
        | ok m =>
          simp only [hm, Except.map, Except.ok.injEq] at h
          subst h
          exact .method o cls m hcls hm
      · cases h
        exact .apply _
    · cases h
      exact .apply _

/-- Doing at once what applying a value comes to takes one unit of fuel less and ends in the same way. -/
theorem yields_apply [Libraries] {m : Caller → Action Value} {r : EStateM.Result Fault World Value}
    (h : ∀ fuel, applyValue (call fuel) root args w = m (call fuel) w) :
    Yields m w r ↔ Yields (fun call => call (.apply root args)) w r := by
  refine and_congr_right fun hends => ⟨?_, ?_⟩
  · rintro ⟨fuel, hrun⟩
    exact ⟨fuel + 1, (h fuel).trans hrun⟩
  · rintro ⟨fuel, hrun⟩
    cases fuel with
    | zero => exact absurd hrun.symm (hends w)
    | succ fuel => exact ⟨fuel, (h fuel).symm.trans hrun⟩

/-- Whatever stands for a value ends exactly as the value itself does. -/
theorem Stands.yields [Libraries] (h : Stands w n isCall root target) (hlength : args.length = n)
    (r : EStateM.Result Fault World Value) :
    Yields (fun call => runTarget call target args) w r ↔
      Yields (fun call => onRoot call v isCall args (some root)) w r := by
  subst hlength
  cases h with
  | value => exact Iff.rfl
  | function f _ => exact yields_apply fun _ => rfl
  | method o cls m hcls hm =>
    refine yields_apply fun fuel => ?_
    simp only [applyValue, runTarget]
    rw [State.bind_of_ok (State.get_eq w), hcls]
    dsimp only
    rw [hm, State.bind_of_ok (Action.ofExcept_ok m w)]
  | apply => exact Iff.rfl

/-- A value that no target can be made for cannot be called either. -/
theorem yields_of_varTarget_error [Libraries] {e : Error} (h : varTarget w spec isCall root = .error e)
    (hlength : args.length = spec.argTypes.length) (hw : Onward w w')
    (r : EStateM.Result Fault World Value) :
    r = .error (.error e) w' ↔ Yields (fun call => onRoot call v isCall args (some root)) w' r := by
  unfold varTarget at h
  cases isCall with
  | false => cases h
  | true =>
    have happly : ∀ fuel, applyValue (call fuel) root args w' = .error (.error e) w' := by
      intro fuel
      simp only [if_true, prepareCall, ← hlength] at h
      split at h
      · rename_i f
        split at h
        · cases h
        · rename_i haccepts
          cases h
          simp only [applyValue, callFunction, if_neg haccepts]
          rfl
      · rename_i o
        split at h
        · rename_i cls hcls
          cases hm : selectInvoke cls args.length with
          | ok m => simp [hm, Except.map] at h
          | error e' =>
            simp only [hm, Except.map, Except.error.injEq] at h
            subst h
            simp only [applyValue]
            rw [State.bind_of_ok (State.get_eq w'), functionClass?_onward hw hcls]
            dsimp only
            rw [hm, State.bind_of_error (Action.ofExcept_error e' w')]
        · cases h
      · cases h
    constructor
    · rintro rfl
      exact ⟨by simp, 1, happly 0⟩
    · rintro ⟨hends, fuel, hrun⟩
      cases fuel with
      | zero => exact absurd hrun.symm (hends w')
      | succ fuel => exact hrun.symm.trans (happly fuel)

end Targets

/-! ### Linking -/

/-- A remembered target is guarded by an epoch of the var that has passed, or stands for the value the var
has now. -/
def Fresh (w : World) (v : VarRef) (isCall : Bool) (n : Nat) (e : Guard × Target) : Prop :=
  ∃ epoch cell, e.1 = .epoch v.id epoch ∧ w.vars[v.id]? = some cell ∧ epoch ≤ cell.epoch ∧
    (epoch = cell.epoch → ∃ root, cell.root = some root ∧ Stands w n isCall root e.2)

section Linking

variable {w w' : World} {spec : SiteSpec} {v : VarRef} {isCall : Bool} {n : Nat} {target : Target}
  {args : List Value} {entry : Guard × Target}

/-- A binding makes every target of an earlier epoch unusable; anything else leaves it as good as it was. -/
theorem Fresh.onward (h : Fresh w v isCall n entry) (hw : Onward w w') : Fresh w' v isCall n entry := by
  obtain ⟨epoch, cell, hguard, hcell, hle, hnow⟩ := h
  obtain ⟨cell', hcell', rfl | hlt⟩ := hw.vars v.id cell hcell
  · refine ⟨epoch, cell', hguard, hcell', hle, fun heq => ?_⟩
    obtain ⟨root, hroot, hstands⟩ := hnow heq
    exact ⟨root, hroot, hstands.onward hw⟩
  · exact ⟨epoch, cell', hguard, hcell', by omega, fun heq => by omega⟩

/-- A guard that holds tells that the target is for the value the var has now. -/
theorem Fresh.stands {g : Guard} (h : Fresh w v isCall n (g, target)) (hholds : holds w args g = true) :
    ∃ root, w.root? v = some root ∧ Stands w n isCall root target := by
  obtain ⟨epoch, cell, rfl, hcell, -, hnow⟩ := h
  have hepoch : cell.epoch = epoch := by simpa [holds, hcell] using hholds
  obtain ⟨root, hroot, hstands⟩ := hnow hepoch.symm
  exact ⟨root, by simp [World.root?, World.cell?, hcell, hroot], hstands⟩

theorem siteVar_eq (hspec : SiteOf spec v isCall) (hvar : w.findVar? v.space v.name = some v) :
    siteVar w spec = .ok (v, isCall) := by
  unfold SiteOf at hspec
  cases isCall <;> simp_all [siteVar]

/-- The generic target does what the var has to do with the value it has now. -/
theorem runGeneric_eq (hspec : SiteOf spec v isCall) (hvar : w.findVar? v.space v.name = some v)
    (call : Caller) : runGeneric call spec args w = onRoot call v isCall args (w.root? v) w := by
  have hread : ∀ k : VarRef × Bool → Action Value,
      (Action.ofExcept (siteVar w spec) >>= k) w = k (v, isCall) w := by
    intro k
    rw [siteVar_eq hspec hvar, State.bind_of_ok (Action.ofExcept_ok _ w)]
  have hkind := hspec
  unfold SiteOf at hkind
  unfold runGeneric
  cases isCall with
  | false =>
    simp only [Bool.false_eq_true, if_false] at hkind
    simp only [hkind]
    rw [State.bind_of_ok (State.get_eq w), hread]
    unfold World.valueOf onRoot
    cases w.root? v <;> rfl
  | true =>
    simp only [if_true] at hkind
    simp only [hkind]
    rw [State.bind_of_ok (State.get_eq w), hread]
    unfold World.valueOf onRoot
    cases w.root? v with
    | none => rfl
    | some root =>
      rw [State.bind_of_ok (Action.ofExcept_ok root w)]
      rfl

theorem linkGuarded_eq (hspec : SiteOf spec v isCall) :
    (linker w spec args).linkGuarded () = linkVar w spec := by
  unfold SiteOf at hspec
  cases isCall <;> simp_all [linker]

theorem linkStatic_eq (hspec : SiteOf spec v isCall) :
    (linker w spec args).linkStatic () = linkFinalVar w spec := by
  unfold SiteOf at hspec
  cases isCall <;> simp_all [linker]

/-- A target is made for the value and the epoch of the moment. -/
theorem linkVar_ok (hspec : SiteOf spec v isCall) (hvar : w.findVar? v.space v.name = some v)
    (h : linkVar w spec = .ok (some entry)) :
    ∃ cell root, w.vars[v.id]? = some cell ∧ cell.root = some root ∧
      entry.1 = .epoch v.id cell.epoch ∧ Stands w spec.argTypes.length isCall root entry.2 := by
  unfold linkVar at h
  rw [siteVar_eq hspec hvar] at h
  change (w.valueOf v >>= _) = _ at h
  obtain ⟨root, hroot, h⟩ := bind_ok h
  obtain ⟨target, htarget, h⟩ := bind_ok h
  cases h
  unfold World.valueOf World.root? World.cell? at hroot
  cases hcell : w.vars[v.id]? with
  | none => simp [hcell] at hroot
  | some cell =>
    have hepoch : ((w.cell? v).map VarCell.epoch).getD 0 = cell.epoch := by simp [World.cell?, hcell]
    refine ⟨cell, root, rfl, ?_, by rw [hepoch], stands_of_varTarget htarget⟩
    cases hcellroot : cell.root with
    | none => simp [hcell, hcellroot] at hroot
    | some _ => simpa [hcell, hcellroot] using hroot

theorem linkVar_fresh (hspec : SiteOf spec v isCall) (hvar : w.findVar? v.space v.name = some v)
    (h : linkVar w spec = .ok (some entry)) : Fresh w v isCall spec.argTypes.length entry := by
  obtain ⟨cell, root, hcell, hroot, hguard, hstands⟩ := linkVar_ok hspec hvar h
  exact ⟨cell.epoch, cell, hguard, hcell, Nat.le_refl _, fun _ => ⟨root, hroot, hstands⟩⟩

/-- The guard of a target holds at the moment the target is made. -/
theorem holds_linkVar (hspec : SiteOf spec v isCall) (hvar : w.findVar? v.space v.name = some v)
    (h : linkVar w spec = .ok (some entry)) : holds w args entry.1 = true := by
  obtain ⟨cell, root, hcell, -, hguard, -⟩ := linkVar_ok hspec hvar h
  simp [hguard, holds, hcell]

/-- Linking fails for the same reason for which the call itself fails. -/
theorem linkVar_error [Libraries] {e : Error} (hspec : SiteOf spec v isCall)
    (hvar : w.findVar? v.space v.name = some v) (h : linkVar w spec = .error e)
    (hlength : args.length = spec.argTypes.length) (hw : Onward w w')
    (r : EStateM.Result Fault World Value) :
    r = .error (.error e) w' ↔ Yields (fun call => onRoot call v isCall args (w.root? v)) w' r := by
  unfold linkVar at h
  rw [siteVar_eq hspec hvar] at h
  change (w.valueOf v >>= _) = _ at h
  unfold World.valueOf at h
  cases hroot : w.root? v with
  | none =>
    rw [hroot] at h
    cases h
    constructor
    · rintro rfl
      exact ⟨by simp, 0, rfl⟩
    · rintro ⟨-, fuel, hrun⟩
      exact hrun.symm
  | some root =>
    rw [hroot] at h
    change (varTarget w spec isCall root >>= _) = _ at h
    cases htarget : varTarget w spec isCall root with
    | ok target =>
      rw [htarget] at h
      cases h
    | error e' =>
      rw [htarget] at h
      cases h
      exact yields_of_varTarget_error htarget hlength hw r

/-- A site is linked for good only to a final var that has a value. -/
theorem linkFinalVar_ok (hspec : SiteOf spec v isCall) (hvar : w.findVar? v.space v.name = some v)
    (h : linkFinalVar w spec = .ok (some target)) :
    (w.flagsOf v).isFinal = true ∧
      ∃ root, w.root? v = some root ∧ Stands w spec.argTypes.length isCall root target := by
  unfold linkFinalVar at h
  rw [siteVar_eq hspec hvar] at h
  change (pure (v, isCall) >>= _) = _ at h
  rw [pure_bind] at h
  dsimp only at h
  cases hroot : w.root? v with
  | none =>
    rw [hroot] at h
    cases h
  | some root =>
    rw [hroot] at h
    dsimp only at h
    split at h
    · rename_i hfinal
      obtain ⟨target', htarget, h⟩ := bind_ok h
      cases h
      exact ⟨hfinal, root, rfl, stands_of_varTarget htarget⟩
    · cases h

theorem linkFinalVar_error [Libraries] {e : Error} (hspec : SiteOf spec v isCall)
    (hvar : w.findVar? v.space v.name = some v) (h : linkFinalVar w spec = .error e)
    (hlength : args.length = spec.argTypes.length) (hw : Onward w w')
    (r : EStateM.Result Fault World Value) :
    r = .error (.error e) w' ↔ Yields (fun call => onRoot call v isCall args (w.root? v)) w' r := by
  unfold linkFinalVar at h
  rw [siteVar_eq hspec hvar] at h
  change (pure (v, isCall) >>= _) = _ at h
  rw [pure_bind] at h
  dsimp only at h
  cases hroot : w.root? v with
  | none =>
    rw [hroot] at h
    cases h
  | some root =>
    rw [hroot] at h
    dsimp only at h
    split at h
    · cases htarget : varTarget w spec isCall root with
      | ok target =>
        rw [htarget] at h
        cases h
      | error e' =>
        rw [htarget] at h
        cases h
        exact yields_of_varTarget_error htarget hlength hw r
    · cases h

end Linking

/-! ### Sites that follow their var -/

/-- A site that was asked before and remembers only targets that are fresh. -/
structure Faithful (w : World) (index : Nat) (spec : SiteSpec) (v : VarRef) (isCall : Bool)
    (s : Site Guard Target) : Prop where
  site : w.sites[index]? = some { spec, site := s }
  asked : s.stage ≠ .cold
  remembers : s.Remembers (Fresh w v isCall spec.argTypes.length) (· = .generic spec)

section Following

variable {w w' : World} {index : Nat} {spec : SiteSpec} {v : VarRef} {isCall : Bool}
  {s site : Site Guard Target} {args : List Value} {target : Target}

theorem holds_linked (hspec : SiteOf spec v isCall) (hvar : w.findVar? v.space v.name = some v)
    (e : Guard × Target) (h : (linker w spec args).linkGuarded () = .ok (some e)) :
    holds w args e.1 = true :=
  holds_linkVar hspec hvar ((linkGuarded_eq hspec).symm.trans h)

/-- Relinking adds only fresh targets, unless it links for good. -/
theorem remembers_relinked {result : Except Error Unit} (hspec : SiteOf spec v isCall)
    (hvar : w.findVar? v.space v.name = some v)
    (h : s.Remembers (Fresh w v isCall spec.argTypes.length) (· = .generic spec))
    (hrelink : Site.Relinked (linker w spec args) s site result)
    (hdynamic : s.stage = .cold → site.isStatic = false) :
    site.Remembers (Fresh w v isCall spec.argTypes.length) (· = .generic spec) := by
  refine h.relinked hrelink ?_ ?_ rfl
  · intro target hcold hstatic
    simp [hdynamic hcold] at hstatic
  · intro e he
    exact linkVar_fresh hspec hvar ((linkGuarded_eq hspec).symm.trans he)

theorem stage_relinked {l : Linker Error Guard Target} {result : Except Error Unit}
    (hrelink : Site.Relinked l s site result) : site.stage ≠ .cold := by
  cases hrelink <;> assumption

/-- One change keeps a site faithful. -/
theorem Faithful.change (hspec : SiteOf spec v isCall) (hvar : w.findVar? v.space v.name = some v)
    (h : Faithful w index spec v isCall s) (hchange : Change w w') :
    ∃ s', Faithful w' index spec v isCall s' := by
  have hfresh : ∀ e, Fresh w v isCall spec.argTypes.length e →
      Fresh w' v isCall spec.argTypes.length e := fun e he => he.onward hchange.onward
  rcases hchange.site index with hsame | ⟨args, rfl⟩
  · exact ⟨s, hsame.trans h.site, h.asked, h.remembers.mono hfresh⟩
  · obtain ⟨site, hsite, hasked⟩ := linked_asked h.site (holds_linked hspec hvar)
    cases hasked with
    | found target hselect => exact ⟨s, hsite, h.asked, h.remembers.mono hfresh⟩
    | relinked target hrelink hselect =>
      have hremembers := remembers_relinked hspec hvar h.remembers hrelink fun hcold => absurd hcold h.asked
      exact ⟨site, hsite, stage_relinked hrelink, hremembers.mono hfresh⟩
    | failed e hrelink =>
      have hremembers := remembers_relinked hspec hvar h.remembers hrelink fun hcold => absurd hcold h.asked
      exact ⟨site, hsite, stage_relinked hrelink, hremembers.mono hfresh⟩

/-- A whole run keeps a site faithful. -/
theorem Faithful.course (hspec : SiteOf spec v isCall) (hvar : w.findVar? v.space v.name = some v)
    (h : Faithful w index spec v isCall s) (hcourse : Course w w') :
    w'.findVar? v.space v.name = some v ∧ ∃ s', Faithful w' index spec v isCall s' := by
  induction hcourse with
  | refl => exact ⟨hvar, s, h⟩
  | tail _ hchange ih =>
    obtain ⟨hvar', s', h'⟩ := ih
    exact ⟨hchange.onward.names _ _ v hvar' rfl, h'.change hspec hvar' hchange⟩

theorem root?_linked : (linked index args w).root? v = w.root? v := by
  rw [linked_eq]
  rfl

/-- A call of a fresh target, or of the generic one, ends as the generic one does. -/
theorem yields_target [Libraries] (hspec : SiteOf spec v isCall) (hvar : w.findVar? v.space v.name = some v)
    (hlength : args.length = spec.argTypes.length)
    (hresult : targetOf index args w = .ok (spec, target) (linked index args w))
    (h : target = .generic spec ∨
      ∃ g, Fresh w v isCall spec.argTypes.length (g, target) ∧ holds w args g = true)
    (r : EStateM.Result Fault World Value) :
    Yields (fun call => invokeSite call index args) w r ↔
      Yields (fun call => runGeneric call spec args) (linked index args w) r := by
  rw [yields_congr (fun call => invokeSite_of_target hresult) r]
  rcases h with rfl | ⟨g, hfresh, hholds⟩
  · exact Iff.rfl
  · obtain ⟨root, hroot, hstands⟩ := hfresh.stands hholds
    have hw := onward_linked index args w
    have hgeneric : ∀ call, runGeneric call spec args (linked index args w)
        = onRoot call v isCall args (some root) (linked index args w) := by
      intro call
      rw [runGeneric_eq hspec (hw.names _ _ v hvar rfl), root?_linked, hroot]
    rw [yields_congr hgeneric r]
    exact (hstands.onward hw).yields hlength r

/-- A call through a site that remembers only fresh targets ends as the generic target does. -/
theorem yields_generic [Libraries] (hspec : SiteOf spec v isCall) (hvar : w.findVar? v.space v.name = some v)
    (hlength : args.length = spec.argTypes.length) (hsite : w.sites[index]? = some { spec, site := s })
    (hremembers : s.Remembers (Fresh w v isCall spec.argTypes.length) (· = .generic spec))
    (hdynamic : ∀ site, (linked index args w).sites[index]? = some { spec, site } → s.stage = .cold →
      site.isStatic = false) (r : EStateM.Result Fault World Value) :
    Yields (fun call => invokeSite call index args) w r ↔
      Yields (fun call => runGeneric call spec args) (linked index args w) r := by
  obtain ⟨site, hsite', hasked⟩ := linked_asked hsite (holds_linked hspec hvar)
  cases hasked with
  | found target hselect hresult =>
    exact yields_target hspec hvar hlength hresult (hremembers.select hselect) r
  | relinked target hrelink hselect hresult =>
    have hremembers' := remembers_relinked hspec hvar hremembers hrelink (hdynamic site hsite')
    exact yields_target hspec hvar hlength hresult (hremembers'.select hselect) r
  | failed e hrelink hresult =>
    have hw := onward_linked index args w
    have hgeneric : ∀ call, runGeneric call spec args (linked index args w)
        = onRoot call v isCall args (w.root? v) (linked index args w) := by
      intro call
      rw [runGeneric_eq hspec (hw.names _ _ v hvar rfl), root?_linked]
    have hfails : r = .error (.error e) (linked index args w) ↔
        Yields (fun call => onRoot call v isCall args (w.root? v)) (linked index args w) r := by
      cases hrelink with
      | failed hlink =>
        rcases hlink with ⟨-, hlink⟩ | hlink
        · exact linkFinalVar_error hspec hvar ((linkStatic_eq hspec).symm.trans hlink) hlength hw r
        · exact linkVar_error hspec hvar ((linkGuarded_eq hspec).symm.trans hlink) hlength hw r
    rw [yields_congr hgeneric r, ← hfails]
    constructor
    · rintro ⟨-, fuel, hrun⟩
      exact hrun.symm.trans (invokeSite_of_error hresult)
    · rintro rfl
      exact ⟨by simp, 0, invokeSite_of_error hresult⟩

end Following

/-! ### Sites linked for good -/

section Static

variable {w w' : World} {index : Nat} {spec : SiteSpec} {v : VarRef} {isCall : Bool}
  {s : Site Guard Target} {args : List Value} {target : Target} {root : Value}

/-- The site has a target that no guard can take away. -/
structure Settled (w : World) (index : Nat) (spec : SiteSpec) (target : Target) (s : Site Guard Target) :
    Prop where
  site : w.sites[index]? = some { spec, site := s }
  dispatch : s.dispatch = .unguarded target

theorem Settled.targetOf (h : Settled w index spec target s) (args : List Value) :
    Machine.targetOf index args w = .ok (spec, target) w ∧ linked index args w = w := by
  refine targetOf_of_select h.site ?_
  simp [Site.select, h.dispatch]

theorem Settled.course (h : Settled w index spec target s) (hcourse : Course w w') :
    Settled w' index spec target s := by
  induction hcourse with
  | refl => exact h
  | tail _ hchange ih =>
    rcases hchange.site index with hsame | ⟨args, rfl⟩
    · exact ⟨hsame.trans ih.site, ih.dispatch⟩
    · rwa [(ih.targetOf args).2]

/-- A call through a settled site ends as the value its target stands for does. -/
theorem Settled.yields [Libraries] (h : Settled w index spec target s)
    (hstands : Stands w spec.argTypes.length isCall root target)
    (hlength : args.length = spec.argTypes.length) (r : EStateM.Result Fault World Value) :
    Yields (fun call => invokeSite call index args) w r ↔
      Yields (fun call => onRoot call v isCall args (some root)) (linked index args w) r := by
  obtain ⟨htarget, hlinked⟩ := h.targetOf args
  have hresult : Machine.targetOf index args w = .ok (spec, target) (linked index args w) := by
    rw [hlinked, htarget]
  rw [yields_congr (fun call => invokeSite_of_target hresult) r, hlinked]
  exact hstands.yields hlength r

end Static

/-! ### Everything that can happen to a site and its var -/

/-- The site is linked without a guard, for good. -/
def isStaticAt (index : Nat) (w : World) : Bool :=
  ((w.sites[index]?).map fun s => s.site.isStatic).getD false

/-- A call through a site, or a binding of its var. -/
inductive Event where
  | invoke (fuel : Nat) (args : List Value)
  | bindRoot (value : Value)
  | define (value : Option Value) (flags : VarFlags)

/-- The world after an event; a call runs whatever code the var leads to. -/
def Event.after [Libraries] (index : Nat) (v : VarRef) (w : World) : Event → World
  | .invoke fuel args => worldAfter (invokeSite (call fuel) index args w)
  | .bindRoot value => w.bindRoot v value
  | .define value flags => w.define v value flags

/-- The world right after the site was asked for a target for the first time: by the first call among some
events, or by a call with the given arguments behind them. -/
def firstLink [Libraries] (index : Nat) (v : VarRef) (args : List Value) : World → List Event → World
  | w, [] => linked index args w
  | w, .invoke _ first :: _ => linked index first w
  | w, e :: rest => firstLink index v args (e.after index v w) rest

section Events

variable {w w' : World} {index : Nat} {spec : SiteSpec} {v : VarRef} {isCall : Bool} {args : List Value}

theorem invokeSite_course [Libraries] (fuel index : Nat) (args : List Value) (w : World) :
    Course (linked index args w) (worldAfter (invokeSite (call fuel) index args w)) := by
  unfold invokeSite linked
  rw [State.bind_eq]
  cases targetOf index args w with
  | ok target w' => exact runs_runTarget (call_course fuel) _ _ w'
  | error e w' => exact .refl

theorem Event.course [Libraries] (e : Event) (index : Nat) (v : VarRef) (w : World) : Course w (e.after index v w) := by
  cases e with
  | invoke fuel args => exact .head (.link index args) (invokeSite_course fuel index args w)
  | bindRoot value => exact .single (.bind v value)
  | define value flags => exact .single (.define v value flags)

theorem events_course [Libraries] (events : List Event) (index : Nat) (v : VarRef) (w : World) :
    Course w (events.foldl (Event.after index v) w) := by
  induction events generalizing w with
  | nil => exact .refl
  | cons e rest ih => exact (e.course index v w).trans (ih _)

/-- What a site is once a call has asked it for the first time: settled on the value a final var had then,
or faithful to its var. -/
theorem first_link (hspec : SiteOf spec v isCall) (hvar : w.findVar? v.space v.name = some v)
    (hcold : w.sites[index]? = some { spec }) (args : List Value) :
    (isStaticAt index (linked index args w) = true ∧ (w.flagsOf v).isFinal = true ∧
      ∃ root target s, w.root? v = some root ∧ Stands w spec.argTypes.length isCall root target ∧
        Settled (linked index args w) index spec target s ∧
        targetOf index args w = .ok (spec, target) (linked index args w)) ∨
    (isStaticAt index (linked index args w) = false ∧
      ∃ s, Faithful (linked index args w) index spec v isCall s) := by
  obtain ⟨site, hsite, hasked⟩ :=
    linked_asked hcold fun e (h : (linker w spec args).linkGuarded () = _) => holds_linked hspec hvar e h
  have hstatic : isStaticAt index (linked index args w) = site.isStatic := by simp [isStaticAt, hsite]
  have hfaithful : ∀ result, Site.Relinked (linker w spec args) {} site result → site.isStatic = false →
      Faithful (linked index args w) index spec v isCall site := by
    intro result hrelink hdynamic
    have hremembers := remembers_relinked hspec hvar Site.remembers_cold hrelink fun _ => hdynamic
    exact ⟨hsite, stage_relinked hrelink, hremembers.mono fun e he => he.onward (onward_linked index args w)⟩
  rw [hstatic]
  cases hasked with
  | found target hselect => cases hselect
  | relinked target hrelink hselect hresult =>
    cases hforever : site.isStatic with
    | false => exact .inr ⟨rfl, site, hfaithful _ hrelink hforever⟩
    | true =>
      cases hrelink with
      | static target' _ hlink _ _ _ _ hdispatch =>
        have htarget : target' = target := by simpa [Site.select, hdispatch] using hselect
        subst htarget
        obtain ⟨hfinal, root, hroot, hstands⟩ :=
          linkFinalVar_ok hspec hvar ((linkStatic_eq hspec).symm.trans hlink)
        exact .inl ⟨rfl, hfinal, root, target', site, hroot, hstands, ⟨hsite, hdispatch⟩, hresult⟩
      | chain _ _ _ _ _ _ _ hdynamic => simp [hdynamic] at hforever
      | table _ _ _ _ _ _ _ hdynamic => simp [hdynamic] at hforever
      | generic _ _ _ hdynamic => simp [hdynamic] at hforever
  | failed e hrelink hresult =>
    have hdynamic : site.isStatic = false := by
      cases hrelink with
      | failed _ _ _ _ hsame => exact hsame
    exact .inr ⟨hdynamic, site, hfaithful _ hrelink hdynamic⟩

/-- A call through a site ends as the value a final var had at the first call does, if the site was linked
for good then, and as the generic target does otherwise. -/
theorem invocation_outcome [Libraries] (hspec : SiteOf spec v isCall)
    (hvar : w.findVar? v.space v.name = some v) (hcold : w.sites[index]? = some { spec })
    (events : List Event) (args : List Value) (hlength : args.length = spec.argTypes.length) :
    let now := events.foldl (Event.after index v) w
    let first := firstLink index v args w events
    (isStaticAt index first = true → (first.flagsOf v).isFinal = true ∧
      ∃ root, first.root? v = some root ∧
        ∀ r, Yields (fun call => invokeSite call index args) now r ↔
          Yields (fun call => onRoot call v isCall args (some root)) (linked index args now) r) ∧
    (isStaticAt index first = false →
      ∀ r, Yields (fun call => invokeSite call index args) now r ↔
        Yields (fun call => runGeneric call spec args) (linked index args now) r) := by
  -- The events before the first call only bind the var; the ones behind it are one course of changes.
  induction events generalizing w with
  | nil =>
    simp only [List.foldl_nil, firstLink]
    have hw := onward_linked index args w
    rcases first_link hspec hvar hcold args with
      ⟨hstatic, hfinal, root, target, s, hroot, hstands, -, hresult⟩ | ⟨hdynamic, -⟩
    · refine ⟨fun _ => ⟨by rw [linked_eq]; exact hfinal, root, root?_linked.trans hroot, fun r => ?_⟩,
        fun hdynamic => by simp [hstatic] at hdynamic⟩
      rw [yields_congr (fun call => invokeSite_of_target hresult) r]
      exact (hstands.onward hw).yields hlength r
    · refine ⟨fun hstatic => by simp [hdynamic] at hstatic, fun _ => ?_⟩
      refine yields_generic hspec hvar hlength hcold Site.remembers_cold fun site hsite _ => ?_
      simpa [isStaticAt, hsite] using hdynamic
  | cons e rest ih =>
    cases e with
    | invoke fuel firstArgs =>
      simp only [List.foldl_cons, firstLink, Event.after]
      have hcourse : Course (linked index firstArgs w)
          (rest.foldl (Event.after index v) (worldAfter (invokeSite (call fuel) index firstArgs w))) :=
        (invokeSite_course fuel index firstArgs w).trans (events_course rest index v _)
      have hw := onward_linked index firstArgs w
      rcases first_link hspec hvar hcold firstArgs with
        ⟨hstatic, hfinal, root, target, s, hroot, hstands, hsettled, -⟩ | ⟨hdynamic, s, hfaithful⟩
      · refine ⟨fun _ => ⟨by rw [linked_eq]; exact hfinal, root, root?_linked.trans hroot, fun r => ?_⟩,
          fun hdynamic => by simp [hstatic] at hdynamic⟩
        have hstands' := (hstands.onward hw).onward (Course.onward hcourse)
        exact (hsettled.course hcourse).yields hstands' hlength r
      · refine ⟨fun hstatic => by simp [hdynamic] at hstatic, fun _ => ?_⟩
        obtain ⟨hvar', s', h'⟩ := hfaithful.course hspec (hw.names _ _ v hvar rfl) hcourse
        refine yields_generic hspec hvar' hlength h'.site h'.remembers fun _ _ hcold' => ?_
        exact absurd hcold' h'.asked
    | bindRoot value => exact ih hvar hcold
    | define value flags => exact ih hvar hcold

/-- Call sites of vars never go stale.  Through a site that was not linked for good at its first call, every
call ends as the generic target does at that moment: it gives the root the var has then, applies it, or
fails because there is none.  Through a site that was, the var was final and bound at that first call, and
every call ends as it does with the root of that time. -/
theorem globalSite_never_stale [Libraries] (hspec : SiteOf spec v isCall)
    (hvar : w.findVar? v.space v.name = some v) (hcold : w.sites[index]? = some { spec })
    (events : List Event) (args : List Value) (hlength : args.length = spec.argTypes.length) :
    let now := events.foldl (Event.after index v) w
    let first := firstLink index v args w events
    (isStaticAt index first = true → (first.flagsOf v).isFinal = true ∧
      ∃ root, first.root? v = some root ∧
        ∀ r, Yields (fun call => invokeSite call index args) now r ↔
          Yields (fun call => onRoot call v isCall args (some root)) (linked index args now) r) ∧
    (isStaticAt index first = false →
      ∀ r, Yields (fun call => invokeSite call index args) now r ↔
        Yields (fun call => runGeneric call spec args) (linked index args now) r) ∧
    ∀ call, runGeneric call spec args (linked index args now)
      = onRoot call v isCall args (now.root? v) (linked index args now) := by
  intro now first
  have hnow : now.findVar? v.space v.name = some v :=
    (Course.onward (events_course events index v w)).names _ _ v hvar rfl
  have hgeneric : ∀ call, runGeneric call spec args (linked index args now)
      = onRoot call v isCall args (now.root? v) (linked index args now) := by
    intro call
    rw [runGeneric_eq hspec ((onward_linked index args now).names _ _ v hnow rfl), root?_linked]
  exact ⟨(invocation_outcome hspec hvar hcold events args hlength).1,
    (invocation_outcome hspec hvar hcold events args hlength).2, hgeneric⟩

end Events

/-! ### A var that is bound again -/

/-- A world with one var, bound to one, and one site that reads it. -/
def readerWorld (isFinal : Bool) : World where
  vars := #[{ space := "user", name := "x", root := some (.int 1), flags := { isFinal } }]
  spaces := ⟨[("user", { mappings := ⟨[("x", { id := 0, space := "user", name := "x" })]⟩ })]⟩
  sites := #[{ spec := SiteSpec.new (.globalValue "user" "x") [] .any }]

/-- Read once, then bound to two. -/
def readThenBound : List Event := [.invoke 0 [], .bindRoot (.int 2)]

/-- The new value is read, unless the var was final. -/
theorem reads_after_binding :
    let x : VarRef := { id := 0, space := "user", name := "x" }
    let now := fun isFinal => readThenBound.foldl (Event.after 0 x) (readerWorld isFinal)
    Yields (fun call => invokeSite call 0 []) (now false) (.ok (.int 2) (linked 0 [] (now false))) ∧
      Yields (fun call => invokeSite call 0 []) (now true) (.ok (.int 1) (linked 0 [] (now true))) := by
  intro x now
  have hspec : SiteOf (SiteSpec.new (.globalValue "user" "x") [] .any) x false := rfl
  have hvar : ∀ isFinal, (readerWorld isFinal).findVar? x.space x.name = some x := fun _ => rfl
  have hcold : ∀ isFinal, (readerWorld isFinal).sites[0]?
      = some { spec := SiteSpec.new (.globalValue "user" "x") [] .any } := fun _ => rfl
  constructor
  · have hstale := globalSite_never_stale hspec (hvar false) (hcold false) readThenBound [] rfl
    exact (hstale.2.1 rfl _).mpr ⟨by simp, 0, rfl⟩
  · have hstale := globalSite_never_stale hspec (hvar true) (hcold true) readThenBound [] rfl
    obtain ⟨-, root, hroot, hends⟩ := hstale.1 rfl
    cases hroot
    exact (hends _).mpr ⟨by simp, 0, rfl⟩

end LispMachine.Machine
