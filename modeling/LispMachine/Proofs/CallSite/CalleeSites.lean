import Mathlib.Logic.Relation
import LispMachine.Libraries.Standard
import LispMachine.Proofs.CallSite.GlobalSites

/-! # Call sites with an open callee

A site whose first argument is called with the others remembers how earlier callees were called, and takes
a callee for one of them when its guard does: functions and keywords by identity, objects by the
registration of their class, anything else by the name of its class.  As long as no value that is not an
object has the class name of a remembered object, what is remembered is what applying the callee comes to
(`calleeSite_transparent`).  A type may be given the name of a built-in class; its instances and the
built-in values are then mixed up (`vector_taken_for_object`). -/

namespace LispMachine.Machine

open CallSite Relation

/-! ### Worlds with the same classes -/

/-- The second world has the classes of the first, and all its objects with their classes. -/
structure SameClasses (w w' : World) : Prop where
  registry : w'.registry = w.registry
  objects : ∀ o i, w.instance? o = some i → ∃ i', w'.instance? o = some i' ∧ i'.cls = i.cls

/-- A callee that is an object exists and is of the class it is said to be. -/
def Genuine (w : World) (args : List Value) : Prop :=
  ∀ o, args.head? = some (.object o) → ∃ i, w.instance? o = some i ∧ i.cls.name = o.className

/-- Classes of objects are told apart by their serials, as they are all through a session (`serialsApart_session`). -/
def SerialsApart (w : World) : Prop :=
  ∀ o o' i i', w.instance? o = some i → w.instance? o' = some i' → i.cls.serial = i'.cls.serial →
    i.cls = i'.cls

section Worlds

variable {w w' : World} {args : List Value} {o o' : ObjectRef}

theorem Onward.sameClasses (h : Onward w w') : SameClasses w w' := ⟨h.registry, h.objects⟩

theorem Genuine.sameClasses (h : Genuine w args) (hw : SameClasses w w') : Genuine w' args := by
  intro o ho
  obtain ⟨i, hi, hname⟩ := h o ho
  obtain ⟨i', hi', hcls⟩ := hw.objects o i hi
  exact ⟨i', hi', by rw [hcls, hname]⟩

/-- Whether an object can be called does not change. -/
theorem functionClass?_sameClasses (hw : SameClasses w w') {i : Instance} (hi : w.instance? o = some i) :
    functionClass? w' o = functionClass? w o := by
  obtain ⟨i', hi', hcls⟩ := hw.objects o i hi
  unfold functionClass?
  rw [hw.registry, hi, hi', Option.map_some, Option.map_some, hcls]

/-- Two objects of one registration are called alike. -/
theorem functionClass?_same_serial {i i' : Instance} (hserials : SerialsApart w)
    (hi : w.instance? o = some i) (hi' : w.instance? o' = some i') (hname : i.cls.name = o.className)
    (hname' : i'.cls.name = o'.className) (h : i.cls.serial = i'.cls.serial) :
    functionClass? w o = functionClass? w o' := by
  have hcls := hserials o o' i i' hi hi' h
  have hclassName : o.className = o'.className := by rw [← hname, ← hname', hcls]
  unfold functionClass?
  rw [hclassName, hi, hi', Option.map_some, Option.map_some, hcls]

end Worlds

/-! ### Linking a callee -/

/-- How a callee is called with `n` arguments. -/
def calleeTarget (w : World) (callee : Value) (n : Nat) : Except Error Target :=
  match callee with
  | .function f =>
    if f.arity.accepts n then .ok (.calleeFunction f) else .error (wrongArity n f.title)
  | .object o =>
    match functionClass? w o with
    | some cls => (selectInvoke cls n).map (.calleeMethod cls)
    | none => .ok .callee
  | .nil => .error (Error.runtime "cannot call nil")
  | _ => .ok .callee

section Linking

variable {w w' : World} {args rest : List Value} {callee : Value} {target : Target} {n : Nat}

theorem linkCallee_cons :
    linkCallee w (callee :: rest)
      = (calleeTarget w callee rest.length).map fun target => some (.callee callee, target) := by
  cases callee with
  | function f =>
    change (ite _ _ _) = _
    unfold calleeTarget
    dsimp only
    split <;> rfl
  | object o =>
    unfold calleeTarget
    change (match functionClass? w o with | some cls => _ | none => _) = _
    dsimp only
    cases functionClass? w o with
    | none => rfl
    | some cls =>
      dsimp only
      cases selectInvoke cls rest.length <;> rfl
  | _ => rfl

/-- The target of a callee depends on the classes alone. -/
theorem calleeTarget_sameClasses (hw : SameClasses w w') (hgenuine : Genuine w (callee :: rest)) :
    calleeTarget w' callee n = calleeTarget w callee n := by
  cases callee with
  | object o =>
    obtain ⟨i, hi, -⟩ := hgenuine o rfl
    simp only [calleeTarget, functionClass?_sameClasses hw hi]
  | _ => rfl

/-- No target is made for a callee that cannot be called this way; applying it fails for the same reason,
told in other words for nil. -/
theorem applyValue_of_error {e : Error} (h : calleeTarget w callee rest.length = .error e) :
    ∃ kind message message', e = Error.of kind message ∧
      ∀ call, applyValue call callee rest w = .error (.error (Error.of kind message')) w := by
  cases callee with
  | function f =>
    simp only [calleeTarget] at h
    split at h
    · cases h
    · rename_i haccepts
      cases h
      have happly : ∀ call, applyValue call (.function f) rest w
          = .error (.error (wrongArity rest.length f.title)) w := by
        intro call
        simp only [applyValue, callFunction, if_neg haccepts]
        rfl
      exact ⟨.arity, _, _, rfl, happly⟩
  | object o =>
    simp only [calleeTarget] at h
    split at h
    · rename_i cls hcls
      cases hm : selectInvoke cls rest.length with
      | ok m => simp [hm, Except.map] at h
      | error e' =>
        simp only [hm, Except.map, Except.error.injEq] at h
        subst h
        have harity : ∃ message, e' = Error.of .arity message := by
          unfold selectInvoke at hm
          dsimp only at hm
          split at hm
          · cases hm
          · split at hm
            · cases hm
            · cases hm
              exact ⟨_, rfl⟩
        obtain ⟨message, rfl⟩ := harity
        refine ⟨.arity, message, message, rfl, fun call => ?_⟩
        simp only [applyValue]
        rw [State.bind_of_ok (State.get_eq w), hcls]
        dsimp only
        rw [hm, State.bind_of_error (Action.ofExcept_error _ w)]
    · cases h
  | nil =>
    cases h
    exact ⟨.runtime, _, _, rfl, fun _ => rfl⟩
  | _ => cases h

/-- A target that was made for a callee does at once what applying the callee does, or applies it. -/
theorem runTarget_of_calleeTarget (h : calleeTarget w callee rest.length = .ok target) :
    (∀ call, runTarget call target (callee :: rest) w = applyValue call callee rest w) ∨
      ∀ call, runTarget call target (callee :: rest) w = call (.apply callee rest) w := by
  cases callee with
  | function f =>
    simp only [calleeTarget] at h
    split at h
    · cases h
      exact .inl fun call => rfl
    · cases h
  | object o =>
    simp only [calleeTarget] at h
    split at h
    · rename_i cls hcls
      cases hm : selectInvoke cls rest.length with
      | error e => simp [hm, Except.map] at h
      | ok m =>
        simp only [hm, Except.map, Except.ok.injEq] at h
        subst h
        refine .inl fun call => ?_
        have happly : applyValue call (.object o) rest w
            = call (.invoke cls m (some (.object o)) (packRest m rest)) w := by
          simp only [applyValue]
          rw [State.bind_of_ok (State.get_eq w), hcls]
          dsimp only
          rw [hm, State.bind_of_ok (Action.ofExcept_ok m w)]
        rw [happly]
        rfl
    · cases h
      exact .inr fun call => rfl
  | nil => cases h
  | _ =>
    cases h
    exact .inr fun call => rfl

/-- A value that guards know by the name of its class alone. -/
def isPlain : Value → Bool
  | .object _ => false
  | .function _ => false
  | .keyword _ => false
  | _ => true

theorem sameCallee_plain {other : Value} (hplain : isPlain callee = true)
    (h : sameCallee w callee other = true) : callee.className? = other.className? := by
  cases callee with
  | object o => cases hplain
  | function f => cases hplain
  | keyword k => cases hplain
  | _ =>
    simp only [sameCallee, Bool.and_eq_true, beq_iff_eq] at h
    exact h.2

theorem className?_plain (hplain : isPlain callee = true) : callee.className? ≠ some Names.nativeFn := by
  cases callee with
  | object o => cases hplain
  | function f => cases hplain
  | keyword k => cases hplain
  | _ =>
    simp only [Value.className?]
    decide

/-- A callee that the guard of another takes for it is called as that other is, if it is not a plain value
with the class name of an object that can be called. -/
theorem calleeTarget_of_sameCallee {other : Value} {args' : List Value} (hserials : SerialsApart w)
    (hgenuine : Genuine w (callee :: rest)) (hgenuine' : Genuine w (other :: args'))
    (hapart : ∀ o, other = .object o → isPlain callee = true →
      w.registry.isSubclass o.className Names.fn = true → callee.className? ≠ some o.className)
    (hsame : sameCallee w callee other = true) (h : calleeTarget w other n = .ok target) :
    target = .callee ∨ calleeTarget w callee n = .ok target := by
  cases other with
  | function f =>
    cases callee with
    | function g =>
      have hfg : g = f := by simpa [sameCallee] using hsame
      exact .inr (hfg ▸ h)
    | object o => cases hsame
    | keyword k => cases hsame
    | _ => exact absurd (sameCallee_plain rfl hsame) (className?_plain rfl)
  | object o =>
    obtain ⟨i, hi, hname⟩ := hgenuine' o rfl
    cases callee with
    | object o' =>
      obtain ⟨i', hi', hname'⟩ := hgenuine o' rfl
      have hserial : i'.cls.serial = i.cls.serial := by simpa [sameCallee, hi, hi'] using hsame
      have hclass := functionClass?_same_serial hserials hi' hi hname' hname hserial
      refine .inr ?_
      simp only [calleeTarget] at h ⊢
      rwa [hclass]
    | function g => cases hsame
    | keyword k => cases hsame
    | _ =>
      -- Only an object without methods to call may lend its name to a plain value.
      have hnone : functionClass? w o = none := by
        unfold functionClass?
        rw [if_neg fun hfn => hapart o rfl rfl hfn (sameCallee_plain rfl hsame)]
      simp only [calleeTarget, hnone, Except.ok.injEq] at h
      exact .inl h.symm
  | nil => cases h
  | _ =>
    cases h
    exact .inl rfl

/-- The guard of a target holds for the call it is made for. -/
theorem sameCallee_self (hgenuine : Genuine w (callee :: rest)) (h : calleeTarget w callee n = .ok target) :
    sameCallee w callee callee = true := by
  cases callee with
  | object o =>
    obtain ⟨i, hi, -⟩ := hgenuine o rfl
    simp [sameCallee, hi]
  | function f => simp [sameCallee]
  | keyword k => simp [sameCallee]
  | nil => cases h
  | _ => simp [sameCallee, Value.className?]

end Linking

/-! ### Sequences of calls -/

/-- One step in the life of a site: a call with arguments among the given ones asks it for a target, or
something else happens that changes neither the site nor any class. -/
inductive CalleeStep (index : Nat) (calls : List Value → Prop) (w : World) : World → Prop
  | call (args : List Value) (h : calls args) (hgenuine : Genuine w args) :
      CalleeStep index calls w (linked index args w)
  | other {w' : World} (hclasses : SameClasses w w') (hsite : w'.sites[index]? = w.sites[index]?) :
      CalleeStep index calls w w'

/-- The calls through a site: all have the same number of arguments, a callee known in advance is what is
called, and no plain callee has the class name of an object that is called. -/
structure Suitable (r : Registry) (spec : SiteSpec) (calls : List Value → Prop) : Prop where
  length : ∃ n, ∀ args, calls args → args.length = n + 1
  constant : ∀ name, spec.constant = some (.keyword name) →
    ∀ args, calls args → args.head? = some (.keywordNamed name)
  apart : ∀ first args o v, calls first → calls args → first.head? = some (.object o) →
    args.head? = some v → isPlain v = true → r.isSubclass o.className Names.fn = true →
      v.className? ≠ some o.className

/-- A guarded target was made for one of the calls. -/
def MadeForCallee (w : World) (calls : List Value → Prop) (e : Guard × Target) : Prop :=
  ∃ callee rest, calls (callee :: rest) ∧ Genuine w (callee :: rest) ∧ e.1 = .callee callee ∧
    calleeTarget w callee rest.length = .ok e.2

/-- A target without a guard decides every call anew, or calls the keyword known in advance. -/
def BareCallee (spec : SiteSpec) (target : Target) : Prop :=
  target = .generic spec ∨ linkConstantCallee spec = some target

section Calls

variable {w w' : World} {index : Nat} {spec : SiteSpec} {calls : List Value → Prop}
  {s site : Site Guard Target} {args rest : List Value} {callee : Value} {e : Guard × Target} {target : Target}

theorem MadeForCallee.sameClasses (h : MadeForCallee w calls e) (hw : SameClasses w w') :
    MadeForCallee w' calls e := by
  obtain ⟨callee, rest, hcalls, hgenuine, hguard, htarget⟩ := h
  refine ⟨callee, rest, hcalls, hgenuine.sameClasses hw, hguard, ?_⟩
  rwa [calleeTarget_sameClasses hw hgenuine]

theorem linkGuarded_callee (hkind : spec.kind = .invoke) :
    (linker w spec args).linkGuarded () = linkCallee w args := by
  simp only [linker, hkind]

theorem linkStatic_callee (hkind : spec.kind = .invoke) :
    (linker w spec args).linkStatic () = .ok (linkConstantCallee spec) := by
  simp only [linker, hkind]

theorem madeForCallee_link (hkind : spec.kind = .invoke) (hgenuine : Genuine w args)
    (h : (linker w spec args).linkGuarded () = .ok (some e)) (calls : List Value → Prop)
    (hcalls : calls args) : MadeForCallee w calls e := by
  rw [linkGuarded_callee hkind] at h
  cases args with
  | nil => cases h
  | cons callee rest =>
    rw [linkCallee_cons] at h
    cases htarget : calleeTarget w callee rest.length with
    | error e' => simp [htarget, Except.map] at h
    | ok target =>
      simp only [htarget, Except.map, Except.ok.injEq, Option.some.injEq] at h
      subst h
      exact ⟨callee, rest, hcalls, hgenuine, rfl, htarget⟩

theorem holds_linkCallee (hkind : spec.kind = .invoke) (hgenuine : Genuine w args)
    (h : (linker w spec args).linkGuarded () = .ok (some e)) : holds w args e.1 = true := by
  obtain ⟨callee, rest, rfl, hgenuine', hguard, htarget⟩ :=
    madeForCallee_link hkind hgenuine h (· = args) rfl
  rw [hguard]
  simpa [holds] using sameCallee_self hgenuine' htarget

theorem remembers_callee {result : Except Error Unit} (hkind : spec.kind = .invoke) (hcalls : calls args)
    (hgenuine : Genuine w args) (h : s.Remembers (MadeForCallee w calls) (BareCallee spec))
    (hrelink : Site.Relinked (linker w spec args) s site result) :
    site.Remembers (MadeForCallee w calls) (BareCallee spec) := by
  refine h.relinked hrelink ?_ (fun _ he => madeForCallee_link hkind hgenuine he calls hcalls) (.inl rfl)
  intro target _ _ hstatic
  rw [linkStatic_callee hkind, Except.ok.injEq] at hstatic
  exact .inr hstatic

/-- Through any sequence of calls a site remembers only targets made for these calls. -/
theorem remembers_callees {w₀ : World} (hkind : spec.kind = .invoke)
    (hcold : w₀.sites[index]? = some { spec }) (hcalls : ReflTransGen (CalleeStep index calls) w₀ w) :
    w.registry = w₀.registry ∧ ∃ s, w.sites[index]? = some { spec, site := s } ∧
      s.Remembers (MadeForCallee w calls) (BareCallee spec) := by
  induction hcalls with
  | refl => exact ⟨rfl, {}, hcold, Site.remembers_cold⟩
  | @tail w w' _ hstep ih =>
    obtain ⟨hregistry, s, hsite, hremembers⟩ := ih
    cases hstep with
    | other hclasses hkept =>
      exact ⟨hclasses.registry.trans hregistry, s, hkept.trans hsite,
        hremembers.mono fun _ he => he.sameClasses hclasses⟩
    | call args hargs hgenuine =>
      have hclasses := (onward_linked index args w).sameClasses
      obtain ⟨site, hsite', hasked⟩ := linked_asked hsite fun _ he => holds_linkCallee hkind hgenuine he
      refine ⟨hclasses.registry.trans hregistry, site, hsite', ?_⟩
      refine Site.Remembers.mono ?_ fun _ he => MadeForCallee.sameClasses he hclasses
      cases hasked with
      | found => exact hremembers
      | relinked target hrelink => exact remembers_callee hkind hargs hgenuine hremembers hrelink
      | failed e hrelink => exact remembers_callee hkind hargs hgenuine hremembers hrelink

/-- Whatever target the site has for a call does at once what applying the callee does, or applies it. -/
theorem runTarget_callee (hkind : spec.kind = .invoke) (hsuitable : Suitable w.registry spec calls)
    (hserials : SerialsApart w) (hargs : calls (callee :: rest)) (hgenuine : Genuine w (callee :: rest))
    (h : BareCallee spec target ∨
      ∃ g, MadeForCallee w calls (g, target) ∧ holds w (callee :: rest) g = true) :
    (∀ call, runTarget call target (callee :: rest) w = applyValue call callee rest w) ∨
      ∀ call, runTarget call target (callee :: rest) w = call (.apply callee rest) w := by
  rcases h with (rfl | hconstant) | ⟨g, ⟨other, rest', hother, hgenuine', rfl, htarget⟩, hholds⟩
  · refine .inr fun call => ?_
    simp only [runTarget, runGeneric, hkind]
    rfl
  · unfold linkConstantCallee at hconstant
    split at hconstant
    · rename_i name hname
      cases hconstant
      have hhead := hsuitable.constant name hname _ hargs
      simp only [List.head?_cons, Option.some.injEq] at hhead
      subst hhead
      exact .inr fun call => rfl
    · cases hconstant
  · obtain ⟨n, hlength⟩ := hsuitable.length
    have hsameLength : rest'.length = rest.length := by
      have h₁ := hlength _ hother
      have h₂ := hlength _ hargs
      simp only [List.length_cons] at h₁ h₂
      omega
    have hsame : sameCallee w callee other = true := by simpa [holds] using hholds
    rcases calleeTarget_of_sameCallee hserials hgenuine hgenuine'
      (fun o ho hplain => hsuitable.apart _ _ o callee hother hargs (by rw [ho]; rfl) rfl hplain)
      hsame htarget with rfl | htarget'
    · exact .inr fun call => rfl
    · rw [hsameLength] at htarget'
      exact runTarget_of_calleeTarget htarget'

/-- All that a call through the site can come to, whoever answers its requests. -/
theorem invokeSite_callee {w₀ : World} (hkind : spec.kind = .invoke)
    (hcold : w₀.sites[index]? = some { spec }) (hsuitable : Suitable w₀.registry spec calls)
    (hcalls : ReflTransGen (CalleeStep index calls) w₀ w) (hserials : SerialsApart w)
    (hargs : calls (callee :: rest)) (hgenuine : Genuine w (callee :: rest)) :
    let now := linked index (callee :: rest) w
    (∀ call, invokeSite call index (callee :: rest) w = applyValue call callee rest now) ∨
    (∀ call, invokeSite call index (callee :: rest) w = call (.apply callee rest) now) ∨
    ∃ kind message message', ∀ call,
      invokeSite call index (callee :: rest) w = .error (.error (Error.of kind message)) now ∧
        applyValue call callee rest now = .error (.error (Error.of kind message')) now := by
  intro now
  obtain ⟨hregistry, s, hsite, hremembers⟩ := remembers_callees hkind hcold hcalls
  rw [← hregistry] at hsuitable
  have hclasses : SameClasses w now := (onward_linked index _ w).sameClasses
  have hgenuine' : Genuine now (callee :: rest) := hgenuine.sameClasses hclasses
  have hserials' : SerialsApart now := by
    rw [show now = _ from linked_eq index _ w]
    exact hserials
  have hholds : ∀ g, holds now (callee :: rest) g = holds w (callee :: rest) g := by
    intro g
    rw [show now = _ from linked_eq index _ w]
    rfl
  have hfound : ∀ target, targetOf index (callee :: rest) w = .ok (spec, target) now →
      (BareCallee spec target ∨
        ∃ g, MadeForCallee w calls (g, target) ∧ holds w (callee :: rest) g = true) →
      (∀ call, invokeSite call index (callee :: rest) w = applyValue call callee rest now) ∨
      (∀ call, invokeSite call index (callee :: rest) w = call (.apply callee rest) now) := by
    intro target hresult htarget
    have htarget' : BareCallee spec target ∨
        ∃ g, MadeForCallee now calls (g, target) ∧ holds now (callee :: rest) g = true := by
      refine htarget.imp_right fun ⟨g, hmade, hg⟩ => ⟨g, hmade.sameClasses hclasses, ?_⟩
      rwa [hholds]
    rw [← hclasses.registry] at hsuitable
    have hrun := runTarget_callee hkind hsuitable hserials' hargs hgenuine' htarget'
    simpa only [invokeSite_of_target hresult] using hrun
  obtain ⟨site, -, hasked⟩ := linked_asked hsite fun _ he => holds_linkCallee hkind hgenuine he
  cases hasked with
  | found target hselect hresult => exact (hfound target hresult (hremembers.select hselect)).imp_right .inl
  | relinked target hrelink hselect hresult =>
    have hremembers' := remembers_callee hkind hargs hgenuine hremembers hrelink
    exact (hfound target hresult (hremembers'.select hselect)).imp_right .inl
  | failed e hrelink hresult =>
    have hlink : calleeTarget now callee rest.length = .error e := by
      rw [calleeTarget_sameClasses hclasses hgenuine]
      cases hrelink with
      | failed hlink =>
        rcases hlink with ⟨-, hlink⟩ | hlink
        · rw [linkStatic_callee hkind] at hlink
          cases hlink
        · rw [linkGuarded_callee hkind, linkCallee_cons] at hlink
          cases htarget : calleeTarget w callee rest.length with
          | ok target => simp [htarget, Except.map] at hlink
          | error e' => simpa [htarget, Except.map] using hlink
    obtain ⟨kind, message, message', rfl, happly⟩ := applyValue_of_error hlink
    exact .inr (.inr ⟨kind, message, message', fun call => ⟨invokeSite_of_error hresult, happly call⟩⟩)

/-- A call that is applied at once, and fails there, fails. -/
theorem yields_apply_error [Libraries] {e : Error} (h : ∀ call, applyValue call callee rest w = .error (.error e) w)
    (r : EStateM.Result Fault World Value) :
    Yields (fun call => call (.apply callee rest)) w r ↔ r = .error (.error e) w := by
  have hfails : Yields (fun _ _ => .error (.error e) w) w r ↔ r = .error (.error e) w := by
    constructor
    · rintro ⟨-, fuel, hrun⟩
      exact hrun.symm
    · rintro rfl
      exact ⟨by simp, 0, rfl⟩
  rw [← hfails]
  exact (yields_apply fun fuel => h (call fuel)).symm

/-- Remembering callees is transparent.  Whatever the thresholds, and whatever earlier calls with as many
arguments left at the site, a call through it ends as applying the first argument to the others does: the
same function or method is called on this receiver with the same arguments, or both fail with errors of the
same kind. -/
theorem calleeSite_transparent [Libraries] {w₀ : World} (hkind : spec.kind = .invoke)
    (hcold : w₀.sites[index]? = some { spec }) (hsuitable : Suitable w₀.registry spec calls)
    (hcalls : ReflTransGen (CalleeStep index calls) w₀ w) (hserials : SerialsApart w)
    (hargs : calls (callee :: rest)) (hgenuine : Genuine w (callee :: rest)) :
    let now := linked index (callee :: rest) w
    (((∀ call, invokeSite call index (callee :: rest) w = applyValue call callee rest now) ∨
        ∀ call, invokeSite call index (callee :: rest) w = call (.apply callee rest) now) ∧
      ∀ r, Yields (fun call => invokeSite call index (callee :: rest)) w r ↔
        Yields (fun call => call (.apply callee rest)) now r) ∨
    ∃ kind message message',
      (∀ call, invokeSite call index (callee :: rest) w = .error (.error (Error.of kind message)) now) ∧
      ∀ r, Yields (fun call => call (.apply callee rest)) now r ↔
        r = .error (.error (Error.of kind message')) now := by
  intro now
  rcases invokeSite_callee hkind hcold hsuitable hcalls hserials hargs hgenuine with
    hatOnce | happlies | ⟨kind, message, message', hfails⟩
  · refine .inl ⟨.inl hatOnce, fun r => ?_⟩
    rw [yields_congr hatOnce r]
    exact yields_apply fun _ => rfl
  · exact .inl ⟨.inr happlies, yields_congr happlies⟩
  · exact .inr ⟨kind, message, message', fun call => (hfails call).1,
      yields_apply_error fun call => (hfails call).2⟩

end Calls

/-! ### Objects and vectors -/

/-- The method of a type whose instances answer every call with a number. -/
def answering (cls : String) : Method where
  owner := cls
  name := Names.invoke
  params := [.any]
  ret := .any
  body := .code 0

/-- A type of the given name whose instances answer every call with a number. -/
def answerClass (name : String) : ClassInfo where
  serial := 1
  name := name
  superclass := none
  interfaces := [Names.fn]
  methods := [answering name]
  origin := .loaded
    { name := name
      superclass := Names.object
      methods :=
        [{ name := Names.invoke
           params := [.any]
           paramNames := ["x"]
           ret := .any
           isStatic := false
           isVariadic := false
           code := some
            { instructions := #[.const (.long 42), .box .long, .ret .any]
              maxStack := 2
              maxLocals := 2 } }] } 0

/-- A world with one object of such a type, and one site that calls whatever it is given. -/
def answerWorld (name : String) : World where
  registry := { classes := ⟨[(name, answerClass name)]⟩, next := 2 }
  objects := #[{ cls := answerClass name, fields := #[] }]
  sites := #[{ spec := SiteSpec.new .invoke [.any, .any] .any }]

/-- A call of the object. -/
def objectCall (name : String) : List Value := [.object { id := 0, className := name }, .int 0]

/-- A call of a vector. -/
def vectorCall : List Value := [.vector [.int 1, .int 2], .int 0]

/-- Behind a call of the object, a vector is looked up as it should be. -/
theorem vector_after_object :
    let w := linked 0 (objectCall "user.Answer") (answerWorld "user.Answer")
    Yields (fun call => invokeSite call 0 vectorCall) w (.ok (.int 1) (linked 0 vectorCall w)) := by
  intro w
  let calls : List Value → Prop := fun args => args = objectCall "user.Answer" ∨ args = vectorCall
  have hsuitable : Suitable (answerWorld "user.Answer").registry
      (SiteSpec.new .invoke [.any, .any] .any) calls := by
    refine ⟨⟨1, ?_⟩, ?_, ?_⟩
    · rintro _ (rfl | rfl) <;> rfl
    · rintro name ⟨⟩
    · rintro _ _ o v (rfl | rfl) (rfl | rfl) ⟨⟩ ⟨⟩ hplain -
      · cases hplain
      · decide
  have honly : ∀ o i, (answerWorld "user.Answer").instance? o = some i →
      i = { cls := answerClass "user.Answer", fields := #[] } := by
    intro o i hi
    exact Array.mem_singleton.mp (Array.mem_of_getElem? hi)
  have hobject : Genuine (answerWorld "user.Answer") (objectCall "user.Answer") := by
    rintro o ⟨⟩
    exact ⟨_, rfl, rfl⟩
  have hserials : SerialsApart w := by
    rw [show w = _ from linked_eq 0 _ _]
    intro o o' i i' hi hi' _
    rw [honly o i hi, honly o' i' hi']
  rcases calleeSite_transparent rfl rfl hsuitable (.single (.call _ (.inl rfl) hobject)) hserials
    (.inr rfl) (fun o ho => nomatch ho) with ⟨-, hsame⟩ | ⟨kind, _, message', -, hfails⟩
  · exact (hsame _).mpr ⟨by simp, 1, rfl⟩
  · have hyields := (hfails (.ok (.int 1) (linked 0 vectorCall w))).mp ⟨by simp, 1, rfl⟩
    cases hyields

/-- Behind a call of an object whose type has the name of the class of vectors, a vector is taken for such an
object: the method of the type is run on it, whereas applying it gives its item. -/
theorem vector_taken_for_object :
    let w := linked 0 (objectCall Names.vector) (answerWorld Names.vector)
    let now := linked 0 vectorCall w
    Yields (fun call => invokeSite call 0 vectorCall) w (.ok (.int 42) now) ∧
      Yields (fun call => call (.apply (.vector [.int 1, .int 2]) [.int 0])) now (.ok (.int 1) now) := by
  intro w now
  exact ⟨⟨by simp, 10, rfl⟩, ⟨by simp, 1, rfl⟩⟩

end LispMachine.Machine
