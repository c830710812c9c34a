import LispMachine.Proofs.Overload.Specificity

/-! # The two phases of overload resolution

When types decide on an overload, the values of those types need not choose the same one: by values an instance of a
subclass is converted where by types it is exact, and `nil` fits every class and no primitive.  These are the only
ways apart (`phases_agree`), and each of them happens (`number_phases_part`). -/

namespace LispMachine

namespace Overload

open Registry (Candidate)

variable {r : Registry}

/-! ### Types and their values -/

section Positions

variable {a b t param : Ty} {v : Value}

/-- Parameters that refine each other are passed to the same parameters. -/
theorem Refines.of_mutual (hl : r.Layered) (hab : Refines r a b) (hba : Refines r b a) {c : Ty}
    (hac : Refines r a c) : Refines r b c := by
  cases hab with
  | same => exact hac
  | unknown =>
    cases hba with
    | same => exact hac
    | unknown => exact hac
    | root hname =>
      subst hname
      cases hac with
      | same => exact .root rfl
      | unknown => exact .same _
      | above hsub => exact .root (hl.rooted.eq_object hsub)
      | @unboxed p _ hname => exact absurd hname (by cases p <;> decide)
      | unboxedLong hname => exact absurd hname (by decide)
  | root hname =>
    cases hac with
    | same => exact .unknown Ty.noConfusion
    | unknown => exact .unknown Ty.noConfusion
    | root hname' =>
      rw [hname, hname']
      exact .same _
  | above hsub =>
    cases hba with
    | same => exact hac
    | above hsup =>
      obtain rfl := hl.antisymm hsub hsup
      exact hac
  | boxed hsub =>
    cases hba with
    | unboxed hname =>
      subst hname
      cases hac with
      | same => exact .unboxed rfl
      | unknown => exact .unknown Ty.noConfusion
      | boxed hsub' => exact .above hsub'
      | long => exact .unboxedLong rfl
    | unboxedLong hname =>
      subst hname
      exact absurd hsub (by simp [Prim.wrapper, hl.apart])
  | unboxed hname =>
    subst hname
    cases hac with
    | same => exact .boxed (Registry.isSubclass_self r _)
    | unknown => exact .unknown Ty.noConfusion
    | above hsub => exact .boxed hsub
    | unboxed hwrapper =>
      rw [Prim.wrapper_injective hwrapper]
      exact .same _
    | unboxedLong hwrapper =>
      rw [Prim.wrapper_eq_long.1 hwrapper]
      exact .long
  | unboxedLong hname =>
    cases hba with
    | boxed hsub =>
      subst hname
      exact absurd hsub (by simp [Prim.wrapper, hl.apart])
  | long => cases hba

/-- An overload of the best grade that is as specific as the choice, both ways, would be chosen too. -/
theorem Best.eq_of_mutual {α : Type} {fit : Ty → α → Option Fit} {candidates : List Candidate} {args : List α}
    {grade : Nat} {c e : Candidate} (h : Best r fit candidates args grade c) (hl : r.Layered)
    (he : e ∈ byArity candidates args.length) (hfit : Within fit e.2 args grade)
    (hdown : ∀ i < args.length, Refines r (paramAt c.2 i) (paramAt e.2 i))
    (hup : ∀ i < args.length, Refines r (paramAt e.2 i) (paramAt c.2 i)) : e = c := by
  refine h.only e he hfit fun o ho hfits => atLeastAsSpecific_iff.2 fun i hi => ?_
  exact Refines.of_mutual hl (hdown i hi) (hup i hi) (atLeastAsSpecific_iff.1 (h.specific o ho hfits) i hi)

/-- Only the type of a reference rules out a parameter that a value of it fits. -/
theorem cls_of_ruled_out (hv : Conforms r v t) (hfit : runtimeFit? r param v ≠ none)
    (hnone : staticFit? r param t = none) : ∃ name, t = .cls name := by
  cases t with
  | cls name => exact ⟨name, rfl⟩
  | void => exact hv.elim
  | any =>
    exfalso
    cases param with
    | void => exact hfit rfl
    | any => cases hnone
    | prim p => cases hnone
    | cls name =>
      by_cases hname : name = Names.object <;> simp [staticFit?, hname] at hnone
  | prim p =>
    exfalso
    have hclass := hv.className?
    cases param with
    | void => exact hfit rfl
    | any => cases hnone
    | prim q =>
      by_cases heq : q = p
      · simp [staticFit?, heq] at hnone
      · refine hfit ?_
        have hwrapper : q.wrapper ≠ p.wrapper := fun h => heq (Prim.wrapper_injective h)
        have hlong : q = .double → p.wrapper ≠ Names.long := by
          rintro rfl hwide
          obtain rfl := Prim.wrapper_eq_long.1 hwide
          cases hnone
        simpa [runtimeFit?, hclass, hwrapper] using hlong
    | cls name =>
      refine hfit ?_
      have hsub : r.isSubclass p.wrapper name = false := by
        simpa [staticFit?] using hnone
      have hname : name ≠ p.wrapper := by
        rintro rfl
        rw [Registry.isSubclass_self] at hsub
        cases hsub
      simp [runtimeFit?, hclass, hname, hsub]

theorem runtimeFit?_of_conforms {name : String} (hv : Conforms r v (.cls name)) :
    runtimeFit? r (.cls name) v ≠ none := by
  rcases hv with rfl | hinstance
  · exact Option.some_ne_none _
  · unfold Registry.instanceOf at hinstance
    split at hinstance
    · rename_i cls hclass
      by_cases hname : name = cls <;> simp [runtimeFit?, hclass, hname, hinstance]
    · cases hinstance

/-- What a type is known to fit, its values fit too, unless they have to be unboxed. -/
theorem prim_of_unfit (hr : r.Rooted) (hv : Conforms r v t) (href : Refines r t param)
    (hunfit : runtimeFit? r param v = none) : ∃ p, param = .prim p ∧ staticFit? r param t = some .convertible := by
  cases href with
  | same =>
    exfalso
    cases t with
    | any => cases hunfit
    | void => exact hv.elim
    | prim p => simp [runtimeFit?, hv.className?] at hunfit
    | cls name => exact runtimeFit?_of_conforms hv hunfit
  | unknown => cases hunfit
  | root hname =>
    subst hname
    exact absurd hunfit (runtimeFit?_of_conforms (Conforms.object r v))
  | above hsub =>
    refine absurd hunfit (runtimeFit?_of_conforms (hv.assign hr ?_))
    rw [Ty.isAssignable_cls, hsub]
  | boxed hsub =>
    refine absurd hunfit (runtimeFit?_of_conforms (.inr ?_))
    simp [Registry.instanceOf, hv.className?, hsub]
  | unboxed hname => exact ⟨_, rfl, by simp [staticFit?, hname, Prim.ofWrapper?_wrapper]⟩
  | unboxedLong hname => exact ⟨_, rfl, by simp [staticFit?, hname, Ty.double]⟩
  | long =>
    have hfit : runtimeFit? r .double v = some .convertible :=
      runtimeFit?_convertible.2 (.inr (.inl ⟨rfl, hv.className?⟩))
    cases hunfit.symm.trans hfit

end Positions

/-! ### Where the phases part -/

/-- Why values choose another method than the one their types decided on. -/
inductive Parting (r : Registry) (types : List Ty) (args : List Value) (typed valued : Method) : Prop
  /-- The method that the values choose is ruled out by the type of a reference, though the value fits. -/
  | hidden {i : Nat} {name : String} {v : Value} (ht : types[i]? = some (.cls name)) (hv : args[i]? = some v)
      (hnone : staticFit? r (paramAt valued i) (.cls name) = none)
      (hfit : runtimeFit? r (paramAt valued i) v ≠ none)
  /-- The method that the types decide on takes an argument unboxed, and there is nothing to unbox. -/
  | unfit {i : Nat} {t : Ty} {v : Value} {p : Prim} (ht : types[i]? = some t) (hv : args[i]? = some v)
      (hp : paramAt typed i = .prim p) (hconverted : staticFit? r (.prim p) t = some .convertible)
      (hunfit : runtimeFit? r (.prim p) v = none)
  /-- An argument has to be boxed, unboxed or widened for the method that the values choose, and none for the other. -/
  | converted {i : Nat} {t : Ty} (ht : types[i]? = some t)
      (hexact : ∀ (j : Nat) (u : Ty), types[j]? = some u → staticFit? r (paramAt typed j) u = some .exact)
      (hconverted : staticFit? r (paramAt valued i) t = some .convertible)
  /-- The method that the values choose takes anything where the other takes the value as one of a class above. -/
  | unknown {i : Nat} {v : Value} (hv : args[i]? = some v) (hany : paramAt valued i = .any)
      (hconverted : runtimeFit? r (paramAt typed i) v = some .convertible)
  /-- The classes are no hierarchy. -/
  | tangled (h : ¬ r.Layered)

/-- When types decide on an overload and values of these types choose one, it is the same unless the phases part. -/
theorem phases_agree {candidates : List Candidate} {types : List Ty} {args : List Value} {what : String}
    {c : Candidate} {d : DynamicResolution} (hlength : args.length = types.length)
    (hconforms : ∀ (i : Nat) (v : Value) (t : Ty), args[i]? = some v → types[i]? = some t → Conforms r v t)
    (htyped : resolveStatic r candidates types = .unique c)
    (hvalued : resolveDynamic r candidates args what = .ok d) :
    d.candidate = c ∨ Parting r types args c.2 d.candidate.2 := by
  obtain ⟨byTypes, htypes, hknown⟩ := best_of_static htyped
  obtain ⟨byValues, hvalues⟩ := best_of_dynamic hvalued
  have htakes : d.candidate ∈ byArity candidates types.length := hlength ▸ hvalues.takes
  by_cases hl : r.Layered
  swap
  · exact .inr (.tangled hl)
  have hpair : ∀ {i : Nat} {v : Value}, args[i]? = some v → ∃ t, types[i]? = some t := fun hv =>
    ⟨_, List.getElem?_eq_getElem (hlength ▸ (List.getElem?_eq_some_iff.1 hv).1)⟩
  have hpair' : ∀ {i : Nat} {t : Ty}, types[i]? = some t → ∃ v, args[i]? = some v := fun ht =>
    ⟨_, List.getElem?_eq_getElem (hlength ▸ (List.getElem?_eq_some_iff.1 ht).1)⟩
  by_cases hvaluedFits : Within (staticFit? r) d.candidate.2 types 2
  swap
  · obtain ⟨i, t, ht, hnone⟩ := exists_unfit hvaluedFits
    obtain ⟨v, hv⟩ := hpair' ht
    have hfit := hvalues.fits.applicable i v hv
    obtain ⟨name, rfl⟩ := cls_of_ruled_out (hconforms i v t hv ht) hfit hnone
    exact .inr (.hidden ht hv hnone hfit)
  rcases hknown with honly | hknown
  · exact .inl (honly _ htakes hvaluedFits)
  have hvaluedFits := hknown _ htakes hvaluedFits
  have htypedFits : Within (staticFit? r) c.2 types 1 :=
    htypes.fits.mono (htypes.least _ htakes 1 hvaluedFits)
  by_cases happly : Within (runtimeFit? r) c.2 args 2
  swap
  · obtain ⟨i, v, hv, hunfit⟩ := exists_unfit happly
    obtain ⟨t, ht⟩ := hpair hv
    have href : Refines r t (paramAt c.2 i) := refines_iff.2 (htypedFits i t ht)
    obtain ⟨p, hp, hconverted⟩ := prim_of_unfit hl.rooted (hconforms i v t hv ht) href hunfit
    rw [hp] at hconverted hunfit
    exact .inr (.unfit ht hv hp hconverted hunfit)
  have happly := happly.applicable.within
  by_cases hsameType : Within (staticFit? r) d.candidate.2 types byTypes
  swap
  · -- the types prefer their choice by its grade, so all of it is exact
    obtain rfl := htypes.grade_eq_zero htakes hvaluedFits hsameType
    obtain ⟨i, t, ht, hconverted⟩ := hvaluedFits.exists_converted hsameType
    exact .inr (.converted ht htypes.fits.exact hconverted)
  have hdown : ∀ i < types.length, Refines r (paramAt c.2 i) (paramAt d.candidate.2 i) :=
    atLeastAsSpecific_iff.1 (htypes.specific _ htakes hsameType)
  by_cases hsameValue : Within (runtimeFit? r) c.2 args byValues
  · have hup : ∀ i < types.length, Refines r (paramAt d.candidate.2 i) (paramAt c.2 i) := by
      rw [← hlength]
      exact atLeastAsSpecific_iff.1 (hvalues.specific _ (hlength ▸ htypes.takes) hsameValue)
    exact .inl (htypes.eq_of_mutual hl htakes hsameType hdown hup)
  · obtain rfl := hvalues.grade_eq_zero (hlength ▸ htypes.takes) happly hsameValue
    obtain ⟨i, v, hv, hconverted⟩ := happly.exists_converted hsameValue
    have hi : i < types.length := hlength ▸ (List.getElem?_eq_some_iff.1 hv).1
    exact .inr (.unknown hv (any_of_refined hl (hvalues.fits.exact i v hv) hconverted (hdown i hi)) hconverted)

/-- The overloads of a search in texts, for a text and for a character. -/
def searches : List Candidate := Host.registry.findMethods Names.string "indexOf" false

theorem character_searches : ∃ c, resolveStatic Host.registry searches [.cls Names.character] = .unique c ∧
    c.2.params = [.char] := ⟨_, rfl, rfl⟩

theorem nil_searches : ∃ d, resolveDynamic Host.registry searches [.nil] "indexOf" = .ok d ∧
    d.candidate.2.params = [.string] := ⟨_, rfl, rfl⟩

/-- A boxed character decides on the search for a character, and `nil` is one of its values. -/
theorem nil_search_parts : ∃ c d, resolveStatic Host.registry searches [.cls Names.character] = .unique c ∧
    resolveDynamic Host.registry searches [.nil] "indexOf" = .ok d ∧
      (d.candidate = c ∨ Parting Host.registry [.cls Names.character] [.nil] c.2 d.candidate.2) := by
  obtain ⟨c, hc, -⟩ := character_searches
  obtain ⟨d, hd, -⟩ := nil_searches
  refine ⟨c, d, hc, hd, phases_agree rfl (fun i v t hv ht => ?_) hc hd⟩
  cases i with
  | zero =>
    cases hv
    cases ht
    exact .inl rfl
  | succ i => cases hv

/-- A number decides on the method of numbers, and a long, which is a number, chooses the method of anything. -/
theorem number_phases_part :
    Conforms Host.registry (.int 1) (.cls Names.number) ∧
      resolveStatic Host.registry [ofAnything, ofNumbers] [.cls Names.number] = .unique ofNumbers ∧
        ∃ d, resolveDynamic Host.registry [ofAnything, ofNumbers] [.int 1] "m" = .ok d ∧
          d.candidate ≠ ofNumbers := by
  refine ⟨.inr (by decide +kernel), rfl, _, long_calls_ofAnything, fun heq => ?_⟩
  have hparams := congrArg (fun c => c.2.params) heq
  exact absurd hparams (by decide)

end Overload

end LispMachine
