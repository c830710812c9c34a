import LispMachine.Proofs.Overload.Fitting

/-! # The most specific overload

When values choose an overload, an argument of a subclass of the parameter counts as converted and an argument for a
parameter of unknown type as exact.  So the choice can pass over an overload that is strictly more specific, but only
one with a class where the chosen one takes anything (`dynamic_most_specific`), as it does with a method of anything
and one of numbers (`number_passed_over`).

The overloads of a call come in the order in which a walk over the hierarchy finds them, and a choice made once is
used again for arguments of the same classes.  Neither shows in the choice: the grades depend on the classes alone,
and of the best ones a single overload stands out in any order, with the same contended parameters
(`resolution_by_classes`). -/

namespace LispMachine

namespace Prim

theorem ofWrapper?_wrapper (p : Prim) : ofWrapper? p.wrapper = some p := by
  cases p <;> rfl

theorem ofWrapper?_eq {name : String} {p : Prim} (h : ofWrapper? name = some p) : name = p.wrapper := by
  unfold ofWrapper? at h
  split at h
  · cases h
    assumption
  split at h
  · cases h
    assumption
  split at h
  · cases h
    assumption
  split at h
  · cases h
    assumption
  · cases h

theorem wrapper_injective : Function.Injective wrapper := by
  intro p q h
  exact Option.some.inj ((ofWrapper?_wrapper p).symm.trans ((congrArg ofWrapper? h).trans (ofWrapper?_wrapper q)))

theorem wrapper_eq_long {p : Prim} : p.wrapper = Names.long ↔ p = .long := by
  cases p <;> decide

end Prim

namespace Overload

open Registry (Candidate)

variable {r : Registry}

/-! ### Parameters that take each other's arguments -/

/-- What has the first type can be passed where the second is expected, converted or not. -/
inductive Refines (r : Registry) : Ty → Ty → Prop
  | same (a : Ty) : Refines r a a
  | unknown {a : Ty} (h : a ≠ .void) : Refines r a .any
  | root {name : String} (h : name = Names.object) : Refines r .any (.cls name)
  | above {sub sup : String} (h : r.isSubclass sub sup = true) : Refines r (.cls sub) (.cls sup)
  | boxed {p : Prim} {name : String} (h : r.isSubclass p.wrapper name = true) : Refines r (.prim p) (.cls name)
  | unboxed {p : Prim} {name : String} (h : name = p.wrapper) : Refines r (.cls name) (.prim p)
  | unboxedLong {name : String} (h : name = Names.long) : Refines r (.cls name) .double
  | long : Refines r .long .double

theorem refines_iff {a b : Ty} : Refines r a b ↔ ∃ f, staticFit? r b a = some f ∧ f.rank ≤ 1 := by
  constructor
  · intro h
    by_cases heq : b = a
    · exact ⟨.exact, by simp [staticFit?, heq], Nat.zero_le 1⟩
    cases h with
    | same => exact absurd rfl heq
    | unknown hvoid =>
      refine ⟨.exact, ?_, Nat.zero_le 1⟩
      cases a <;> simp_all [staticFit?]
    | root h => exact ⟨.exact, by simp [staticFit?, h], Nat.zero_le 1⟩
    | above h => exact ⟨.exact, by simp [staticFit?, h], Nat.zero_le 1⟩
    | boxed h => exact ⟨.convertible, by simp [staticFit?, h], Nat.le_refl 1⟩
    | unboxed h => exact ⟨.convertible, by simp [staticFit?, h, Prim.ofWrapper?_wrapper], Nat.le_refl 1⟩
    | unboxedLong h => exact ⟨.convertible, by simp [staticFit?, h, Ty.double], Nat.le_refl 1⟩
    | long => exact ⟨.convertible, by simp [staticFit?, Ty.double, Ty.long], Nat.le_refl 1⟩
  · rintro ⟨f, hf, hrank⟩
    have hknown : f ≠ .unknown := by
      rintro rfl
      exact absurd hrank (by decide)
    unfold staticFit? at hf
    split at hf
    · subst b
      exact .same a
    split at hf
    · cases hf
    · exact .unknown ‹_›
    · split at hf
      · exact .root ‹_›
      · exact absurd (Option.some.inj hf).symm hknown
    · exact absurd (Option.some.inj hf).symm hknown
    · split at hf
      · rename_i hassign
        rw [Ty.isAssignable_cls] at hassign
        exact .above hassign
      · split at hf
        · exact absurd (Option.some.inj hf).symm hknown
        · cases hf
    · split at hf
      · rename_i hassign
        rw [Ty.isAssignable_cls] at hassign
        exact .boxed hassign
      · cases hf
    · split at hf
      · rename_i hwrapper
        exact .unboxed (Prim.ofWrapper?_eq hwrapper)
      split at hf
      · rename_i hlong
        rw [hlong.1]
        exact .unboxedLong hlong.2
      split at hf
      · exact absurd (Option.some.inj hf).symm hknown
      · cases hf
    · exact .long
    · cases hf

theorem atLeastAsSpecific_iff {n : Nat} {a b : Method} :
    atLeastAsSpecific r n a b = true ↔ ∀ i < n, Refines r (paramAt a i) (paramAt b i) := by
  simp only [atLeastAsSpecific, List.all_eq_true, List.mem_range, Bool.or_eq_true, beq_iff_eq]
  refine forall_congr' fun i => imp_congr_right fun _ => ?_
  constructor
  · rintro (heq | hfit)
    · rw [heq]
      exact .same _
    · split at hfit
      · exact refines_iff.2 ⟨.exact, ‹_›, Nat.zero_le 1⟩
      · exact refines_iff.2 ⟨.convertible, ‹_›, Nat.le_refl 1⟩
      · cases hfit
  · intro h
    obtain ⟨f, hf, hrank⟩ := refines_iff.1 h
    right
    cases f with
    | exact => simp [hf]
    | convertible => simp [hf]
    | unknown => exact absurd hrank (by decide)

/-! ### Values at a parameter -/

theorem runtimeFit?_exact {param : Ty} {v : Value} :
    runtimeFit? r param v = some .exact ↔
      param = .any ∨ (∃ p, param = .prim p ∧ v.className? = some p.wrapper) ∨
        ∃ name, param = .cls name ∧ v.className? = some name := by
  cases param with
  | any => simp [runtimeFit?]
  | void => simp [runtimeFit?]
  | prim p =>
    cases hclass : v.className? with
    | none => simp [runtimeFit?, hclass]
    | some cls =>
      by_cases heq : p.wrapper = cls
      · simp [runtimeFit?, hclass, heq]
      · simp [runtimeFit?, hclass, heq, Ne.symm heq]
  | cls name =>
    cases hclass : v.className? with
    | none => simp [runtimeFit?, hclass]
    | some cls =>
      by_cases heq : name = cls
      · simp [runtimeFit?, hclass, heq]
      · simp [runtimeFit?, hclass, heq, Ne.symm heq]

theorem runtimeFit?_convertible {param : Ty} {v : Value} :
    runtimeFit? r param v = some .convertible ↔
      (∃ name, param = .cls name ∧ v.className? = none) ∨ (param = .double ∧ v.className? = some Names.long) ∨
        ∃ name cls, param = .cls name ∧ v.className? = some cls ∧ name ≠ cls ∧ r.isSubclass cls name = true := by
  cases param with
  | any => simp [runtimeFit?, Ty.double]
  | void => simp [runtimeFit?, Ty.double]
  | prim p =>
    cases hclass : v.className? with
    | none => simp [runtimeFit?, hclass]
    | some cls =>
      by_cases heq : p.wrapper = cls
      · have hlong : p = .double → cls ≠ Names.long := by
          rintro rfl
          rw [← heq]
          decide
        simpa [runtimeFit?, hclass, heq, Ty.double] using hlong
      · simp [runtimeFit?, hclass, heq, Ty.double]
  | cls name =>
    cases hclass : v.className? with
    | none => simp [runtimeFit?, hclass]
    | some cls => by_cases heq : name = cls <;> simp [runtimeFit?, hclass, heq, Ty.double]

theorem runtimeFit?_known {param : Ty} {v : Value} {f : Fit} (h : runtimeFit? r param v = some f) : f.rank ≤ 1 := by
  cases f with
  | exact => exact Nat.zero_le 1
  | convertible => exact Nat.le_refl 1
  | unknown =>
    unfold runtimeFit? at h
    split at h <;> (try split at h) <;> (try split at h) <;> cases h

/-- Where a value fits one parameter exactly and is converted for one that refines it, the first takes anything. -/
theorem any_of_refined (hl : r.Layered) {a b : Ty} {v : Value} (hexact : runtimeFit? r a v = some .exact)
    (hconverted : runtimeFit? r b v = some .convertible) (href : Refines r b a) : a = .any := by
  rcases runtimeFit?_exact.1 hexact with rfl | ⟨p, rfl, hclass⟩ | ⟨name, rfl, hclass⟩
  · rfl
  · exfalso
    rcases runtimeFit?_convertible.1 hconverted with ⟨_, -, hnil⟩ | ⟨rfl, hlong⟩ | ⟨name, cls, rfl, hcls, hne, hsub⟩
    · cases hclass.symm.trans hnil
    · -- a long is unboxed exactly as a long only, which does not take doubles
      obtain rfl : p = .long := Prim.wrapper_eq_long.1 (Option.some.inj (hclass.symm.trans hlong))
      cases href
    · obtain rfl := Option.some.inj (hclass.symm.trans hcls)
      cases href with
      | unboxed h => exact hne h
      | unboxedLong h => exact absurd hsub (by simp [h, Prim.wrapper, hl.apart])
  · exfalso
    rcases runtimeFit?_convertible.1 hconverted with ⟨_, -, hnil⟩ | ⟨rfl, hlong⟩ | ⟨sup, cls, rfl, hcls, hne, hsub⟩
    · cases hclass.symm.trans hnil
    · obtain rfl := Option.some.inj (hclass.symm.trans hlong)
      cases href with
      | boxed hbelow => exact absurd hbelow (by simp [Prim.wrapper, hl.apart])
    · obtain rfl := Option.some.inj (hclass.symm.trans hcls)
      cases href with
      | same => exact hne rfl
      | above hbelow => exact hne (hl.antisymm hbelow hsub)

/-! ### The choice -/

/-- All arguments fit the method. -/
def Applicable (r : Registry) (m : Method) (args : List Value) : Prop :=
  ∀ (i : Nat) (v : Value), args[i]? = some v → runtimeFit? r (paramAt m i) v ≠ none

/-- Every argument is exact for the chosen method, and at some position it takes anything where the other method asks
for the class that the argument is below. -/
structure PassedOver (r : Registry) (args : List Value) (chosen other : Method) : Prop where
  exact : ∀ (i : Nat) (v : Value), args[i]? = some v → runtimeFit? r (paramAt chosen i) v = some .exact
  unknown : ∃ (i : Nat) (v : Value), args[i]? = some v ∧ paramAt chosen i = .any ∧
    runtimeFit? r (paramAt other i) v = some .convertible

section Choice

variable {candidates : List Candidate} {args : List Value} {what : String} {d : DynamicResolution} {m : Method}

theorem Applicable.within (h : Applicable r m args) : Within (runtimeFit? r) m args 1 := by
  intro i v hv
  obtain ⟨f, hf⟩ := Option.ne_none_iff_exists'.1 (h i v hv)
  exact ⟨f, hf, runtimeFit?_known hf⟩

theorem Within.applicable {grade : Nat} (h : Within (runtimeFit? r) m args grade) : Applicable r m args := by
  intro i v hv hnone
  obtain ⟨f, hf, -⟩ := h i v hv
  cases hnone.symm.trans hf

/-- The overload that values choose fits them, and one of that many arguments that also fits is strictly more
specific only if the choice passed over it for a parameter of unknown type. -/
theorem dynamic_most_specific (h : resolveDynamic r candidates args what = .ok d) :
    d.candidate ∈ byArity candidates args.length ∧ Applicable r d.candidate.2 args ∧
      ∀ e ∈ byArity candidates args.length, Applicable r e.2 args →
        compareSpecificity r args.length e.2 d.candidate.2 = -1 →
          PassedOver r args d.candidate.2 e.2 ∨ ¬ r.Layered := by
  obtain ⟨grade, hbest⟩ := best_of_dynamic h
  refine ⟨hbest.takes, hbest.fits.applicable, fun e he happly hless => ?_⟩
  rw [or_iff_not_imp_right, not_not]
  intro hl
  have hbelow : atLeastAsSpecific r args.length e.2 d.candidate.2 = true ∧
      atLeastAsSpecific r args.length d.candidate.2 e.2 = false := by
    unfold compareSpecificity at hless
    split at hless
    · exact ⟨‹_›, ‹_›⟩
    · cases hless
    · cases hless
  have hworse : ¬ Within (runtimeFit? r) e.2 args grade := fun hfit => by
    rw [hbest.specific e he hfit] at hbelow
    cases hbelow.2
  obtain rfl := hbest.grade_eq_zero he happly.within hworse
  obtain ⟨i, v, hv, hconverted⟩ := happly.within.exists_converted hworse
  have href : Refines r (paramAt e.2 i) (paramAt d.candidate.2 i) :=
    atLeastAsSpecific_iff.1 hbelow.1 i (List.getElem?_eq_some_iff.1 hv).1
  exact ⟨hbest.fits.exact, i, v, hv, any_of_refined hl (hbest.fits.exact i v hv) hconverted href, hconverted⟩

end Choice

/-! ### A method of anything and a method of numbers -/

/-- A class with two static methods of one name. -/
def overloadedClass : ClassInfo :=
  Host.named "t.T" |> Host.static "m" [.any] .any .bareText |> Host.static "m" [.cls Names.number] .any .bareText

/-- Its method of anything. -/
def ofAnything : Candidate :=
  (overloadedClass,
    { owner := "t.T", name := "m", params := [.any], ret := .any, isStatic := true, body := .host .bareText })

/-- Its method of numbers. -/
def ofNumbers : Candidate := (overloadedClass, { ofAnything.2 with params := [.cls Names.number] })

theorem long_calls_ofAnything :
    resolveDynamic Host.registry [ofAnything, ofNumbers] [.int 1] "m" = .ok ⟨ofAnything, [true]⟩ := by
  rfl

/-- What the choice of the method of anything says about the method of numbers. -/
theorem long_choice_most_specific :
    ofAnything ∈ byArity [ofAnything, ofNumbers] 1 ∧ Applicable Host.registry ofAnything.2 [.int 1] ∧
      ∀ e ∈ byArity [ofAnything, ofNumbers] 1, Applicable Host.registry e.2 [.int 1] →
        compareSpecificity Host.registry 1 e.2 ofAnything.2 = -1 →
          PassedOver Host.registry [.int 1] ofAnything.2 e.2 := by
  obtain ⟨htakes, happly, hspecific⟩ := dynamic_most_specific long_calls_ofAnything
  exact ⟨htakes, happly, fun e he hfit hless =>
    (hspecific e he hfit hless).resolve_right (not_not.2 Host.registry_layered)⟩

/-- A long is a number, and still it calls the method of anything. -/
theorem number_passed_over :
    ∃ d, resolveDynamic Host.registry [ofAnything, ofNumbers] [.int 1] "m" = .ok d ∧
      ofNumbers ∈ byArity [ofAnything, ofNumbers] 1 ∧ Applicable Host.registry ofNumbers.2 [.int 1] ∧
        compareSpecificity Host.registry 1 ofNumbers.2 d.candidate.2 = -1 := by
  refine ⟨_, long_calls_ofAnything, by simp [byArity, ofAnything, ofNumbers, Method.accepts], fun i v hv => ?_, ?_⟩
  · cases i with
    | zero =>
      cases hv
      decide +kernel
    | succ i => cases hv
  · decide +kernel

/-! ### Overloads in another order -/

section Reordering

variable {α : Type} {r : Registry} {cs ds : List Candidate}

theorem min?_perm {xs ys : List Nat} (h : xs.Perm ys) : xs.min? = ys.min? := by
  ext least
  simp only [List.min?_eq_some_iff, h.mem_iff]

theorem byArity_perm (h : cs.Perm ds) (n : Nat) : (byArity cs n).Perm (byArity ds n) := h.filter _

theorem fitting_perm (fit : Ty → α → Option Fit) (h : cs.Perm ds) (args : List α) :
    (fitting fit cs args).Perm (fitting fit ds args) :=
  (byArity_perm h args.length).filterMap _

/-- What stands out among overloads stands out in any order. -/
theorem pickMostSpecific_perm {fits fits' : List (Candidate × Fit)} (h : fits.Perm fits') {n : Nat} {c : Candidate}
    (hpick : pickMostSpecific r n fits = .ok c) : pickMostSpecific r n fits' = .ok c := by
  unfold pickMostSpecific at hpick ⊢
  rw [min?_perm (h.map _)] at hpick
  cases hmin : (fits'.map fun f => f.2.rank).min? with
  | none =>
    rw [hmin] at hpick
    cases hpick
  | some least =>
    rw [hmin] at hpick
    dsimp only at hpick ⊢
    have hbest := (h.filter fun f => f.2.rank == least).map Prod.fst
    split at hpick
    · rename_i only hwinner
      cases hpick
      have hall : ∀ e : Candidate,
          ((fits.filter fun f => f.2.rank == least).map Prod.fst).all
              (fun d => atLeastAsSpecific r n e.2 d.2) =
            ((fits'.filter fun f => f.2.rank == least).map Prod.fst).all
              fun d => atLeastAsSpecific r n e.2 d.2 :=
        fun e => hbest.all_eq
      have hwinners := hbest.filter fun e =>
        ((fits.filter fun f => f.2.rank == least).map Prod.fst).all fun d => atLeastAsSpecific r n e.2 d.2
      rw [hwinner, List.singleton_perm] at hwinners
      simp only [hall] at hwinners
      rw [← hwinners]
    · cases hpick

/-! ### Contended parameters -/

/-- Two of the overloads disagree on the type of the parameter. -/
def Disagree (cs : List Candidate) (i : Nat) : Prop :=
  ∃ c ∈ cs, ∃ d ∈ cs, paramAt c.2 i ≠ paramAt d.2 i

theorem Disagree.perm {i : Nat} (h : cs.Perm ds) : Disagree cs i ↔ Disagree ds i := by
  simp only [Disagree, h.mem_iff]

/-- Where any two disagree, one of them disagrees with the first. -/
theorem disagree_cons {c : Candidate} {i : Nat} :
    Disagree (c :: cs) i ↔ ∃ d ∈ cs, paramAt d.2 i ≠ paramAt c.2 i := by
  constructor
  · rintro ⟨d, hd, e, he, hne⟩
    by_cases hsame : paramAt d.2 i = paramAt c.2 i
    · rw [hsame] at hne
      rcases List.mem_cons.1 he with rfl | he
      · exact absurd rfl hne
      · exact ⟨e, he, hne.symm⟩
    · rcases List.mem_cons.1 hd with rfl | hd
      · exact absurd rfl hsame
      · exact ⟨d, hd, hsame⟩
  · rintro ⟨d, hd, hne⟩
    exact ⟨d, List.mem_cons_of_mem c hd, c, List.mem_cons_self, hne⟩

open Classical in
theorem contended_eq (cs : List Candidate) (n : Nat) :
    contended cs n = (List.range n).map fun i => decide (Disagree cs i) := by
  unfold contended
  refine List.map_congr_left fun i _ => ?_
  cases cs with
  | nil => simp [Disagree]
  | cons c cs =>
    rw [Bool.eq_iff_iff]
    simp [disagree_cons]

theorem contended_perm (h : cs.Perm ds) (n : Nat) : contended cs n = contended ds n := by
  rw [contended_eq, contended_eq]
  refine List.map_congr_left fun i _ => ?_
  rw [decide_eq_decide]
  exact Disagree.perm h

/-! ### Choices -/

/-- What it takes to choose an overload for values. -/
theorem resolveDynamic_eq_ok_iff {args : List Value} {what : String} {d : DynamicResolution} :
    resolveDynamic r cs args what = .ok d ↔
      pickMostSpecific r args.length (fitting (runtimeFit? r) cs args) = .ok d.candidate ∧
        d.contended = contended (byArity cs args.length) args.length := by
  obtain ⟨candidate, flags⟩ := d
  unfold resolveDynamic
  split
  · rename_i hnone
    simp [hnone, pickMostSpecific]
  · split
    · rename_i hpick
      simp [hpick, eq_comm]
    · rename_i hpick
      simp [hpick]

/-- The same choice is made from the overloads in another order, for arguments of the same classes. -/
theorem resolveDynamic_reordered {xs ys : List Value} {what : String} {d : DynamicResolution} (hperm : cs.Perm ds)
    (hclasses : xs.map Value.className? = ys.map Value.className?) (what' : String)
    (h : resolveDynamic r cs xs what = .ok d) : resolveDynamic r ds ys what' = .ok d := by
  have hlength : xs.length = ys.length := by simpa using congrArg List.length hclasses
  have hfits : fitting (runtimeFit? r) cs xs = fitting (runtimeFit? r) cs ys := by
    refine fitting_congr hlength fun c _ => fitAll?_congr hlength 0 fun j x y hx hy => runtimeFit?_congr ?_ _
    simpa [hx, hy] using congrArg (·[j]?) hclasses
  rw [resolveDynamic_eq_ok_iff] at h ⊢
  rw [hlength, hfits] at h
  exact ⟨pickMostSpecific_perm (fitting_perm _ hperm ys) h.1, h.2.trans (contended_perm (byArity_perm hperm _) _)⟩

/-- Which overload is chosen, if one is, depends neither on their order nor on more of the arguments than their
classes, and so does which parameters are contended. -/
theorem resolution_by_classes {xs ys : List Value} (hperm : cs.Perm ds)
    (hclasses : xs.map Value.className? = ys.map Value.className?) (what what' : String) :
    (∃ d, resolveDynamic r cs xs what = .ok d ∧ resolveDynamic r ds ys what' = .ok d) ∨
      (∃ e, resolveDynamic r cs xs what = .error e) ∧ ∃ e, resolveDynamic r ds ys what' = .error e := by
  cases hxs : resolveDynamic r cs xs what with
  | ok d => exact .inl ⟨d, rfl, resolveDynamic_reordered hperm hclasses what' hxs⟩
  | error e =>
    refine .inr ⟨⟨e, rfl⟩, ?_⟩
    cases hys : resolveDynamic r ds ys what' with
    | error e' => exact ⟨e', rfl⟩
    | ok d =>
      have hback := resolveDynamic_reordered hperm.symm hclasses.symm what hys
      cases hxs.symm.trans hback

/-- A long calls the method of anything, whichever long it is and whichever of the methods is found first. -/
theorem longs_call_ofAnything :
    [ofAnything, ofNumbers].Perm [ofNumbers, ofAnything] ∧
      [Value.int 1].map Value.className? = [Value.int 2].map Value.className? ∧
        resolveDynamic Host.registry [ofNumbers, ofAnything] [.int 2] "n" = .ok ⟨ofAnything, [true]⟩ := by
  have hperm : [ofAnything, ofNumbers].Perm [ofNumbers, ofAnything] := .swap _ _ _
  have hclasses : [Value.int 1].map Value.className? = [Value.int 2].map Value.className? := rfl
  refine ⟨hperm, hclasses, ?_⟩
  rcases resolution_by_classes (r := Host.registry) hperm hclasses "m" "n" with ⟨d, hfirst, hsecond⟩ | ⟨⟨e, hfirst⟩, -⟩
  · cases long_calls_ofAnything.symm.trans hfirst
    exact hsecond
  · cases long_calls_ofAnything.symm.trans hfirst

end Reordering

end Overload

end LispMachine
