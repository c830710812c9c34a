import Mathlib.Data.List.Basic
import Mathlib.Tactic.ByContra
import LispMachine.Proofs.Registry.Subclassing
import LispMachine.Overload

/-! # How overloads fit

Both phases of overload resolution grade the overloads by their worst argument and choose, among the best, the one
that is at least as specific as every other.  Here is what such a choice says about all arguments at once
(`Best`, `best_of_dynamic`, `best_of_static`), and when two calls mean the same overload. -/

namespace LispMachine

namespace Overload

open Registry (Candidate)

variable {α β : Type} {r : Registry}

/-! ### Alike calls -/

/-- How well a value fits depends on its class alone. -/
theorem runtimeFit?_congr {x y : Value} (h : x.className? = y.className?) (param : Ty) :
    runtimeFit? r param x = runtimeFit? r param y := by
  unfold runtimeFit?
  rw [h]

theorem fitAll?_congr {fit : Ty → α → Option Fit} {fit' : Ty → β → Option Fit} {m : Method}
    {xs : List α} {ys : List β} (hlength : xs.length = ys.length) (i : Nat)
    (h : ∀ (j : Nat) x y, xs[j]? = some x → ys[j]? = some y →
      fit (paramAt m (i + j)) x = fit' (paramAt m (i + j)) y) :
    fitAll? fit m i xs = fitAll? fit' m i ys := by
  induction xs generalizing ys i with
  | nil =>
    cases ys with
    | nil => rfl
    | cons y ys => cases hlength
  | cons x xs ih =>
    cases ys with
    | nil => cases hlength
    | cons y ys =>
      have hhead : fit (paramAt m i) x = fit' (paramAt m i) y := h 0 x y rfl rfl
      have htail : fitAll? fit m (i + 1) xs = fitAll? fit' m (i + 1) ys := by
        refine ih (by simpa using hlength) (i + 1) fun j x' y' hx hy => ?_
        have := h (j + 1) x' y' (by simpa using hx) (by simpa using hy)
        rwa [show i + (j + 1) = i + 1 + j by omega] at this
      rw [fitAll?, fitAll?, hhead, htail]

theorem fitting_congr {fit : Ty → α → Option Fit} {fit' : Ty → β → Option Fit}
    {candidates : List Candidate} {xs : List α} {ys : List β} (hlength : xs.length = ys.length)
    (h : ∀ c ∈ byArity candidates xs.length, fitAll? fit c.2 0 xs = fitAll? fit' c.2 0 ys) :
    fitting fit candidates xs = fitting fit' candidates ys := by
  unfold fitting
  rw [← hlength]
  refine List.filterMap_congr fun c hc => ?_
  rw [h c hc]

/-- Arguments that the same overloads fit, and equally well, choose the same overload. -/
theorem resolveDynamic_congr {candidates : List Candidate} {xs ys : List Value} {what : String}
    {d : DynamicResolution} (hlength : xs.length = ys.length)
    (h : fitting (runtimeFit? r) candidates xs = fitting (runtimeFit? r) candidates ys)
    (hxs : resolveDynamic r candidates xs what = .ok d) : resolveDynamic r candidates ys what = .ok d := by
  unfold resolveDynamic at hxs ⊢
  rw [h, hlength] at hxs
  cases hfits : fitting (runtimeFit? r) candidates ys with
  | nil =>
    rw [hfits] at hxs
    cases hxs
  | cons f fits =>
    rw [hfits] at hxs
    dsimp only at hxs ⊢
    split at hxs
    · exact hxs
    · cases hxs

/-- The arguments at positions on which the overloads agree fit equally well in both calls. -/
def FitAlike (r : Registry) (candidates : List Candidate) (xs ys : List Value) : Prop :=
  ∀ (i : Nat) (x y : Value), (contended (byArity candidates xs.length) xs.length)[i]? = some false →
    xs[i]? = some x → ys[i]? = some y →
      ∀ c ∈ byArity candidates xs.length, runtimeFit? r (paramAt c.2 i) x = runtimeFit? r (paramAt c.2 i) y

theorem length_contended (candidates : List Candidate) (n : Nat) : (contended candidates n).length = n := by
  simp [contended]

/-- With the same classes at the contended positions and equal fits at the others, two calls mean the same
overload. -/
theorem resolveDynamic_alike {candidates : List Candidate} {xs ys : List Value} {what : String}
    {d : DynamicResolution} (hlength : xs.length = ys.length) (halike : FitAlike r candidates xs ys)
    (hguard : ∀ (i : Nat) (x y : Value), d.contended[i]? = some true → xs[i]? = some x → ys[i]? = some y →
      x.className? = y.className?)
    (hxs : resolveDynamic r candidates xs what = .ok d) :
    resolveDynamic r candidates ys what = .ok d := by
  have hcontended : d.contended = contended (byArity candidates xs.length) xs.length := by
    unfold resolveDynamic at hxs
    split at hxs
    · cases hxs
    · split at hxs
      · cases hxs
        rfl
      · cases hxs
  refine resolveDynamic_congr hlength (fitting_congr hlength fun c hc => ?_) hxs
  refine fitAll?_congr hlength 0 fun i x y hx hy => ?_
  rw [Nat.zero_add]
  have hlt : i < (contended (byArity candidates xs.length) xs.length).length := by
    rw [length_contended]
    exact (List.getElem?_eq_some_iff.mp hx).1
  cases hflag : (contended (byArity candidates xs.length) xs.length)[i] with
  | true => exact runtimeFit?_congr (hguard i x y (by rw [hcontended, List.getElem?_eq_getElem hlt, hflag]) hx hy) _
  | false => exact halike i x y (by rw [List.getElem?_eq_getElem hlt, hflag]) hx hy c hc

/-! ### Single candidates -/

theorem atLeastAsSpecific_self (n : Nat) (m : Method) : atLeastAsSpecific r n m m = true := by
  simp [atLeastAsSpecific]

theorem pickMostSpecific_single (n : Nat) (f : Candidate × Fit) :
    pickMostSpecific r n [f] = .ok f.1 := by
  simp [pickMostSpecific, atLeastAsSpecific_self]

/-! ### Grades -/

namespace Fit

theorem rank_injective : Function.Injective rank := by
  intro a b h
  cases a <;> cases b <;> simp_all [rank]

theorem rank_le_two (a : Fit) : a.rank ≤ 2 := by
  cases a <;> simp [rank]

theorem rank_worse (a b : Fit) : (worse a b).rank = max a.rank b.rank := by
  unfold worse
  split <;> omega

theorem rank_worst_le {fits : List Fit} {n : Nat} : (worst fits).rank ≤ n ↔ ∀ f ∈ fits, f.rank ≤ n := by
  have hfold : ∀ (fits : List Fit) (seed : Fit),
      (fits.foldl worse seed).rank ≤ n ↔ seed.rank ≤ n ∧ ∀ f ∈ fits, f.rank ≤ n := by
    intro fits
    induction fits with
    | nil => simp
    | cons f fits ih =>
      intro seed
      rw [List.foldl_cons, ih, rank_worse, Nat.max_le, List.forall_mem_cons, and_assoc]
  exact (hfold fits .exact).trans (and_iff_right (Nat.zero_le n))

end Fit

/-- All arguments fit the method, and none worse than the grade. -/
def Within (fit : Ty → α → Option Fit) (m : Method) (args : List α) (grade : Nat) : Prop :=
  ∀ (i : Nat) (a : α), args[i]? = some a → ∃ f, fit (paramAt m i) a = some f ∧ f.rank ≤ grade

section Grades

variable {fit : Ty → α → Option Fit} {m : Method} {candidates : List Candidate} {args : List α} {c : Candidate}
  {grade : Nat}

theorem Within.mono {grade' : Nat} (h : Within fit m args grade) (hle : grade ≤ grade') :
    Within fit m args grade' := by
  intro i a ha
  obtain ⟨f, hf, hrank⟩ := h i a ha
  exact ⟨f, hf, Nat.le_trans hrank hle⟩

theorem Within.exact (h : Within fit m args 0) (i : Nat) (a : α) (ha : args[i]? = some a) :
    fit (paramAt m i) a = some .exact := by
  obtain ⟨f, hf, hrank⟩ := h i a ha
  obtain rfl : f = .exact := Fit.rank_injective (Nat.le_zero.1 hrank)
  exact hf

/-- Where nothing is unknown to fit and not all is exact, something is converted. -/
theorem Within.exists_converted (h : Within fit m args 1) (hnot : ¬ Within fit m args 0) :
    ∃ (i : Nat) (a : α), args[i]? = some a ∧ fit (paramAt m i) a = some .convertible := by
  by_contra hnone
  refine hnot fun i a ha => ?_
  obtain ⟨f, hf, hrank⟩ := h i a ha
  cases f with
  | exact => exact ⟨.exact, hf, Nat.le_refl 0⟩
  | convertible => exact absurd ⟨i, a, ha, hf⟩ hnone
  | unknown => exact absurd hrank (by decide)

/-- What does not fit, even at the worst grade, fails at a position. -/
theorem exists_unfit (hnot : ¬ Within fit m args 2) :
    ∃ (i : Nat) (a : α), args[i]? = some a ∧ fit (paramAt m i) a = none := by
  by_contra hnone
  refine hnot fun i a ha => ?_
  obtain ⟨f, hf⟩ := Option.ne_none_iff_exists'.1 fun hunfit => hnone ⟨i, a, ha, hunfit⟩
  exact ⟨f, hf, f.rank_le_two⟩

theorem fitAll?_within (i : Nat) :
    (∃ fits, fitAll? fit m i args = some fits ∧ (Fit.worst fits).rank ≤ grade) ↔
      ∀ (j : Nat) (a : α), args[j]? = some a → ∃ f, fit (paramAt m (i + j)) a = some f ∧ f.rank ≤ grade := by
  induction args generalizing i with
  | nil => simp [fitAll?, Fit.rank_worst_le]
  | cons a rest ih =>
    specialize ih (i + 1)
    simp only [Fit.rank_worst_le] at ih ⊢
    constructor
    · rintro ⟨fits, hfits, hrank⟩
      obtain ⟨f, hf, hfits⟩ := Option.bind_eq_some_iff.1 hfits
      obtain ⟨fs, hfs, hfits⟩ := Option.bind_eq_some_iff.1 hfits
      cases hfits
      rw [List.forall_mem_cons] at hrank
      intro j b hb
      cases j with
      | zero =>
        cases hb
        exact ⟨f, hf, hrank.1⟩
      | succ j =>
        rw [← Nat.succ_add_eq_add_succ]
        exact ih.1 ⟨fs, hfs, hrank.2⟩ j b hb
    · intro h
      obtain ⟨f, hf, hrank⟩ := h 0 a rfl
      obtain ⟨fs, hfs, hranks⟩ := ih.2 fun j b hb => by
        rw [Nat.succ_add_eq_add_succ]
        exact h (j + 1) b hb
      refine ⟨f :: fs, ?_, List.forall_mem_cons.2 ⟨hrank, hranks⟩⟩
      rw [fitAll?, show fit (paramAt m i) a = some f from hf, hfs]
      rfl

theorem within_iff : Within fit m args grade ↔
    ∃ fits, fitAll? fit m 0 args = some fits ∧ (Fit.worst fits).rank ≤ grade := by
  rw [fitAll?_within]
  simp only [Nat.zero_add]
  rfl

/-- The overloads that fit, with a bound on their grades. -/
theorem mem_fitting :
    (∃ f, (c, f) ∈ fitting fit candidates args ∧ f.rank ≤ grade) ↔
      c ∈ byArity candidates args.length ∧ Within fit c.2 args grade := by
  rw [within_iff]
  simp only [fitting, List.mem_filterMap, Option.map_eq_some_iff, Prod.mk.injEq]
  constructor
  · rintro ⟨f, ⟨d, hd, fits, hfits, rfl, rfl⟩, hrank⟩
    exact ⟨hd, fits, hfits, hrank⟩
  · rintro ⟨hc, fits, hfits, hrank⟩
    exact ⟨_, ⟨c, hc, fits, hfits, rfl, rfl⟩, hrank⟩

/-- What a phase chooses: an overload of the best grade that is at least as specific as all of that grade, and the
only such one. -/
structure Best (r : Registry) (fit : Ty → α → Option Fit) (candidates : List Candidate) (args : List α)
    (grade : Nat) (c : Candidate) : Prop where
  takes : c ∈ byArity candidates args.length
  fits : Within fit c.2 args grade
  least : ∀ e ∈ byArity candidates args.length, ∀ n, Within fit e.2 args n → grade ≤ n
  specific : ∀ e ∈ byArity candidates args.length, Within fit e.2 args grade →
    atLeastAsSpecific r args.length c.2 e.2 = true
  only : ∀ e ∈ byArity candidates args.length, Within fit e.2 args grade →
    (∀ d ∈ byArity candidates args.length, Within fit d.2 args grade →
      atLeastAsSpecific r args.length e.2 d.2 = true) → e = c

/-- Only exact choices are preferred by their grade, as far as nothing is unknown to fit. -/
theorem Best.grade_eq_zero {e : Candidate} (h : Best r fit candidates args grade c)
    (he : e ∈ byArity candidates args.length) (hfit : Within fit e.2 args 1) (hworse : ¬ Within fit e.2 args grade) :
    grade = 0 := by
  rcases Nat.le_one_iff_eq_zero_or_eq_one.1 (h.least e he 1 hfit) with rfl | rfl
  · rfl
  · exact absurd hfit hworse

theorem best_of_pick (h : pickMostSpecific r args.length (fitting fit candidates args) = .ok c) :
    ∃ grade, Best r fit candidates args grade c := by
  unfold pickMostSpecific at h
  cases hmin : ((fitting fit candidates args).map fun f => f.2.rank).min? with
  | none =>
    rw [hmin] at h
    cases h
  | some grade =>
    rw [hmin] at h
    dsimp only at h
    obtain ⟨-, hleast⟩ := List.min?_eq_some_iff.1 hmin
    have hbest : ∀ e : Candidate, e ∈ ((fitting fit candidates args).filter fun f => f.2.rank == grade).map Prod.fst ↔
        e ∈ byArity candidates args.length ∧ Within fit e.2 args grade := by
      intro e
      rw [← mem_fitting]
      simp only [List.mem_map, List.mem_filter, beq_iff_eq, Prod.exists, exists_and_right, exists_eq_right]
      refine exists_congr fun f => and_congr_right fun hmem => ?_
      have hle : grade ≤ f.rank := hleast _ (List.mem_map.2 ⟨(e, f), hmem, rfl⟩)
      omega
    split at h
    · rename_i honly
      cases h
      have hwin : ∀ e : Candidate, e = c ↔ (e ∈ byArity candidates args.length ∧ Within fit e.2 args grade) ∧
          ∀ d : Candidate, d ∈ byArity candidates args.length ∧ Within fit d.2 args grade →
            atLeastAsSpecific r args.length e.2 d.2 = true := by
        intro e
        rw [← List.mem_singleton, ← honly, List.mem_filter, hbest, List.all_eq_true]
        simp only [hbest]
      obtain ⟨⟨htakes, hfits⟩, hspecific⟩ := (hwin c).1 rfl
      refine ⟨grade, htakes, hfits, fun e he n hn => ?_, fun e he hfit => hspecific e ⟨he, hfit⟩,
        fun e he hfit hall => ?_⟩
      · obtain ⟨f, hmem, hrank⟩ := mem_fitting.2 ⟨he, hn⟩
        exact Nat.le_trans (hleast _ (List.mem_map.2 ⟨(e, f), hmem, rfl⟩)) hrank
      · exact (hwin e).2 ⟨⟨he, hfit⟩, fun d hd => hall d hd.1 hd.2⟩
    · cases h

end Grades

/-- The overload that values choose is the best by their classes. -/
theorem best_of_dynamic {candidates : List Candidate} {args : List Value} {what : String} {d : DynamicResolution}
    (h : resolveDynamic r candidates args what = .ok d) :
    ∃ grade, Best r (runtimeFit? r) candidates args grade d.candidate := by
  unfold resolveDynamic at h
  split at h
  · cases h
  · split at h
    · cases h
      exact best_of_pick ‹_›
    · cases h

/-- The overload that types decide on is the best by those types; where others fit too, none of them is unknown to
fit. -/
theorem best_of_static {candidates : List Candidate} {types : List Ty} {c : Candidate}
    (h : resolveStatic r candidates types = .unique c) :
    ∃ grade, Best r (staticFit? r) candidates types grade c ∧
      ((∀ e ∈ byArity candidates types.length, Within (staticFit? r) e.2 types 2 → e = c) ∨
        ∀ e ∈ byArity candidates types.length,
          Within (staticFit? r) e.2 types 2 → Within (staticFit? r) e.2 types 1) := by
  unfold resolveStatic at h
  split at h
  · cases h
  · rename_i f hsingle
    cases h
    have hpick : pickMostSpecific r types.length (fitting (staticFit? r) candidates types) = .ok f.1 := by
      rw [hsingle, pickMostSpecific_single]
    obtain ⟨grade, hbest⟩ := best_of_pick hpick
    refine ⟨grade, hbest, .inl fun e he hfit => ?_⟩
    obtain ⟨g, hmem, -⟩ := mem_fitting.2 ⟨he, hfit⟩
    rw [hsingle, List.mem_singleton] at hmem
    rw [← hmem]
  · split at h
    · cases h
    · rename_i hknown
      split at h
      · cases h
        obtain ⟨grade, hbest⟩ := best_of_pick ‹_›
        refine ⟨grade, hbest, .inr fun e he hfit => ?_⟩
        obtain ⟨g, hmem, -⟩ := mem_fitting.2 ⟨he, hfit⟩
        refine (mem_fitting.1 ⟨g, hmem, ?_⟩).2
        cases g with
        | unknown => exact absurd (List.any_eq_true.2 ⟨_, hmem, rfl⟩) hknown
        | exact => exact Nat.zero_le 1
        | convertible => exact Nat.le_refl 1
      · cases h

end Overload

end LispMachine
