import LispMachine.CallSite.Cache

/-! # What relinking does to a site

A relink ends in one of five ways, whatever the stage, the budgets and the linker (`relink_cases`): it
installs a target for good, puts a guarded target in front of some of the chain, adds one to the table,
gives up and decides every call anew, or fails and leaves everything installed as it was.  Two facts about
sites follow for any linker.  What is true of all targets a linker makes stays true of all targets a site
remembers (`Remembers.relinked`), and a call for which the linker's guard holds finds its target after one
relink at most (`resolve_cases`). -/

namespace LispMachine.CallSite

variable {ε γ η : Type}

namespace Site

/-- The outcome of relinking a site: what is installed afterwards, and whether the relink failed. -/
inductive Relinked (l : Linker ε γ η) (s : Site γ η) : Site γ η → Except ε Unit → Prop
  | static {s' : Site γ η} (target : η) (hcold : s.stage = .cold)
      (hlink : l.linkStatic () = .ok (some target)) (hstage : s'.stage ≠ .cold)
      (hchain : s'.chain = s.chain) (htable : s'.table = s.table) (hstatic : s'.isStatic = true)
      (hdispatch : s'.dispatch = .unguarded target) : Relinked l s s' (.ok ())
  | chain {s' : Site γ η} (entry : γ × η) (kept : List (γ × η))
      (hlink : l.linkGuarded () = .ok (some entry)) (hkept : kept ⊆ s.chain)
      (hstage : s'.stage ≠ .cold) (hchain : s'.chain = entry :: kept) (htable : s'.table = s.table)
      (hstatic : s'.isStatic = false) (hdispatch : s'.dispatch = .chain (entry :: kept)) :
      Relinked l s s' (.ok ())
  | table {s' : Site γ η} (key : ShapeKey) (entry : γ × η) (hkey : l.shapeKey () = some key)
      (hlink : l.linkGuarded () = .ok (some entry)) (hstage : s'.stage ≠ .cold)
      (hchain : s'.chain = s.chain) (htable : s'.table = s.table.insert key entry)
      (hstatic : s'.isStatic = false) (hdispatch : s'.dispatch = .table (s.table.insert key entry)) :
      Relinked l s s' (.ok ())
  | generic {s' : Site γ η} (hstage : s'.stage ≠ .cold) (hchain : s'.chain = s.chain)
      (htable : s'.table = s.table) (hstatic : s'.isStatic = false)
      (hdispatch : s'.dispatch = .unguarded l.generic) : Relinked l s s' (.ok ())
  | failed {s' : Site γ η} {e : ε}
      (hlink : (s.stage = .cold ∧ l.linkStatic () = .error e) ∨ l.linkGuarded () = .error e)
      (hstage : s'.stage ≠ .cold) (hchain : s'.chain = s.chain) (htable : s'.table = s.table)
      (hstatic : s'.isStatic = s.isStatic) (hdispatch : s'.dispatch = s.dispatch) :
      Relinked l s s' (.error e)

/-- Both sites have the same targets installed and in reserve. -/
structure Alike (s s' : Site γ η) : Prop where
  chain : s'.chain = s.chain
  table : s'.table = s.table
  isStatic : s'.isStatic = s.isStatic
  dispatch : s'.dispatch = s.dispatch

theorem Alike.enter {s s₁ : Site γ η} (h : Alike s s₁) (stage : Stage) : Alike s (s₁.enter stage) :=
  ⟨h.chain, h.table, h.isStatic, h.dispatch⟩

section Stages

variable {l : Linker ε γ η} {s s₁ : Site γ η}

theorem linkUnoptimized_cases (h : Alike s s₁) (hstage : s₁.stage ≠ .cold) :
    Relinked l s (linkUnoptimized l s₁).1 (linkUnoptimized l s₁).2 :=
  .generic hstage h.chain h.table rfl rfl

theorem linkMegamorphic_cases (budget : Int) (h : Alike s s₁) (hstage : s₁.stage ≠ .cold) :
    Relinked l s (linkMegamorphic budget l s₁).1 (linkMegamorphic budget l s₁).2 := by
  have hgeneric := linkUnoptimized_cases (l := l) (h.enter .unoptimized) Stage.noConfusion
  unfold linkMegamorphic
  split
  · exact hgeneric
  · rename_i key hkey
    split
    · dsimp only
      split
      · rename_i e hlink
        exact .failed (.inr hlink) hstage h.chain h.table h.isStatic h.dispatch
      · exact linkUnoptimized_cases ⟨h.chain, h.table, h.isStatic, h.dispatch⟩ Stage.noConfusion
      · rename_i entry hlink
        rw [show s₁.charge.table = s.table from h.table]
        exact .table key entry hkey hlink hstage h.chain rfl rfl rfl
    · exact hgeneric

theorem linkPolymorphic_cases (t : Thresholds) (h : Alike s s₁) (hstage : s₁.stage ≠ .cold) :
    Relinked l s (linkPolymorphic t l s₁).1 (linkPolymorphic t l s₁).2 := by
  unfold linkPolymorphic
  split
  · rename_i haffords
    dsimp only
    split
    · rename_i e hlink
      exact .failed (.inr hlink) hstage h.chain h.table h.isStatic h.dispatch
    · exact linkMegamorphic_cases _ ⟨h.chain, h.table, h.isStatic, h.dispatch⟩ Stage.noConfusion
    · rename_i entry hlink
      -- A stage that can be afforded has a positive budget, so the new entry is never cut off.
      obtain ⟨n, hn⟩ : ∃ n, t.polymorphic.toNat = n + 1 := by
        have hpos : 0 < t.polymorphic := by
          simp only [affords, Bool.and_eq_true, decide_eq_true_eq] at haffords
          exact haffords.1
        exact ⟨t.polymorphic.toNat - 1, by omega⟩
      rw [hn, List.take_succ_cons, show s₁.charge.chain = s.chain from h.chain]
      exact .chain entry _ hlink (List.take_subset n s.chain) hstage rfl h.table rfl rfl
  · exact linkMegamorphic_cases _ (h.enter .megamorphic) Stage.noConfusion

theorem linkMonomorphic_cases (t : Thresholds) (h : Alike s s₁) (hstage : s₁.stage ≠ .cold) :
    Relinked l s (linkMonomorphic t l s₁).1 (linkMonomorphic t l s₁).2 := by
  unfold linkMonomorphic
  split
  · dsimp only
    split
    · rename_i e hlink
      exact .failed (.inr hlink) hstage h.chain h.table h.isStatic h.dispatch
    · exact linkPolymorphic_cases t ⟨h.chain, h.table, h.isStatic, h.dispatch⟩ Stage.noConfusion
    · rename_i entry hlink
      exact .chain entry [] hlink (List.nil_subset _) hstage rfl h.table rfl rfl
  · exact linkPolymorphic_cases t (h.enter .polymorphic) Stage.noConfusion

theorem linkCold_cases (t : Thresholds) (h : Alike s s₁) (hcold : s.stage = .cold) :
    Relinked l s (linkCold t l s₁).1 (linkCold t l s₁).2 := by
  unfold linkCold
  dsimp only
  split
  · rename_i e hlink
    exact .failed (.inl ⟨hcold, hlink⟩) Stage.noConfusion h.chain h.table h.isStatic h.dispatch
  · rename_i target hlink
    exact .static target hcold hlink Stage.noConfusion h.chain h.table rfl rfl
  · exact linkMonomorphic_cases t (h.enter .monomorphic) Stage.noConfusion

end Stages

/-- All that a relink can do. -/
theorem relink_cases (t : Thresholds) (l : Linker ε γ η) (s : Site γ η) :
    Relinked l s (s.relink t l).1 (s.relink t l).2 := by
  have halike : Alike s { s with relinks := s.relinks + 1 } := ⟨rfl, rfl, rfl, rfl⟩
  unfold relink
  dsimp only
  split
  · rename_i hstage
    exact linkCold_cases t halike hstage
  · rename_i hstage
    exact linkMonomorphic_cases t halike (by simp [hstage])
  · rename_i hstage
    exact linkPolymorphic_cases t halike (by simp [hstage])
  · rename_i hstage
    exact linkMegamorphic_cases _ halike (by simp [hstage])
  · rename_i hstage
    exact linkUnoptimized_cases halike (by simp [hstage])

/-! ### Finding a target -/

section Resolve

variable {t : Thresholds} {l : Linker ε γ η} {holds : γ → Bool} {s : Site γ η}

/-- After a relink that did not fail there is a target, provided that the guards the linker makes hold
for the call they are made for. -/
theorem select_of_relinked {s' : Site γ η}
    (hholds : ∀ entry, l.linkGuarded () = .ok (some entry) → holds entry.1 = true)
    (h : Relinked l s s' (.ok ())) : ∃ target, s'.select holds l.shapeKey = some target := by
  cases h with
  | static target _ _ _ _ _ _ hdispatch => exact ⟨target, by simp [select, hdispatch]⟩
  | chain entry kept hlink _ _ _ _ _ hdispatch =>
    exact ⟨entry.2, by simp [select, hdispatch, hholds entry hlink]⟩
  | table key entry hkey hlink _ _ _ _ hdispatch =>
    exact ⟨entry.2, by simp [select, hdispatch, hkey, Table.find?_insert, hholds entry hlink]⟩
  | generic _ _ _ _ hdispatch => exact ⟨l.generic, by simp [select, hdispatch]⟩

/-- A call finds the target that is installed for it, or the site is relinked once; then the call finds a
target unless the relink failed. -/
theorem resolve_cases
    (hholds : ∀ entry, l.linkGuarded () = .ok (some entry) → holds entry.1 = true) :
    (∃ target, s.select holds l.shapeKey = some target ∧ s.resolve t l holds = (s, .ok (some target))) ∨
    s.select holds l.shapeKey = none ∧
      ((∃ target, (s.relink t l).2 = .ok () ∧ (s.relink t l).1.select holds l.shapeKey = some target ∧
        s.resolve t l holds = ((s.relink t l).1, .ok (some target))) ∨
      ∃ e, (s.relink t l).2 = .error e ∧ s.resolve t l holds = ((s.relink t l).1, .error e)) := by
  cases hselect : s.select holds l.shapeKey with
  | some target => exact .inl ⟨target, rfl, by simp only [resolve, patience, resolveWithin, hselect]⟩
  | none =>
    refine .inr ⟨rfl, ?_⟩
    have hcases := relink_cases t l s
    cases hresult : (s.relink t l).2 with
    | error e =>
      have hrelink : s.relink t l = ((s.relink t l).1, .error e) := by rw [← hresult]
      refine .inr ⟨e, rfl, ?_⟩
      simp only [resolve, patience, resolveWithin, hselect]
      rw [hrelink]
    | ok =>
      rw [hresult] at hcases
      have hrelink : s.relink t l = ((s.relink t l).1, .ok ()) := by rw [← hresult]
      obtain ⟨target, htarget⟩ := select_of_relinked hholds hcases
      refine .inl ⟨target, rfl, htarget, ?_⟩
      simp only [resolve, patience, resolveWithin, hselect]
      rw [hrelink]
      simp only [htarget]

end Resolve

/-! ### What a site remembers -/

/-- All guarded targets of a site, installed or in reserve, satisfy `entry`, and a target installed without
a guard satisfies `bare`. -/
structure Remembers (entry : γ × η → Prop) (bare : η → Prop) (s : Site γ η) : Prop where
  chain : ∀ e ∈ s.chain, entry e
  table : ∀ key e, s.table.find? key = some e → entry e
  installed : match s.dispatch with
    | .cold => True
    | .unguarded target => bare target
    | .chain entries => ∀ e ∈ entries, entry e
    | .table entries => ∀ key e, entries.find? key = some e → entry e

section Remembers

variable {entry entry' : γ × η → Prop} {bare : η → Prop} {l : Linker ε γ η} {s s' : Site γ η}

theorem remembers_cold : Remembers entry bare ({} : Site γ η) where
  chain _ h := nomatch h
  table _ _ h := nomatch h
  installed := trivial

theorem Remembers.mono (h : Remembers entry bare s) (hentry : ∀ e, entry e → entry' e) :
    Remembers entry' bare s where
  chain e he := hentry e (h.chain e he)
  table key e he := hentry e (h.table key e he)
  installed := by
    have hinstalled := h.installed
    cases hdispatch : s.dispatch <;> simp only [hdispatch] at hinstalled ⊢
    · exact hinstalled
    · exact fun e he => hentry e (hinstalled e he)
    · exact fun key e he => hentry e (hinstalled key e he)

/-- What holds of all targets a linker makes holds of all a relinked site remembers. -/
theorem Remembers.relinked {result : Except ε Unit} (h : Remembers entry bare s)
    (hrelink : Relinked l s s' result)
    (hstatic : ∀ target, s.stage = .cold → s'.isStatic = true → l.linkStatic () = .ok (some target) →
      bare target)
    (hguarded : ∀ e, l.linkGuarded () = .ok (some e) → entry e) (hgeneric : bare l.generic) :
    Remembers entry bare s' := by
  cases hrelink with
  | static target hcold hlink _ hchain htable hforever hdispatch =>
    refine ⟨by rw [hchain]; exact h.chain, by rw [htable]; exact h.table, ?_⟩
    rw [hdispatch]
    exact hstatic target hcold hforever hlink
  | chain e kept hlink hkept _ hchain htable _ hdispatch =>
    have hall : ∀ e' ∈ e :: kept, entry e' := by
      intro e' he'
      rcases List.mem_cons.mp he' with rfl | hmem
      · exact hguarded e' hlink
      · exact h.chain e' (hkept hmem)
    refine ⟨by rw [hchain]; exact hall, by rw [htable]; exact h.table, ?_⟩
    rw [hdispatch]
    exact hall
  | table key e _ hlink _ hchain htable _ hdispatch =>
    have hall : ∀ key' e', (s.table.insert key e).find? key' = some e' → entry e' := by
      intro key' e' he'
      rw [Table.find?_insert] at he'
      split at he'
      · cases he'
        exact hguarded e hlink
      · exact h.table key' e' he'
    refine ⟨by rw [hchain]; exact h.chain, by rw [htable]; exact hall, ?_⟩
    rw [hdispatch]
    exact hall
  | generic _ hchain htable _ hdispatch =>
    refine ⟨by rw [hchain]; exact h.chain, by rw [htable]; exact h.table, ?_⟩
    rw [hdispatch]
    exact hgeneric
  | failed _ _ hchain htable _ hdispatch =>
    refine ⟨by rw [hchain]; exact h.chain, by rw [htable]; exact h.table, ?_⟩
    rw [hdispatch]
    exact h.installed

/-- A call goes to a target installed without a guard, or to one whose guard holds. -/
theorem Remembers.select {holds : γ → Bool} {key : Unit → Option ShapeKey} {target : η}
    (h : Remembers entry bare s) (hselect : s.select holds key = some target) :
    bare target ∨ ∃ guard, entry (guard, target) ∧ holds guard = true := by
  have hinstalled := h.installed
  cases hdispatch : s.dispatch with
  | cold => simp [Site.select, hdispatch] at hselect
  | unguarded target' =>
    simp only [Site.select, hdispatch, Option.some.injEq] at hselect hinstalled
    exact .inl (hselect ▸ hinstalled)
  | chain entries =>
    simp only [Site.select, hdispatch, Option.map_eq_some_iff] at hselect hinstalled
    obtain ⟨e, hfind, rfl⟩ := hselect
    exact .inr ⟨e.1, hinstalled e (List.mem_of_find?_eq_some hfind), by
      simpa using List.find?_some hfind⟩
  | table entries =>
    simp only [Site.select, hdispatch] at hselect hinstalled
    split at hselect
    · rename_i guard target' hfind
      obtain ⟨shape, -, hentry⟩ := Option.bind_eq_some_iff.mp hfind
      split at hselect
      · rename_i hholds
        cases hselect
        exact .inr ⟨guard, hinstalled shape _ hentry, hholds⟩
      · cases hselect
    · cases hselect

end Remembers

end Site

end LispMachine.CallSite
