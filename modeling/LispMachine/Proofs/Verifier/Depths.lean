import Mathlib.Algebra.Ring.Nat
import LispMachine.ClassFile.Verifier
import LispMachine.Proofs.Sequencing

/-! # What the verifier finds out

The verifier walks code with a work list.  What it looks for can be said without one: depths for some
positions, the start among them at depth zero, such that the instruction at each of these positions has
its operands, stays inside the declared room, and hands the right depth to every position control may
go to, the handlers that cover it included (`Fits`, `Consistent`).

The main results tie the two together.  Depths that the work list ends with are consistent
(`consistent_of_survey`), and code for which consistent depths exist at all is accepted, in no more room
than these need (`survey_of_consistent`). -/

namespace LispMachine

namespace Effect

/-- Slots taken off the stack. -/
def popped : Effect → Nat
  | .ops pops _ => (pops.map Ty.width).sum
  | .dupTop => 0

/-- Slots left on the stack. -/
def pushed : Effect → Nat
  | .ops _ push => (push.map Ty.width).getD 0
  | .dupTop => 1

/-- Slots that have to be on the stack. -/
def needs : Effect → Nat
  | .ops pops _ => (pops.map Ty.width).sum
  | .dupTop => 1

end Effect

namespace Verifier

theorem effect_of_delta {i : Instruction} {sites : List SiteSpec} {depth popped pushed : Nat}
    (h : delta? i sites depth = some (popped, pushed)) (henough : popped ≤ depth) :
    ∃ effect, i.effect sites = .ok effect ∧ effect.needs ≤ depth ∧
      effect.popped = popped ∧ effect.pushed = pushed := by
  unfold delta? at h
  split at h
  · cases h
  · rename_i heffect
    split at h
    · rename_i hdepth
      cases h
      exact ⟨.dupTop, heffect, hdepth, rfl, rfl⟩
    · cases h
  · rename_i pops push heffect
    cases h
    exact ⟨.ops pops push, heffect, henough, rfl, rfl⟩

theorem delta_of_effect {i : Instruction} {sites : List SiteSpec} {effect : Effect} {depth : Nat}
    (h : i.effect sites = .ok effect) (hneeds : effect.needs ≤ depth) :
    delta? i sites depth = some (effect.popped, effect.pushed) ∧ effect.popped ≤ depth := by
  cases effect with
  | ops pops push =>
    exact ⟨by simp [delta?, h, Effect.popped, Effect.pushed, List.sum_eq_foldr], hneeds⟩
  | dupTop =>
    have hdepth : 1 ≤ depth := hneeds
    exact ⟨by simp [delta?, h, Effect.popped, Effect.pushed, hdepth], Nat.zero_le _⟩

/-- The depth on entry to some of the positions. -/
abbrev Depths := Nat → Option Nat

/-- The instruction at a position works at the depth it is met at, and whatever may follow it is met at
the depth it leaves. -/
structure Fits (code : Code) (sites : List SiteSpec) (depths : Depths) (room pc depth : Nat)
    (i : Instruction) (popped pushed : Nat) : Prop where
  delta : delta? i sites depth = some (popped, pushed)
  enough : popped ≤ depth
  slot : ∀ slot, i.slot? = some slot → slot < code.maxLocals
  depth_le : depth ≤ room
  after_le : depth - popped + pushed ≤ room
  targets : ∀ l ∈ i.targets,
    ∃ t, code.position? l = some t ∧ depths t = some (depth - popped + pushed)
  next : i.endsBlock = false → depths (pc + 1) = some (depth - popped + pushed)
  handlers : ∀ h ∈ code.handlers, h.covers pc = true →
    h.stackDepth ≤ depth ∧ h.stackDepth + 1 ≤ room ∧ depths h.target = some (h.stackDepth + 1)

/-- There is an instruction at a position, and it fits. -/
def Reached (code : Code) (sites : List SiteSpec) (depths : Depths) (room pc depth : Nat) : Prop :=
  ∃ i popped pushed, code.instructions[pc]? = some i ∧
    Fits code sites depths room pc depth i popped pushed

/-- Depths that agree along every edge of the control flow, handlers included. -/
structure Consistent (code : Code) (sites : List SiteSpec) (depths : Depths) (room : Nat) : Prop where
  start : depths 0 = some 0
  reached : ∀ pc depth, depths pc = some depth → Reached code sites depths room pc depth

variable {code : Code} {sites : List SiteSpec} {room pc depth : Nat}

theorem Reached.mono {depths depths' : Depths} {room' : Nat}
    (hdepths : ∀ pc depth, depths pc = some depth → depths' pc = some depth)
    (hroom : room ≤ room') (h : Reached code sites depths room pc depth) :
    Reached code sites depths' room' pc depth := by
  obtain ⟨i, popped, pushed, hi, hf⟩ := h
  refine ⟨i, popped, pushed, hi, ?_⟩
  refine ⟨hf.delta, hf.enough, hf.slot, Nat.le_trans hf.depth_le hroom,
    Nat.le_trans hf.after_le hroom, ?_, ?_, ?_⟩
  · intro l hl
    obtain ⟨t, ht, hd⟩ := hf.targets l hl
    exact ⟨t, ht, hdepths _ _ hd⟩
  · intro hb
    exact hdepths _ _ (hf.next hb)
  · intro h hh hc
    obtain ⟨h1, h2, h3⟩ := hf.handlers h hh hc
    exact ⟨h1, Nat.le_trans h2 hroom, hdepths _ _ h3⟩

theorem Consistent.lt_size {depths : Depths} (h : Consistent code sites depths room)
    (hd : depths pc = some depth) : pc < code.instructions.size := by
  obtain ⟨i, _, _, hi, _⟩ := h.reached pc depth hd
  exact (Array.getElem?_eq_some_iff.1 hi).1

/-! ### Checks that pass -/

theorem target_ok {l : Label} {t : Nat} (h : target code pc l = .ok t) :
    code.position? l = some t ∧ t ≤ code.instructions.size := by
  unfold target at h
  split at h
  · rename_i t' ht
    split at h
    · rename_i hle
      obtain rfl := Except.ok.inj h
      exact ⟨ht, hle⟩
    · cases h
  · cases h

theorem checkSlot_ok {i : Instruction} (h : checkSlot code pc i = .ok ()) (slot : Nat)
    (hs : i.slot? = some slot) : slot < code.maxLocals := by
  simp only [checkSlot, hs] at h
  split at h
  · cases h
  · omega

/-! ### The work list -/

namespace Progress

/-- The depth found for a position. -/
def depthAt (p : Progress) (pc : Nat) : Option Nat := (p.depths[pc]?).join

/-- Positions without a depth, and positions still to visit: what is left to do. -/
def pending (p : Progress) : Nat := p.depths.count none + p.queue.length

/-- All that `p` says is still so in `q`, and what `q` found beyond it waits in the queue. -/
structure Grows (p q : Progress) : Prop where
  size : q.depths.size = p.depths.size
  kept : ∀ pc depth, p.depthAt pc = some depth → q.depthAt pc = some depth
  fresh : ∀ pc depth, q.depthAt pc = some depth → p.depthAt pc = some depth ∨ pc ∈ q.queue
  queued : ∀ pc ∈ p.queue, pc ∈ q.queue
  waiting : ∀ pc ∈ q.queue, pc ∈ p.queue ∨ ∃ depth, q.depthAt pc = some depth
  max : p.max ≤ q.max
  pending : q.pending = p.pending

namespace Grows

theorem refl (p : Progress) : Grows p p :=
  ⟨rfl, fun _ _ h => h, fun _ _ h => .inl h, fun _ h => h, fun _ h => .inl h,
    Nat.le_refl _, rfl⟩

theorem trans {p q r : Progress} (h : Grows p q) (h' : Grows q r) : Grows p r where
  size := h'.size.trans h.size
  kept pc depth hp := h'.kept pc depth (h.kept pc depth hp)
  fresh pc depth hr := by
    rcases h'.fresh pc depth hr with hq | hq
    · rcases h.fresh pc depth hq with hp | hp
      · exact .inl hp
      · exact .inr (h'.queued pc hp)
    · exact .inr hq
  queued pc hp := h'.queued pc (h.queued pc hp)
  waiting pc hr := by
    rcases h'.waiting pc hr with hq | hq
    · rcases h.waiting pc hq with hp | ⟨depth, hp⟩
      · exact .inl hp
      · exact .inr ⟨depth, h'.kept pc depth hp⟩
    · exact .inr hq
  max := Nat.le_trans h.max h'.max
  pending := h'.pending.trans h.pending

end Grows

theorem grows_reach (p : Progress) (depth : Nat) : Grows p (p.reach depth) :=
  { Grows.refl p with max := Nat.le_max_left _ _ }

theorem depthAt_setIfInBounds {p : Progress} (h : pc < p.depths.size) (queue : List Nat)
    (at' : Nat) :
    depthAt { p with depths := p.depths.setIfInBounds pc (some depth), queue } at'
      = if at' = pc then some depth else p.depthAt at' := by
  simp only [depthAt, Array.getElem?_setIfInBounds]
  by_cases e : pc = at'
  · subst e
    simp [h]
  · simp [e, Ne.symm e]

section Visits

variable {p q : Progress} {hs : List Handler} {ls : List Label}

/-- A visit to a position inside the code records the depth. -/
theorem visit_spec (hpc : pc < p.depths.size) (h : p.visit pc depth = .ok q) :
    Grows p q ∧ q.depthAt pc = some depth := by
  simp only [visit] at h
  split at h
  · rename_i expected hd
    split at h
    · rename_i he
      subst he
      obtain rfl : p = q := by simpa using h
      exact ⟨Grows.refl p, hd⟩
    · cases h
  · rename_i hd
    obtain rfl := Except.ok.inj h
    have hnone : p.depths[pc] = none := by simpa [Array.getElem?_eq_getElem hpc] using hd
    refine ⟨⟨by simp, ?_, ?_, ?_, ?_, Nat.le_refl _, ?_⟩, ?_⟩
    · intro pc' depth' hp
      rw [depthAt_setIfInBounds hpc, if_neg]
      · exact hp
      · rintro rfl
        simp [depthAt, hd] at hp
    · intro pc' depth' hq
      rw [depthAt_setIfInBounds hpc] at hq
      by_cases e : pc' = pc
      · simp [e]
      · rw [if_neg e] at hq
        exact .inl hq
    · intro pc' hp
      simp [hp]
    · intro pc' hq
      rcases List.mem_append.1 hq with hp | hp
      · exact .inl hp
      · obtain rfl : pc' = pc := by simpa using hp
        exact .inr ⟨depth, by simp [depthAt_setIfInBounds hpc]⟩
    · have hpos : 0 < p.depths.count none := by
        rw [Array.count_pos_iff]
        exact hnone ▸ Array.getElem_mem hpc
      simp only [Progress.pending, Array.setIfInBounds, hpc, dite_true, Array.count_set, hnone]
      simp
      omega
    · simp [depthAt_setIfInBounds hpc]

theorem visitHandlers_spec (hfits : ∀ h ∈ hs, h.target < p.depths.size)
    (h : p.visitHandlers pc depth hs = .ok q) :
    Grows p q ∧ ∀ h ∈ hs, h.covers pc = true →
      h.stackDepth ≤ depth ∧ h.stackDepth + 1 ≤ q.max ∧
        q.depthAt h.target = some (h.stackDepth + 1) := by
  induction hs generalizing p with
  | nil =>
      obtain rfl := Except.ok.inj h
      exact ⟨Grows.refl p, by simp⟩
  | cons a hs ih =>
      simp only [visitHandlers] at h
      have hfits' : ∀ h ∈ hs, h.target < p.depths.size := fun h hh => hfits h (by simp [hh])
      split at h
      · split at h
        · cases h
        · rename_i hdepth
          obtain ⟨p', hp', h⟩ := bind_ok h
          have hreach := p.grows_reach (a.stackDepth + 1)
          obtain ⟨hgrow, hat⟩ := visit_spec (hreach.size ▸ hfits a (by simp)) hp'
          have hto := hreach.trans hgrow
          obtain ⟨hrest, hall⟩ := ih (fun h hh => hto.size ▸ hfits' h hh) h
          refine ⟨hto.trans hrest, ?_⟩
          intro b hb hc
          rcases List.mem_cons.1 hb with rfl | hb
          · have hmax : b.stackDepth + 1 ≤ (p.reach (b.stackDepth + 1)).max := Nat.le_max_right _ _
            refine ⟨by omega, ?_, hrest.kept _ _ hat⟩
            exact Nat.le_trans hmax (Nat.le_trans hgrow.max hrest.max)
          · exact hall b hb hc
      · rename_i hcov
        obtain ⟨hrest, hall⟩ := ih hfits' h
        refine ⟨hrest, ?_⟩
        intro b hb hc
        rcases List.mem_cons.1 hb with rfl | hb
        · exact absurd hc hcov
        · exact hall b hb hc

theorem visitTargets_spec (hsize : p.depths.size = code.instructions.size + 1)
    (h : p.visitTargets code pc depth ls = .ok q) :
    Grows p q ∧ ∀ l ∈ ls, ∃ t, code.position? l = some t ∧ q.depthAt t = some depth := by
  induction ls generalizing p with
  | nil =>
      obtain rfl := Except.ok.inj h
      exact ⟨Grows.refl p, by simp⟩
  | cons a ls ih =>
      simp only [visitTargets] at h
      obtain ⟨t, ht, h⟩ := bind_ok h
      obtain ⟨p', hp', h⟩ := bind_ok h
      obtain ⟨hpos, hle⟩ := target_ok ht
      obtain ⟨hgrow, hat⟩ := visit_spec (by omega) hp'
      obtain ⟨hrest, hall⟩ := ih (hgrow.size.trans hsize) h
      refine ⟨hgrow.trans hrest, ?_⟩
      intro b hb
      rcases List.mem_cons.1 hb with rfl | hb
      · exact ⟨t, hpos, hrest.kept _ _ hat⟩
      · exact hall b hb

end Visits

end Progress

/-- Positions wait only once their depth is known. -/
def Queued (p : Progress) : Prop := ∀ pc ∈ p.queue, ∃ depth, p.depthAt pc = some depth

/-- The positions that are not waiting fit. -/
def Settled (code : Code) (sites : List SiteSpec) (p : Progress) : Prop :=
  ∀ pc depth, p.depthAt pc = some depth → pc ∈ p.queue ∨ Reached code sites p.depthAt p.max pc depth

section Step

variable {p q : Progress}

theorem step_spec (hsize : p.depths.size = code.instructions.size + 1)
    (hfits : ∀ h ∈ code.handlers, handlerFits code h = true) (hpc : p.depthAt pc = some depth)
    (h : step code sites pc p = .ok q) :
    p.Grows q ∧ Reached code sites q.depthAt q.max pc depth := by
  have hd : ((p.depths[pc]?).join).getD 0 = depth := by
    simp only [Progress.depthAt] at hpc
    rw [hpc, Option.getD_some]
  simp only [step, hd] at h
  split at h
  · cases h
  · rename_i i hi
    have hlt : pc < code.instructions.size := (Array.getElem?_eq_some_iff.1 hi).1
    obtain ⟨p₁, h₁, h⟩ := bind_ok h
    have hreach := p.grows_reach depth
    have htargets : ∀ h ∈ code.handlers, h.target < (p.reach depth).depths.size := by
      intro h hh
      have := hfits h hh
      simp only [handlerFits, Bool.and_eq_true, decide_eq_true_eq] at this
      rw [hreach.size]
      omega
    obtain ⟨hg₁, hhandlers⟩ := Progress.visitHandlers_spec htargets h₁
    have hto₁ := hreach.trans hg₁
    obtain ⟨⟨⟩, hslot, h⟩ := bind_ok h
    split at h
    · cases h
    · rename_i popped pushed hdelta
      split at h
      · cases h
      · rename_i henough
        obtain ⟨p₂, h₂, h⟩ := bind_ok h
        have hreach₂ := p₁.grows_reach (depth - popped + pushed)
        have hto₂ := hto₁.trans hreach₂
        obtain ⟨hg₂, hlabels⟩ := Progress.visitTargets_spec (hto₂.size.trans hsize) h₂
        have hto₃ := hto₂.trans hg₂
        have hlast : p₂.Grows q ∧
            (i.endsBlock = false → q.depthAt (pc + 1) = some (depth - popped + pushed)) := by
          split at h
          · rename_i hends
            obtain rfl := Except.ok.inj h
            exact ⟨Progress.Grows.refl p₂, by simp [hends]⟩
          · obtain ⟨hg, hat⟩ := Progress.visit_spec (by rw [hto₃.size]; omega) h
            exact ⟨hg, fun _ => hat⟩
        obtain ⟨hg₃, hnext⟩ := hlast
        have hmax : depth ≤ (p.reach depth).max := Nat.le_max_right _ _
        have hmax₂ : depth - popped + pushed ≤ (p₁.reach (depth - popped + pushed)).max :=
          Nat.le_max_right _ _
        refine ⟨hto₃.trans hg₃, i, popped, pushed, hi, hdelta, by omega, checkSlot_ok hslot, ?_, ?_, ?_, hnext, ?_⟩
        · exact Nat.le_trans hmax ((hg₁.trans (hreach₂.trans (hg₂.trans hg₃))).max)
        · exact Nat.le_trans hmax₂ (hg₂.trans hg₃).max
        · intro l hl
          obtain ⟨t, ht, hat⟩ := hlabels l hl
          exact ⟨t, ht, hg₃.kept _ _ hat⟩
        · intro b hb hc
          obtain ⟨hle, hroom, hat⟩ := hhandlers b hb hc
          have hrest := hreach₂.trans (hg₂.trans hg₃)
          exact ⟨hle, Nat.le_trans hroom hrest.max, hrest.kept _ _ hat⟩

/-- What a visit to a waiting position comes to: nothing found is lost, and there is less left to do. -/
structure Proceeds (code : Code) (sites : List SiteSpec) (p q : Progress) : Prop where
  size : q.depths.size = p.depths.size
  kept : ∀ pc depth, p.depthAt pc = some depth → q.depthAt pc = some depth
  queued : Queued q
  settled : Settled code sites q
  pending : q.pending < p.pending

/-- A position may be taken from anywhere in the queue. -/
theorem step_proceeds {queue : List Nat} (hsize : p.depths.size = code.instructions.size + 1)
    (hfits : ∀ h ∈ code.handlers, handlerFits code h = true) (hqueue : Queued p)
    (hsettled : Settled code sites p) (hperm : (pc :: queue).Perm p.queue)
    (h : step code sites pc { p with queue } = .ok q) : Proceeds code sites p q := by
  obtain ⟨depth, hd⟩ := hqueue pc (hperm.mem_iff.mp List.mem_cons_self)
  obtain ⟨hgrow, hreached⟩ := step_spec (p := { p with queue }) hsize hfits hd h
  refine ⟨hgrow.size, hgrow.kept, ?_, ?_, ?_⟩
  · intro at' hat'
    rcases hgrow.waiting at' hat' with hq | hq
    · obtain ⟨d, hd⟩ := hqueue at' (hperm.mem_iff.mp (List.mem_cons_of_mem _ hq))
      exact ⟨d, hgrow.kept _ _ hd⟩
    · exact hq
  · intro at' depth' hat'
    rcases hgrow.fresh at' depth' hat' with hold | hnew
    · by_cases e : at' = pc
      · subst e
        obtain rfl : depth' = depth := Option.some.inj (hold.symm.trans hd)
        exact .inr hreached
      · rcases hsettled at' depth' hold with hw | hr
        · refine .inl (hgrow.queued at' ?_)
          exact (List.mem_cons.1 (hperm.mem_iff.mpr hw)).resolve_left e
        · exact .inr (hr.mono hgrow.kept hgrow.max)
    · exact .inl hnew
  · have hpending := hgrow.pending
    have hlength := hperm.length_eq
    simp only [Progress.pending, List.length_cons] at hpending hlength ⊢
    omega

/-- Visits the queued positions in any order: before each visit `order` arranges the queue. -/
def exploreIn (order : Nat → Progress → List Nat) (code : Code) (sites : List SiteSpec) :
    Nat → Progress → Except Fault Progress
  | 0, p => .ok p
  | fuel + 1, p =>
    match order fuel p with
    | [] => .ok p
    | pc :: queue => do
      let p ← step code sites pc { p with queue }
      exploreIn order code sites fuel p

/-- The work list takes the queue as it stands. -/
theorem explore_eq (fuel : Nat) (p : Progress) :
    explore code sites fuel p = exploreIn (fun _ p => p.queue) code sites fuel p := by
  induction fuel generalizing p with
  | zero => rfl
  | succ fuel ih =>
    simp only [explore, exploreIn]
    cases p.queue with
    | nil => rfl
    | cons pc queue => exact bind_congr ih

/-- With fuel for all that is left to do, the queue is empty in the end and every depth fits. -/
theorem exploreIn_spec {order : Nat → Progress → List Nat} (horder : ∀ k p, (order k p).Perm p.queue)
    {fuel : Nat} (hsize : p.depths.size = code.instructions.size + 1)
    (hfits : ∀ h ∈ code.handlers, handlerFits code h = true) (hqueue : Queued p)
    (hsettled : Settled code sites p) (hfuel : p.pending < fuel)
    (h : exploreIn order code sites fuel p = .ok q) :
    (∀ pc depth, p.depthAt pc = some depth → q.depthAt pc = some depth) ∧
      ∀ pc depth, q.depthAt pc = some depth → Reached code sites q.depthAt q.max pc depth := by
  induction fuel generalizing p with
  | zero => omega
  | succ fuel ih =>
      have hperm := horder fuel p
      simp only [exploreIn] at h
      split at h
      · rename_i hnil
        obtain rfl := Except.ok.inj h
        have hempty : p.queue = [] := List.nil_perm.mp (hnil ▸ hperm)
        refine ⟨fun _ _ h => h, ?_⟩
        intro pc depth hd
        exact (hsettled pc depth hd).resolve_left (by simp [hempty])
      · rename_i pc queue hcons
        obtain ⟨p', hp', h⟩ := bind_ok h
        have hnext := step_proceeds hsize hfits hqueue hsettled (hcons ▸ hperm) hp'
        obtain ⟨hkept, hall⟩ := ih (hnext.size.trans hsize) hnext.queued hnext.settled
          (by have := hnext.pending; omega) h
        exact ⟨fun _ _ h => hkept _ _ (hnext.kept _ _ h), hall⟩

end Step

/-! ### Surveys -/

variable {m : MethodDef} {p : Progress}

/-- What is found from the start on, with the positions visited in a given order. -/
def surveyIn (order : Nat → Progress → List Nat) (code : Code) (sites : List SiteSpec) : Except Fault Progress := do
  let p ← (Progress.initial code.instructions.size).visit 0 0
  exploreIn order code sites (code.instructions.size + 2) p

/-- Code with room for its parameters and handlers inside it is surveyed in the order of the queue. -/
theorem survey_eq (hlocals : parameterSlots m ≤ code.maxLocals)
    (hfits : ∀ h ∈ code.handlers, handlerFits code h = true) :
    survey m code sites = surveyIn (fun _ p => p.queue) code sites := by
  have hfind : code.handlers.findIdx? (fun h => !handlerFits code h) = none := by
    rw [List.findIdx?_eq_none_iff]
    intro a ha
    simp [hfits a ha]
  simp only [survey, if_neg (Nat.not_lt.2 hlocals), hfind, surveyIn]
  exact bind_congr (explore_eq _)

theorem survey_ok (h : survey m code sites = .ok p) :
    parameterSlots m ≤ code.maxLocals ∧ (∀ h ∈ code.handlers, handlerFits code h = true) ∧
      surveyIn (fun _ p => p.queue) code sites = .ok p := by
  have hsurvey := h
  simp only [survey] at h
  split at h
  · cases h
  · rename_i hlocals
    split at h
    · cases h
    · rename_i hfind
      have hfits : ∀ h ∈ code.handlers, handlerFits code h = true := by
        intro a ha
        simpa using List.findIdx?_eq_none_iff.1 hfind a ha
      rw [survey_eq (by omega) hfits] at hsurvey
      exact ⟨by omega, hfits, hsurvey⟩

theorem depthAt_initial (size pc : Nat) : (Progress.initial size).depthAt pc = none := by
  simp only [Progress.initial, Progress.depthAt, Array.getElem?_replicate]
  split <;> rfl

theorem consistent_of_surveyIn {order : Nat → Progress → List Nat} (horder : ∀ k p, (order k p).Perm p.queue)
    (hfits : ∀ h ∈ code.handlers, handlerFits code h = true) (h : surveyIn order code sites = .ok p) :
    Consistent code sites p.depthAt p.max := by
  obtain ⟨p₀, hp₀, h⟩ := bind_ok h
  have hsize : (Progress.initial code.instructions.size).depths.size
      = code.instructions.size + 1 := by simp [Progress.initial]
  obtain ⟨hgrow, hstart⟩ := Progress.visit_spec (by omega) hp₀
  have hqueued : Queued p₀ := by
    intro pc hpc
    exact (hgrow.waiting pc hpc).resolve_left (by simp [Progress.initial])
  have hsettled : Settled code sites p₀ := by
    intro pc depth hd
    refine .inl ((hgrow.fresh pc depth hd).resolve_left ?_)
    simp [depthAt_initial]
  have hpending : p₀.pending < code.instructions.size + 2 := by
    rw [hgrow.pending]
    simp [Progress.pending, Progress.initial]
  obtain ⟨hkept, hall⟩ :=
    exploreIn_spec horder (hgrow.size.trans hsize) hfits hqueued hsettled hpending h
  exact ⟨hkept 0 0 hstart, hall⟩

theorem consistent_of_survey (h : survey m code sites = .ok p) :
    Consistent code sites p.depthAt p.max := by
  obtain ⟨-, hfits, h⟩ := survey_ok h
  exact consistent_of_surveyIn (fun _ _ => .refl _) hfits h

/-! ### Code with consistent depths is accepted -/

/-- All that was found so far is part of given depths and needs no more than their room. -/
structure Agrees (code : Code) (depths : Depths) (room : Nat) (p : Progress) : Prop where
  size : p.depths.size = code.instructions.size + 1
  part : ∀ pc depth, p.depthAt pc = some depth → depths pc = some depth
  queued : Queued p
  max : p.max ≤ room

namespace Agrees

variable {depths : Depths} {hs : List Handler} {ls : List Label}

theorem reach (h : Agrees code depths room p) (hd : depth ≤ room) :
    Agrees code depths room (p.reach depth) :=
  { h with max := Nat.max_le.2 ⟨h.max, hd⟩ }

theorem visit (h : Agrees code depths room p) (hpc : pc < code.instructions.size)
    (hd : depths pc = some depth) :
    ∃ q, p.visit pc depth = .ok q ∧ Agrees code depths room q := by
  have hlt : pc < p.depths.size := by rw [h.size]; omega
  simp only [Progress.visit]
  split
  · rename_i expected he
    obtain rfl : depth = expected := Option.some.inj (hd.symm.trans (h.part pc expected he))
    exact ⟨p, by simp, h⟩
  · refine ⟨_, rfl, by simp [h.size], ?_, ?_, h.max⟩
    · intro at' depth' hat'
      rw [Progress.depthAt_setIfInBounds hlt] at hat'
      split at hat'
      · rename_i e
        rw [e, ← hat']
        exact hd
      · exact h.part at' depth' hat'
    · intro at' hat'
      simp only [Progress.depthAt_setIfInBounds hlt]
      split
      · exact ⟨depth, rfl⟩
      · rename_i e
        rcases List.mem_append.1 hat' with hq | hq
        · exact h.queued at' hq
        · exact absurd (by simpa using hq) e

theorem visitHandlers (h : Agrees code depths room p)
    (hlt : ∀ h ∈ hs, h.target < code.instructions.size)
    (hhs : ∀ h ∈ hs, h.covers pc = true → h.stackDepth ≤ depth ∧ h.stackDepth + 1 ≤ room ∧
      depths h.target = some (h.stackDepth + 1)) :
    ∃ q, p.visitHandlers pc depth hs = .ok q ∧ Agrees code depths room q := by
  induction hs generalizing p with
  | nil => exact ⟨p, rfl, h⟩
  | cons a hs ih =>
      have hlt' : ∀ h ∈ hs, h.target < code.instructions.size := fun b hb => hlt b (by simp [hb])
      simp only [Progress.visitHandlers]
      split
      · rename_i hc
        obtain ⟨hle, hroom, hd⟩ := hhs a (by simp) hc
        rw [if_neg (by omega)]
        obtain ⟨q, hq, hagree⟩ := (h.reach hroom).visit (hlt a (by simp)) hd
        rw [hq]
        exact ih hagree hlt' fun b hb => hhs b (by simp [hb])
      · exact ih h hlt' fun b hb => hhs b (by simp [hb])

theorem visitTargets (h : Agrees code depths room p) (pc : Nat)
    (hls : ∀ l ∈ ls, ∃ t, code.position? l = some t ∧ t < code.instructions.size ∧
      depths t = some depth) :
    ∃ q, p.visitTargets code pc depth ls = .ok q ∧ Agrees code depths room q := by
  induction ls generalizing p with
  | nil => exact ⟨p, rfl, h⟩
  | cons a ls ih =>
      obtain ⟨t, ht, hlt, hd⟩ := hls a (by simp)
      have htarget : target code pc a = .ok t := by
        simp only [target, ht]
        rw [if_pos (by omega)]
      obtain ⟨q, hq, hagree⟩ := h.visit hlt hd
      simp only [Progress.visitTargets, htarget]
      change ∃ r, (p.visit t depth >>= fun p => p.visitTargets code pc depth ls) = .ok r ∧ _
      rw [hq]
      exact ih hagree fun b hb => hls b (by simp [hb])

/-- One step over code with consistent depths succeeds and finds no other depths. -/
theorem step (h : Agrees code depths room p) (hc : Consistent code sites depths room)
    (hfits : ∀ h ∈ code.handlers, handlerFits code h = true) (hd : p.depthAt pc = some depth) :
    ∃ q, step code sites pc p = .ok q ∧ Agrees code depths room q := by
  obtain ⟨i, popped, pushed, hi, hf⟩ := hc.reached pc depth (h.part pc depth hd)
  have hdepth : ((p.depths[pc]?).join).getD 0 = depth := by
    simp only [Progress.depthAt] at hd
    rw [hd, Option.getD_some]
  have htargets : ∀ h ∈ code.handlers, h.target < code.instructions.size := by
    intro a ha
    have := hfits a ha
    simp only [handlerFits, Bool.and_eq_true, decide_eq_true_eq] at this
    omega
  have hslot : checkSlot code pc i = .ok () := by
    unfold checkSlot
    split
    · rename_i slot hs
      have := hf.slot slot hs
      rw [if_neg (by omega)]
    · rfl
  obtain ⟨p₁, hp₁, h₁⟩ := (h.reach hf.depth_le).visitHandlers htargets hf.handlers
  have hlabels : ∀ l ∈ i.targets, ∃ t, code.position? l = some t ∧ t < code.instructions.size ∧
      depths t = some (depth - popped + pushed) := by
    intro l hl
    obtain ⟨t, ht, hat⟩ := hf.targets l hl
    exact ⟨t, ht, hc.lt_size hat, hat⟩
  obtain ⟨p₂, hp₂, h₂⟩ := (h₁.reach hf.after_le).visitTargets pc hlabels
  have henough := hf.enough
  simp only [Verifier.step, hdepth, hi, hp₁, hslot, hf.delta, if_neg (Nat.not_lt.2 henough)]
  change ∃ q, (Progress.visitTargets code pc (depth - popped + pushed) i.targets
    (p₁.reach (depth - popped + pushed)) >>= fun p =>
      if i.endsBlock = true then pure p else p.visit (pc + 1) (depth - popped + pushed)) = .ok q ∧ _
  rw [hp₂]
  by_cases hb : i.endsBlock = true
  · exact ⟨p₂, by simp [hb, bind, Except.bind, pure, Except.pure], h₂⟩
  · have hnext := hf.next (by simpa using hb)
    obtain ⟨q, hq, h₃⟩ := h₂.visit (hc.lt_size hnext) hnext
    exact ⟨q, by simpa [hb, bind, Except.bind] using hq, h₃⟩

/-- In whatever order the positions are visited, no other depths are found. -/
theorem exploreIn (h : Agrees code depths room p) {order : Nat → Progress → List Nat}
    (horder : ∀ k p, (order k p).Perm p.queue) (fuel : Nat) (hc : Consistent code sites depths room)
    (hfits : ∀ h ∈ code.handlers, handlerFits code h = true) :
    ∃ q, exploreIn order code sites fuel p = .ok q ∧ Agrees code depths room q := by
  induction fuel generalizing p with
  | zero => exact ⟨p, rfl, h⟩
  | succ fuel ih =>
      have hperm := horder fuel p
      simp only [Verifier.exploreIn]
      split
      · exact ⟨p, rfl, h⟩
      · rename_i pc queue hcons
        rw [hcons] at hperm
        obtain ⟨depth, hd⟩ := h.queued pc (hperm.mem_iff.mp List.mem_cons_self)
        have hrest : Agrees code depths room { p with queue } :=
          { h with queued := fun at' hat' => h.queued at' (hperm.mem_iff.mp (List.mem_cons_of_mem _ hat')) }
        obtain ⟨q, hq, hagree⟩ := hrest.step hc hfits hd
        rw [hq]
        exact ih hagree

end Agrees

/-- Code with handlers inside it and consistent depths is surveyed in any order, and no deeper stack is found than
these need. -/
theorem surveyIn_of_consistent {depths : Depths} {order : Nat → Progress → List Nat}
    (horder : ∀ k p, (order k p).Perm p.queue) (hfits : ∀ h ∈ code.handlers, handlerFits code h = true)
    (hc : Consistent code sites depths room) : ∃ p, surveyIn order code sites = .ok p ∧ p.max ≤ room := by
  have hempty : Agrees code depths room (Progress.initial code.instructions.size) := by
    refine ⟨by simp [Progress.initial], ?_, ?_, Nat.zero_le _⟩
    · intro pc depth hd
      rw [depthAt_initial] at hd
      cases hd
    · intro pc hpc
      simp [Progress.initial] at hpc
  obtain ⟨p₀, hp₀, h₀⟩ := hempty.visit (hc.lt_size hc.start) hc.start
  obtain ⟨p, hp, hagree⟩ := h₀.exploreIn horder (code.instructions.size + 2) hc hfits
  refine ⟨p, ?_, hagree.max⟩
  simp only [surveyIn, hp₀]
  exact hp

/-- Code with room for its parameters, handlers inside it and consistent depths is accepted, and the
work list finds no deeper stack than these need. -/
theorem survey_of_consistent {depths : Depths} (hlocals : parameterSlots m ≤ code.maxLocals)
    (hfits : ∀ h ∈ code.handlers, handlerFits code h = true)
    (hc : Consistent code sites depths room) :
    ∃ p, survey m code sites = .ok p ∧ p.max ≤ room := by
  rw [survey_eq hlocals hfits]
  exact surveyIn_of_consistent (fun _ _ => .refl _) hfits hc

/-- The depth the work list gives to a position of the code of a method. -/
def depthAt (m : MethodDef) (code : Code) (sites : List SiteSpec) (pc : Nat) : Option Nat :=
  match survey m code sites with
  | .ok p => p.depthAt pc
  | .error _ => none

theorem checkMethod_ok (hm : m.code = some code) (h : checkMethod m sites = .ok ()) :
    ∃ p, survey m code sites = .ok p ∧ p.max ≤ code.maxStack := by
  simp only [checkMethod, hm] at h
  obtain ⟨needed, hn, h⟩ := bind_ok h
  cases hp : survey m code sites with
  | error e => simp [maxStack, hp, Except.map] at hn
  | ok p =>
      obtain rfl : p.max = needed := by simpa [maxStack, hp, Except.map] using hn
      refine ⟨p, rfl, ?_⟩
      by_cases hlt : code.maxStack < p.max
      · rw [if_pos hlt] at h
        cases h
      · omega

theorem checkMethod_of_checkClass {file : ClassFile} (h : checkClass file = .ok ())
    (hm : m ∈ file.methods) : checkMethod m file.sites = .ok () := by
  unfold checkClass at h
  generalize file.methods = methods at h hm
  induction methods with
  | nil => cases hm
  | cons a methods ih =>
      rw [List.forM] at h
      obtain ⟨⟨⟩, ha, h⟩ := bind_ok h
      rcases List.mem_cons.1 hm with rfl | hm
      · cases hc : checkMethod m file.sites with
        | ok u => rfl
        | error e =>
            rw [hc] at ha
            cases ha
      · exact ih h hm

theorem checkClass_of_checkMethod {file : ClassFile}
    (h : ∀ m ∈ file.methods, checkMethod m file.sites = .ok ()) : checkClass file = .ok () := by
  unfold checkClass
  generalize file.methods = methods at h
  induction methods with
  | nil => rfl
  | cons m rest ih =>
      rw [List.forM, h m (List.mem_cons_self ..)]
      exact ih fun m' hm' => h m' (List.mem_cons_of_mem _ hm')

/-- The depths of a method that the verifier accepted are consistent in the room its code declares. -/
theorem consistent_of_checkClass {file : ClassFile} (h : checkClass file = .ok ())
    (hm : m ∈ file.methods) (hcode : m.code = some code) :
    Consistent code file.sites (depthAt m code file.sites) code.maxStack := by
  obtain ⟨p, hp, hmax⟩ := checkMethod_ok hcode (checkMethod_of_checkClass h hm)
  have hdepth : depthAt m code file.sites = p.depthAt := by
    funext pc
    simp only [depthAt, hp]
  have hc := consistent_of_survey hp
  rw [hdepth]
  exact ⟨hc.start, fun pc depth hd => (hc.reached pc depth hd).mono (fun _ _ h => h) hmax⟩

/-- The verifier accepts the code of a method exactly when some depths are consistent in the room the
code declares. -/
theorem checkMethod_iff (hm : m.code = some code) :
    checkMethod m sites = .ok () ↔
      parameterSlots m ≤ code.maxLocals ∧ (∀ h ∈ code.handlers, handlerFits code h = true) ∧
        ∃ depths, Consistent code sites depths code.maxStack := by
  constructor
  · intro h
    obtain ⟨p, hp, hmax⟩ := checkMethod_ok hm h
    obtain ⟨hlocals, hfits, -⟩ := survey_ok hp
    have hc := consistent_of_survey hp
    exact ⟨hlocals, hfits, p.depthAt, hc.start, fun pc depth hd =>
      (hc.reached pc depth hd).mono (fun _ _ h => h) hmax⟩
  · rintro ⟨hlocals, hfits, depths, hc⟩
    obtain ⟨p, hp, hmax⟩ := survey_of_consistent hlocals hfits hc
    simp only [checkMethod, hm, maxStack, hp, Except.map]
    exact if_neg (Nat.not_lt.2 hmax)

end Verifier

end LispMachine
