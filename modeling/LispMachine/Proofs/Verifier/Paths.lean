import Mathlib.Data.Finset.Lattice.Fold
import Mathlib.Logic.Relation
import LispMachine.Proofs.Verifier.Depths

/-! # Depths along paths

The verifier meets each position once and compares later arrivals with the first.  What it is to find out is
said here without a work list, along the paths of control: from the start at depth zero, each instruction
changes the depth by its effect, and an exception takes control from a covered position to its handler, at the
depth the handler declares and one slot for the exception (`Edge`, `Arrives`).

The main result is that both come to the same (`maxStack_paths`): the verifier gives a depth exactly if no path
breaks a rule (`Breach`, `LacksSite`) and paths to one position agree on the depth, and the depth is the largest
on any path, in whatever order the positions are visited.  One direction goes along a path, with the depths that
were found as the invariant (`Consistent.arrives`); for the other, the depths along paths are themselves
consistent depths (`Sound.consistent`). -/

namespace LispMachine

namespace Effect

/-- The slots on the stack behind an instruction. -/
def after (e : Effect) (depth : Nat) : Nat := depth - e.popped + e.pushed

end Effect

namespace Verifier

variable {code : Code} {sites : List SiteSpec} {m : MethodDef} {pc depth : Nat}

/-! ### Paths -/

/-- How control gets from one position and depth to another. -/
inductive Edge (code : Code) (sites : List SiteSpec) : Nat × Nat → Nat × Nat → Prop where
  | next {pc depth : Nat} {i : Instruction} {e : Effect} (hi : code.instructions[pc]? = some i)
      (heffect : i.effect sites = .ok e) (hneeds : e.needs ≤ depth) (hgoes : i.endsBlock = false) :
      Edge code sites (pc, depth) (pc + 1, e.after depth)
  | branch {pc depth t : Nat} {i : Instruction} {e : Effect} {l : Label} (hi : code.instructions[pc]? = some i)
      (heffect : i.effect sites = .ok e) (hneeds : e.needs ≤ depth) (hl : l ∈ i.targets)
      (ht : code.position? l = some t) (hinside : t ≤ code.instructions.size) :
      Edge code sites (pc, depth) (t, e.after depth)
  | raise {pc depth : Nat} {h : Handler} (hh : h ∈ code.handlers) (hcovers : h.covers pc = true) :
      Edge code sites (pc, depth) (h.target, h.stackDepth + 1)

/-- Some path from the start at depth zero gets to the position at the depth. -/
def Arrives (code : Code) (sites : List SiteSpec) (pc depth : Nat) : Prop :=
  Relation.ReflTransGen (Edge code sites) (0, 0) (pc, depth)

/-- A path must not get to the position at the depth. -/
inductive Breach (code : Code) (sites : List SiteSpec) (pc depth : Nat) : Prop where
  | underflow {i : Instruction} {e : Effect} (hi : code.instructions[pc]? = some i)
      (heffect : i.effect sites = .ok e) (hneeds : depth < e.needs)
  | label {i : Instruction} {l : Label} (hi : code.instructions[pc]? = some i) (hl : l ∈ i.targets)
      (hunplaced : ∀ t, code.position? l = some t → code.instructions.size < t)
  | slot {i : Instruction} {slot : Nat} (hi : code.instructions[pc]? = some i) (hslot : i.slot? = some slot)
      (hrange : code.maxLocals ≤ slot)
  | fallOff (hpc : pc = code.instructions.size)
  | handler {h : Handler} (hh : h ∈ code.handlers) (hcovers : h.covers pc = true)
      (hdepth : depth < h.stackDepth)

/-- The instruction at a position goes through a call site that is not there. -/
def LacksSite (code : Code) (sites : List SiteSpec) (pc : Nat) : Prop :=
  ∃ n, code.instructions[pc]? = some (.invokeDynamic n) ∧ sites.length ≤ n

/-- Only a call through a site that is not there has no effect. -/
theorem effect_error_iff {i : Instruction} :
    (∃ e, i.effect sites = .error e) ↔ ∃ n, i = .invokeDynamic n ∧ sites.length ≤ n := by
  constructor
  · rintro ⟨e, h⟩
    cases i with
    | invokeDynamic n =>
      refine ⟨n, rfl, ?_⟩
      by_contra hlt
      rw [Instruction.effect, List.getElem?_eq_getElem (by omega)] at h
      cases h
    | _ => cases h
  · rintro ⟨n, rfl, hn⟩
    exact ⟨_, by rw [Instruction.effect, List.getElem?_eq_none hn]⟩

/-- No path breaks a rule, and paths to one position agree on the depth. -/
structure Sound (code : Code) (sites : List SiteSpec) : Prop where
  rules : ∀ pc depth, Arrives code sites pc depth → ¬ Breach code sites pc depth
  linked : ∀ pc depth, Arrives code sites pc depth → ¬ LacksSite code sites pc
  agree : ∀ pc depth depth', Arrives code sites pc depth → Arrives code sites pc depth' → depth = depth'

theorem arrives_start : Arrives code sites 0 0 := .refl

theorem Arrives.go {pc' depth' : Nat} (h : Arrives code sites pc depth)
    (hedge : Edge code sites (pc, depth) (pc', depth')) : Arrives code sites pc' depth' :=
  Relation.ReflTransGen.tail h hedge

/-- No path leaves the code and the position right behind it. -/
theorem Arrives.le_size (h : Arrives code sites pc depth)
    (hfits : ∀ h ∈ code.handlers, handlerFits code h = true) : pc ≤ code.instructions.size := by
  cases Relation.ReflTransGen.cases_tail h with
  | inl hstart =>
    cases hstart
    exact Nat.zero_le _
  | inr hlast =>
    obtain ⟨_, -, hedge⟩ := hlast
    cases hedge with
    | next hi =>
      have hlt := (Array.getElem?_eq_some_iff.1 hi).1
      omega
    | branch _ _ _ _ _ hinside => exact hinside
    | raise hh =>
      have hfit := hfits _ hh
      simp only [handlerFits, Bool.and_eq_true, decide_eq_true_eq] at hfit
      omega

/-! ### From consistent depths to paths -/

section Consistent

variable {depths : Depths} {room : Nat}

/-- Paths arrive at the depths that are consistent. -/
theorem Consistent.arrives (hc : Consistent code sites depths room) (h : Arrives code sites pc depth) :
    depths pc = some depth := by
  -- Along the path; the instruction at its end, which fits, hands on the depth.
  suffices ∀ at', Relation.ReflTransGen (Edge code sites) (0, 0) at' → depths at'.1 = some at'.2 from this _ h
  intro at' hpath
  induction hpath with
  | refl => exact hc.start
  | tail _ hedge ih =>
    obtain ⟨i, popped, pushed, hi, hf⟩ := hc.reached _ _ ih
    obtain ⟨e, heffect, -, rfl, rfl⟩ := effect_of_delta hf.delta hf.enough
    cases hedge with
    | next hi' heffect' _ hgoes =>
      obtain rfl := Option.some.inj (hi.symm.trans hi')
      obtain rfl := Except.ok.inj (heffect.symm.trans heffect')
      exact hf.next hgoes
    | branch hi' heffect' _ hl ht _ =>
      obtain rfl := Option.some.inj (hi.symm.trans hi')
      obtain rfl := Except.ok.inj (heffect.symm.trans heffect')
      obtain ⟨t', ht', hdepth⟩ := hf.targets _ hl
      obtain rfl := Option.some.inj (ht.symm.trans ht')
      exact hdepth
    | raise hh hcovers => exact (hf.handlers _ hh hcovers).2.2

/-- No rule is broken where the instruction fits. -/
theorem Consistent.not_breach (hc : Consistent code sites depths room) (hd : depths pc = some depth) :
    ¬ Breach code sites pc depth := by
  obtain ⟨i, popped, pushed, hi, hf⟩ := hc.reached _ _ hd
  intro hbreach
  cases hbreach with
  | underflow hi' heffect hneeds =>
    obtain ⟨e, heffect', hneeds', -⟩ := effect_of_delta hf.delta hf.enough
    obtain rfl := Option.some.inj (hi.symm.trans hi')
    obtain rfl := Except.ok.inj (heffect.symm.trans heffect')
    omega
  | label hi' hl hunplaced =>
    obtain rfl := Option.some.inj (hi.symm.trans hi')
    obtain ⟨t, ht, hdepth⟩ := hf.targets _ hl
    have hlt := hunplaced t ht
    have hinside := hc.lt_size hdepth
    omega
  | slot hi' hslot hrange =>
    obtain rfl := Option.some.inj (hi.symm.trans hi')
    have hlt := hf.slot _ hslot
    omega
  | fallOff hpc =>
    have hlt := hc.lt_size hd
    omega
  | handler hh hcovers hdepth =>
    have hle := (hf.handlers _ hh hcovers).1
    omega

theorem Consistent.sound (hc : Consistent code sites depths room) : Sound code sites where
  rules pc depth h := hc.not_breach (hc.arrives h)
  linked pc depth h := by
    rintro ⟨n, hn, hlacks⟩
    obtain ⟨i, popped, pushed, hi, hf⟩ := hc.reached _ _ (hc.arrives h)
    obtain rfl := Option.some.inj (hi.symm.trans hn)
    obtain ⟨e, heffect, -⟩ := effect_of_delta hf.delta hf.enough
    obtain ⟨e', herror⟩ := effect_error_iff.mpr ⟨n, rfl, hlacks⟩
    rw [heffect] at herror
    cases herror
  agree pc depth depth' h h' := Option.some.inj ((hc.arrives h).symm.trans (hc.arrives h'))

theorem Consistent.le_room (hc : Consistent code sites depths room) (h : Arrives code sites pc depth) :
    depth ≤ room := by
  obtain ⟨_, _, _, _, hf⟩ := hc.reached _ _ (hc.arrives h)
  exact hf.depth_le

end Consistent

/-! ### From paths to consistent depths -/

/-- Control that goes nowhere leaves nothing on the stack. -/
theorem pushed_of_endsBlock {i : Instruction} {e : Effect} (heffect : i.effect sites = .ok e)
    (hends : i.endsBlock = true) (htargets : i.targets = []) : e.pushed = 0 := by
  cases i with
  | goto | lookupSwitch | tableSwitch => simp [Instruction.targets] at htargets
  | throwTop | ret =>
    obtain rfl := Except.ok.inj heffect
    rfl
  | _ => cases hends

open Classical in
/-- The depth at which paths arrive. -/
noncomputable def pathDepths (code : Code) (sites : List SiteSpec) : Depths := fun pc =>
  if h : ∃ depth, Arrives code sites pc depth then some h.choose else none

section Sound

variable {room : Nat}

theorem Sound.pathDepths_iff (hs : Sound code sites) :
    pathDepths code sites pc = some depth ↔ Arrives code sites pc depth := by
  unfold pathDepths
  constructor
  · intro h
    split at h
    · rename_i hex
      obtain rfl := Option.some.inj h
      exact hex.choose_spec
    · cases h
  · intro h
    have hex : ∃ depth, Arrives code sites pc depth := ⟨depth, h⟩
    rw [dif_pos hex, hs.agree pc _ depth hex.choose_spec h]

/-- The instruction at the end of a path fits, in room for all paths. -/
theorem Sound.reached (hs : Sound code sites) (hfits : ∀ h ∈ code.handlers, handlerFits code h = true)
    (hroom : ∀ pc depth, Arrives code sites pc depth → depth ≤ room) (h : Arrives code sites pc depth) :
    Reached code sites (pathDepths code sites) room pc depth := by
  have hrules := hs.rules pc depth h
  have hne : pc ≠ code.instructions.size := fun hpc => hrules (.fallOff hpc)
  have hlt : pc < code.instructions.size := by
    have hle := h.le_size hfits
    omega
  have hi : code.instructions[pc]? = some code.instructions[pc] := Array.getElem?_eq_getElem hlt
  generalize code.instructions[pc] = i at hi
  obtain ⟨e, heffect⟩ : ∃ e, i.effect sites = .ok e := by
    cases heffect : i.effect sites with
    | ok e => exact ⟨e, rfl⟩
    | error err =>
      obtain ⟨n, rfl, hlacks⟩ := effect_error_iff.mp ⟨err, heffect⟩
      exact absurd ⟨n, hi, hlacks⟩ (hs.linked pc depth h)
  have hneeds : e.needs ≤ depth := Nat.le_of_not_lt fun hlt => hrules (.underflow hi heffect hlt)
  obtain ⟨hdelta, henough⟩ := delta_of_effect heffect hneeds
  have hnext : i.endsBlock = false → Arrives code sites (pc + 1) (e.after depth) :=
    fun hgoes => h.go (.next hi heffect hneeds hgoes)
  have htargets : ∀ l ∈ i.targets, ∃ t, code.position? l = some t ∧ Arrives code sites t (e.after depth) := by
    intro l hl
    by_contra hnone
    refine hrules (.label hi hl fun t ht => ?_)
    by_contra hinside
    exact hnone ⟨t, ht, h.go (.branch hi heffect hneeds hl ht (by omega))⟩
  have hhandlers : ∀ b ∈ code.handlers, b.covers pc = true → Arrives code sites b.target (b.stackDepth + 1) :=
    fun b hb hcovers => h.go (.raise hb hcovers)
  -- Behind an instruction the stack is as deep as where control goes next, and empties where it goes nowhere.
  have hafter : e.after depth ≤ room := by
    by_cases hgoes : i.endsBlock = true
    · by_cases hempty : i.targets = []
      · have hle := hroom pc depth h
        have hpushed := pushed_of_endsBlock heffect hgoes hempty
        simp only [Effect.after]
        omega
      · obtain ⟨l, hl⟩ := List.exists_mem_of_ne_nil _ hempty
        obtain ⟨t, -, harrives⟩ := htargets l hl
        exact hroom _ _ harrives
    · exact hroom _ _ (hnext (by simpa using hgoes))
  refine ⟨i, e.popped, e.pushed, hi, hdelta, henough, ?_, hroom pc depth h, hafter, ?_, ?_, ?_⟩
  · intro slot hslot
    by_contra hrange
    exact hrules (.slot hi hslot (by omega))
  · intro l hl
    obtain ⟨t, ht, harrives⟩ := htargets l hl
    exact ⟨t, ht, hs.pathDepths_iff.mpr harrives⟩
  · exact fun hgoes => hs.pathDepths_iff.mpr (hnext hgoes)
  · intro b hb hcovers
    have harrives := hhandlers b hb hcovers
    exact ⟨Nat.le_of_not_lt fun hlt => hrules (.handler hb hcovers hlt), hroom _ _ harrives,
      hs.pathDepths_iff.mpr harrives⟩

/-- The depths along paths are consistent, in room for all paths. -/
theorem Sound.consistent (hs : Sound code sites) (hfits : ∀ h ∈ code.handlers, handlerFits code h = true)
    (hroom : ∀ pc depth, Arrives code sites pc depth → depth ≤ room) :
    Consistent code sites (pathDepths code sites) room where
  start := hs.pathDepths_iff.mpr arrives_start
  reached _ _ hd := hs.reached hfits hroom (hs.pathDepths_iff.mp hd)

/-- There are finitely many positions, with one depth each. -/
theorem Sound.exists_room (hs : Sound code sites) (hfits : ∀ h ∈ code.handlers, handlerFits code h = true) :
    ∃ room, ∀ pc depth, Arrives code sites pc depth → depth ≤ room := by
  refine ⟨(Finset.range (code.instructions.size + 1)).sup fun pc => (pathDepths code sites pc).getD 0, ?_⟩
  intro pc depth h
  have hmem : pc ∈ Finset.range (code.instructions.size + 1) :=
    Finset.mem_range.mpr (Nat.lt_succ_of_le (h.le_size hfits))
  have hle := Finset.le_sup (f := fun pc => (pathDepths code sites pc).getD 0) hmem
  simpa [hs.pathDepths_iff.mpr h] using hle

end Sound

/-! ### The deepest stack -/

/-- The deepest stack found from the start on, with the positions visited in a given order. -/
def maxStackIn (order : Nat → Progress → List Nat) (code : Code) (sites : List SiteSpec) : Except Fault Nat :=
  (surveyIn order code sites).map Progress.max

/-- The largest depth on any path. -/
def IsDeepest (code : Code) (sites : List SiteSpec) (n : Nat) : Prop :=
  (∃ pc, Arrives code sites pc n) ∧ ∀ pc depth, Arrives code sites pc depth → depth ≤ n

theorem IsDeepest.unique {n n' : Nat} (h : IsDeepest code sites n) (h' : IsDeepest code sites n') : n = n' := by
  obtain ⟨pc, hpc⟩ := h.1
  obtain ⟨pc', hpc'⟩ := h'.1
  exact Nat.le_antisymm (h'.2 pc n hpc) (h.2 pc' n' hpc')

section Order

variable {order : Nat → Progress → List Nat} (horder : ∀ k p, (order k p).Perm p.queue)
  (hfits : ∀ h ∈ code.handlers, handlerFits code h = true)

include horder hfits

/-- In any order, a depth is found exactly if all paths are sound. -/
theorem exists_maxStackIn_iff : (∃ n, maxStackIn order code sites = .ok n) ↔ Sound code sites := by
  constructor
  · rintro ⟨n, hn⟩
    cases hsurvey : surveyIn order code sites with
    | error f => simp [maxStackIn, hsurvey, Except.map] at hn
    | ok p => exact (consistent_of_surveyIn horder hfits hsurvey).sound
  · intro hs
    obtain ⟨room, hroom⟩ := hs.exists_room hfits
    obtain ⟨p, hp, -⟩ := surveyIn_of_consistent horder hfits (hs.consistent hfits hroom)
    exact ⟨p.max, by simp [maxStackIn, hp, Except.map]⟩

/-- The depth that is found is no less than any on a path, and no more: the work list needs no room that no path
needs. -/
theorem isDeepest_maxStackIn {n : Nat} (h : maxStackIn order code sites = .ok n) : IsDeepest code sites n := by
  cases hsurvey : surveyIn order code sites with
  | error f => simp [maxStackIn, hsurvey, Except.map] at h
  | ok p =>
    obtain rfl : p.max = n := by simpa [maxStackIn, hsurvey, Except.map] using h
    have hc := consistent_of_surveyIn horder hfits hsurvey
    have hbound : ∀ room, (∀ pc depth, Arrives code sites pc depth → depth ≤ room) → p.max ≤ room := by
      intro room hroom
      obtain ⟨p', hp', hle⟩ := surveyIn_of_consistent horder hfits (hc.sound.consistent hfits hroom)
      obtain rfl : p = p' := Except.ok.inj (hsurvey.symm.trans hp')
      exact hle
    refine ⟨?_, fun pc depth => hc.le_room⟩
    by_contra hnone
    -- Were no path that deep, one slot less would be room enough.
    have hpos : 0 < p.max := Nat.pos_of_ne_zero fun hzero => hnone ⟨0, hzero.symm ▸ arrives_start⟩
    have hless := hbound (p.max - 1) fun pc depth harrives => by
      have hle := hc.le_room harrives
      have hne : depth ≠ p.max := fun heq => hnone ⟨pc, heq ▸ harrives⟩
      omega
    omega

end Order

/-- The verifier gives a depth exactly if no path breaks a rule or lacks a call site and paths to one position agree
on the depth; it is the largest on any path; and any order of visiting the positions gives the same. -/
theorem maxStack_paths (hlocals : parameterSlots m ≤ code.maxLocals)
    (hfits : ∀ h ∈ code.handlers, handlerFits code h = true) :
    ((∃ n, maxStack m code sites = .ok n) ↔ Sound code sites) ∧
    (∀ n, maxStack m code sites = .ok n → IsDeepest code sites n) ∧
    ∀ order : Nat → Progress → List Nat, (∀ k p, (order k p).Perm p.queue) →
      ∀ n, maxStackIn order code sites = .ok n ↔ maxStack m code sites = .ok n := by
  have hown : maxStack m code sites = maxStackIn (fun _ p => p.queue) code sites := by
    rw [maxStack, survey_eq hlocals hfits, maxStackIn]
  have hqueue : ∀ (_ : Nat) (p : Progress), p.queue.Perm p.queue := fun _ _ => .refl _
  rw [hown]
  refine ⟨exists_maxStackIn_iff hqueue hfits, fun _ => isDeepest_maxStackIn hqueue hfits, ?_⟩
  -- Two orders find a depth or neither does, and what they find is the largest.
  have hsame : ∀ {o o' : Nat → Progress → List Nat}, (∀ k p, (o k p).Perm p.queue) →
      (∀ k p, (o' k p).Perm p.queue) → ∀ n, maxStackIn o code sites = .ok n →
        maxStackIn o' code sites = .ok n := by
    intro o o' ho ho' n hn
    obtain ⟨n', hn'⟩ := (exists_maxStackIn_iff ho' hfits).mpr ((exists_maxStackIn_iff ho hfits).mp ⟨n, hn⟩)
    rw [hn', (isDeepest_maxStackIn ho hfits hn).unique (isDeepest_maxStackIn ho' hfits hn')]
  exact fun order horder n => ⟨hsame horder hqueue n, hsame hqueue horder n⟩

/-- A loop under a handler: the exception is dropped behind it. -/
def guardedLoop : Code :=
  { instructions := #[.const .nil, .dup, .pop, .pop, .goto 0, .pop, .ret .void]
    labels := #[some 0]
    handlers := [⟨1, 3, 5, none, 0⟩]
    maxStack := 2 }

/-- A method without parameters. -/
def plainMethod : MethodDef :=
  { name := "run", params := [], paramNames := [], ret := .void, isStatic := true, isVariadic := false, code := none }

theorem maxStack_paths_guardedLoop :
    parameterSlots plainMethod ≤ guardedLoop.maxLocals ∧
      (∀ h ∈ guardedLoop.handlers, handlerFits guardedLoop h = true) ∧
      Sound guardedLoop [] ∧ IsDeepest guardedLoop [] 2 ∧
      maxStackIn (fun _ p => p.queue.reverse) guardedLoop [] = .ok 2 := by
  have hlocals : parameterSlots plainMethod ≤ guardedLoop.maxLocals := by decide
  have hfits : ∀ h ∈ guardedLoop.handlers, handlerFits guardedLoop h = true := by decide
  have hdepth : maxStack plainMethod guardedLoop [] = .ok 2 := by rfl
  obtain ⟨hsound, hdeepest, horder⟩ :=
    @maxStack_paths guardedLoop [] plainMethod hlocals hfits
  exact ⟨hlocals, hfits, hsound.mp ⟨2, hdepth⟩, hdeepest 2 hdepth,
    (horder _ (fun _ p => p.queue.reverse_perm) 2).mpr hdepth⟩

/-- Code that goes through a call site of a class without any. -/
def unlinkedCall : Code := { instructions := #[.invokeDynamic 0, .ret .void] }

/-- Where a call site is missing no path breaks a rule, as none goes on, and yet the code is refused. -/
theorem unlinkedCall_refused :
    parameterSlots plainMethod ≤ unlinkedCall.maxLocals ∧
      (∀ h ∈ unlinkedCall.handlers, handlerFits unlinkedCall h = true) ∧
      (∀ pc depth, Arrives unlinkedCall [] pc depth → ¬ Breach unlinkedCall [] pc depth) ∧
      (∀ pc depth depth', Arrives unlinkedCall [] pc depth → Arrives unlinkedCall [] pc depth' → depth = depth') ∧
      ¬ ∃ n, maxStack plainMethod unlinkedCall [] = .ok n := by
  have hfirst : unlinkedCall.instructions[0]? = some (Instruction.invokeDynamic 0) := rfl
  have hstuck : ∀ at', ¬ Edge unlinkedCall [] (0, 0) at' := by
    intro at' hedge
    cases hedge with
    | next hi heffect =>
      obtain rfl := Option.some.inj (hfirst.symm.trans hi)
      cases heffect
    | branch hi heffect =>
      obtain rfl := Option.some.inj (hfirst.symm.trans hi)
      cases heffect
    | raise hh => cases hh
  have hstart : ∀ pc depth, Arrives unlinkedCall [] pc depth → pc = 0 ∧ depth = 0 := by
    intro pc depth h
    rcases Relation.ReflTransGen.cases_head h with heq | ⟨at', hedge, -⟩
    · cases heq
      exact ⟨rfl, rfl⟩
    · exact absurd hedge (hstuck at')
  refine ⟨by decide, by decide, ?_, ?_, ?_⟩
  · intro pc depth h hbreach
    obtain ⟨rfl, rfl⟩ := hstart pc depth h
    cases hbreach with
    | underflow hi heffect =>
      obtain rfl := Option.some.inj (hfirst.symm.trans hi)
      cases heffect
    | label hi hl =>
      obtain rfl := Option.some.inj (hfirst.symm.trans hi)
      cases hl
    | slot hi hslot =>
      obtain rfl := Option.some.inj (hfirst.symm.trans hi)
      cases hslot
    | fallOff hpc => cases hpc
    | handler hh => cases hh
  · intro pc depth depth' h h'
    rw [(hstart pc depth h).2, (hstart pc depth' h').2]
  · rintro ⟨n, hn⟩
    cases hn

end Verifier

end LispMachine
