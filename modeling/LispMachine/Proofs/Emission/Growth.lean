import LispMachine.Proofs.Emission.Layout
import LispMachine.Proofs.Emission.View

/-! # How code grows

`Grown T v₀ k v` says what has been emitted between two views: code that flows, with `k` slots on top of
a base that is never gone below.  How labels still open, holes still unfilled and what surrounds the form
come into it is kept in the terms `T`.  Each step of emission has a lemma that takes `Grown` one step
further; a whole form is `Compiled`, with one value more on the stack than before. -/

namespace LispMachine.Emission

open CodeBuffer (Item PendingHandler)

/-! ### Valid views -/

/-- The method at work, `level` deep and with some slots, can load a binding. -/
def Stored (slots level : Nat) (f : ScopeFrame) (b : Binding) : Prop :=
  if f.level < level ∨ f.kind = .closure then 0 < slots
  else
    match b.slot with
    | .local n => n < slots
    | .none => True
    | _ => 0 < slots

theorem Stored.mono {slots slots' level : Nat} {f : ScopeFrame} {b : Binding}
    (h : Stored slots level f b) (hle : slots ≤ slots') : Stored slots' level f b := by
  unfold Stored at h ⊢
  split
  · rename_i hc
    rw [if_pos hc] at h
    omega
  · rename_i hc
    rw [if_neg hc] at h
    split <;> simp_all <;> omega

/-- What holds between any two steps of emission. -/
structure Valid (v : View) : Prop where
  working : v.methods ≠ []
  steady : Steady v.stack
  orderly : Orderly v.code
  free : ∀ n ∈ v.code.freeSlots, n < v.code.nextSlot
  stored : ∀ f ∈ v.scopes.frames, ∀ b ∈ f.bindings, Stored v.code.nextSlot v.methods.length f b
  levels : ∀ f ∈ v.scopes.frames, f.level ≤ v.methods.length
  loops : ∀ head slots d, .compiled head slots d ∈ v.loops → ∀ q ∈ slots, q.1 < v.code.nextSlot

/-- Another method at work, with as many slots at least. -/
theorem Valid.update {v : View} (h : Valid v) {m : MethodContext} (hsteady : Steady m.stack)
    (horderly : Orderly m.code) (hfree : ∀ n ∈ m.code.freeSlots, n < m.code.nextSlot)
    (hslots : v.code.nextSlot ≤ m.code.nextSlot) : Valid (v.update m) := by
  have hlength : (v.update m).methods.length = v.methods.length := by
    rw [View.methods_eq h.working]
    rfl
  refine ⟨by simp, hsteady, horderly, hfree, ?_, ?_, ?_⟩
  · intro f hf b hb
    rw [hlength]
    exact (h.stored f hf b hb).mono hslots
  · rw [hlength]
    exact h.levels
  · exact fun head slots d hmem q hq => Nat.lt_of_lt_of_le (h.loops head slots d hmem q hq) hslots

theorem View.live_of_reach {v : View} {x : Nat} (h : v.reach = some x) :
    v.stack.isUnreachable = false ∧ v.widths.sum = x := by
  cases hd : v.stack.isUnreachable with
  | true => simp [View.reach, reach_of_dead hd] at h
  | false =>
      rw [View.reach, reach_of_live hd] at h
      exact ⟨rfl, Option.some.inj h⟩

theorem View.reach_of_live {v : View} (h : v.stack.isUnreachable = false) :
    v.reach = some v.widths.sum := Emission.reach_of_live h

/-! ### What does not change -/

/-- A class being emitted has got more call sites, and may have got more captures. -/
structure Widened (c c' : ClassContext) : Prop where
  file : c'.file = { c.file with sites := c'.file.sites }
  sites : c.file.sites <+: c'.file.sites

theorem Widened.refl (c : ClassContext) : Widened c c := ⟨rfl, List.prefix_refl _⟩

theorem Widened.trans {a b c : ClassContext} (h : Widened a b) (h' : Widened b c) : Widened a c := by
  refine ⟨?_, h.sites.trans h'.sites⟩
  rw [h'.file, h.file]

/-- What of an earlier view is still there, unchanged. -/
structure Since (v₀ v : View) : Prop where
  outer : v.methods.tail = v₀.methods.tail
  owner : v.work.owner = v₀.work.owner
  size : v.classes.size = v₀.classes.size
  classes : ∀ i c, v₀.classes[i]? = some c →
    ∃ c', v.classes[i]? = some c' ∧ Widened c c' ∧ (i ≠ v₀.work.owner → c' = c)
  max_le : v₀.stack.max ≤ v.stack.max
  slots_le : v₀.code.nextSlot ≤ v.code.nextSlot
  labels_le : v₀.code.labels ≤ v.code.labels
  items : v₀.code.items.toList <+: v.code.items.toList
  placed : ∀ l < v₀.code.labels, l ∈ labelsOf v.code.items.toList → l ∈ labelsOf v₀.code.items.toList
  holes_le : v₀.code.holes.size ≤ v.code.holes.size
  holes : ∀ h < v₀.code.holes.size, v.code.holes[h]? = v₀.code.holes[h]?
  dead : v₀.reach = none → v.reach = none

namespace Since

variable {u v w : View}

theorem refl (v : View) : Since v v where
  outer := rfl
  owner := rfl
  size := rfl
  classes := fun _ c hc => ⟨c, hc, .refl c, fun _ => rfl⟩
  max_le := Nat.le_refl _
  slots_le := Nat.le_refl _
  labels_le := Nat.le_refl _
  items := List.prefix_refl _
  placed := fun _ _ h => h
  holes_le := Nat.le_refl _
  holes := fun _ _ => rfl
  dead := id

theorem trans (h : Since u v) (h' : Since v w) : Since u w where
  outer := h'.outer.trans h.outer
  owner := h'.owner.trans h.owner
  size := h'.size.trans h.size
  classes := by
    intro i c hc
    obtain ⟨c₁, hc₁, hw₁, he₁⟩ := h.classes i c hc
    obtain ⟨c₂, hc₂, hw₂, he₂⟩ := h'.classes i c₁ hc₁
    refine ⟨c₂, hc₂, hw₁.trans hw₂, ?_⟩
    intro hi
    rw [he₂ (by rwa [h.owner]), he₁ hi]
  max_le := Nat.le_trans h.max_le h'.max_le
  slots_le := Nat.le_trans h.slots_le h'.slots_le
  labels_le := Nat.le_trans h.labels_le h'.labels_le
  items := h.items.trans h'.items
  placed := fun l hl hmem =>
    h.placed l hl (h'.placed l (Nat.lt_of_lt_of_le hl h.labels_le) hmem)
  holes_le := Nat.le_trans h.holes_le h'.holes_le
  holes := by
    intro i hi
    rw [h'.holes i (Nat.lt_of_lt_of_le hi h.holes_le), h.holes i hi]
  dead := h'.dead ∘ h.dead

theorem sites (h : Since u v) : u.sites <+: v.sites := by
  cases hc : u.classes[u.work.owner]? with
  | none => simp [View.sites, hc]
  | some c =>
      obtain ⟨c', hc', hw, -⟩ := h.classes _ c hc
      rw [View.sites_eq hc, View.sites_eq (h.owner ▸ hc')]
      exact hw.sites

end Since

/-! ### Terms -/

/-- The part of the code between two labels, where nothing goes below a depth. -/
structure Region where
  first : Label
  last : Label
  depth : Nat

/-- What is open while code grows, and what surrounds it. -/
structure Terms where
  /-- What is taken for granted of the finished method. -/
  holds : Blueprint → Prop
  /-- Labels whose depth is taken for granted. -/
  labels : List Label := []
  /-- Labels that stand nowhere yet. -/
  pending : List Label := []
  /-- Holes whose filling is taken for granted. -/
  holes : List Hole := []
  /-- Parts of the code that handlers can be put up for. -/
  regions : List Region := []
  /-- The widths nothing goes below. -/
  base : List Nat
  scopes : Scopes
  loops : List LoopTarget
  tail : Bool

/-- A blueprint fits what has been emitted; about open holes it says nothing yet. -/
structure Covers (p : Blueprint) (first : Hole) (opened : List Hole) (v : View) : Prop where
  sites : v.sites <+: p.sites
  room : v.stack.max ≤ p.room
  locals : v.code.nextSlot ≤ p.locals
  filling : ∀ h, first ≤ h → h < v.code.holes.size → h ∉ opened →
    p.filling h = (v.code.holes[h]?).getD []

theorem Covers.mono {p : Blueprint} {first first' : Hole} {opened opened' : List Hole} {v w : View}
    (h : Covers p first opened w) (hs : Since v w) (hfirst : first ≤ first')
    (hopened : ∀ h, first' ≤ h → h < v.code.holes.size → h ∈ opened → h ∈ opened') :
    Covers p first' opened' v where
  sites := hs.sites.trans h.sites
  room := Nat.le_trans hs.max_le h.room
  locals := Nat.le_trans hs.slots_le h.locals
  filling := by
    intro i hi hlt hmem
    have hfill := h.filling i (Nat.le_trans hfirst hi) (Nat.lt_of_lt_of_le hlt hs.holes_le)
      (fun hin => hmem (hopened i hi hlt hin))
    rw [hfill, hs.holes i hlt]

/-- The code emitted between two views flows, its handlers have their ranges and keep what is below the base, and
the regions are in it. -/
def Flows (p : Blueprint) (T : Terms) (v₀ v : View) : Prop :=
  ∃ seg hs, v.code.items.toList = v₀.code.items.toList ++ seg ∧
    v.code.handlers.toList = v₀.code.handlers.toList ++ hs ∧
    (∀ lo, (v₀.reach ≠ none → lo ≤ T.base.sum) → Flow p lo v₀.reach seg v.reach) ∧
    (∀ h ∈ hs, Guarded p seg h ∧ v₀.reach ≠ none ∧ T.base.sum ≤ h.stackDepth) ∧
    ∀ r ∈ T.regions, Ranged p seg r.first r.last r.depth

/-- What has been emitted between two views, `k` slots above the base. -/
structure Grown (T : Terms) (v₀ : View) (k : Nat) (v : View) : Prop where
  valid : Valid v
  since : Since v₀ v
  based : v.reach = none ∨ Over T.base k v.widths
  scopes : v.scopes = T.scopes
  loops : v.loops = T.loops
  tail : v.tail = T.tail
  labels_lt : ∀ l ∈ T.labels, l < v.code.labels
  pending_lt : ∀ l ∈ T.pending, l < v.code.labels
  unplaced : ∀ l ∈ T.pending, l ∉ labelsOf v.code.items.toList
  holes_lt : ∀ h ∈ T.holes, h < v.code.holes.size
  plan : ∃ depths : Label → Option Nat, ∀ p : Blueprint,
    (∀ l, v₀.code.labels ≤ l → l < v.code.labels → l ∉ T.labels → p.depthOf l = depths l) →
    Covers p v₀.code.holes.size T.holes v → T.holds p → Flows p T v₀ v

/-! ### Buffers stay orderly -/

section Buffers

variable {b : CodeBuffer}

theorem Orderly.push (h : Orderly b) (i : Instruction) : Orderly (b.push i) := by
  obtain ⟨hnodup, hlt, hholes⟩ := h
  refine ⟨?_, ?_, ?_⟩ <;> simpa [CodeBuffer.push]

theorem Orderly.newLabel (h : Orderly b) : Orderly b.newLabel.2 :=
  ⟨h.labels_nodup, fun l hl => Nat.lt_succ_of_lt (h.labels_lt l hl), h.holes⟩

theorem Orderly.place (h : Orderly b) {l : Label} (hlt : l < b.labels)
    (hnew : l ∉ labelsOf b.items.toList) : Orderly (b.place l) := by
  obtain ⟨hnodup, hlts, hholes⟩ := h
  refine ⟨?_, ?_, ?_⟩
  · rw [CodeBuffer.place, Array.toList_push, labelsOf_append, List.nodup_append]
    refine ⟨hnodup, by simp, ?_⟩
    rintro a ha c hc rfl
    rw [labelsOf_label, labelsOf_nil, List.mem_singleton] at hc
    exact hnew (hc ▸ ha)
  · intro l' hl'
    rw [CodeBuffer.place, Array.toList_push, labelsOf_append, List.mem_append] at hl'
    rcases hl' with hl' | hl'
    · exact hlts l' hl'
    · rw [labelsOf_label, labelsOf_nil, List.mem_singleton] at hl'
      exact hl' ▸ hlt
  · simpa [CodeBuffer.place] using hholes

end Buffers

/-! ### Emitted instructions -/

section Emitted

variable {v : View} {i : Instruction} {e : Effect} {stack : TypeStack}

/-- More call sites do not change the effect of an instruction. -/
theorem effect_mono {sites sites' : List SiteSpec} (h : sites <+: sites')
    (he : i.effect sites = .ok e) : i.effect sites' = .ok e := by
  cases i with
  | invokeDynamic n =>
      simp only [Instruction.effect] at he ⊢
      cases hn : sites[n]? with
      | none =>
          rw [hn] at he
          cases he
      | some spec =>
          obtain ⟨rest, rfl⟩ := h
          have hlt := (List.getElem?_eq_some_iff.1 hn).1
          rw [List.getElem?_append_left hlt, hn]
          rwa [hn] at he
  | _ => exact he

theorem reach_pushUnreachable (s : TypeStack) : reach s.pushUnreachable = none :=
  reach_of_dead (by simp [TypeStack.isUnreachable, TypeStack.pushUnreachable])

theorem Steady.pushUnreachable {s : TypeStack} (h : s.depth ≤ s.max) : Steady s.pushUnreachable where
  depth_le := by simpa [TypeStack.depth, slots_eq, TypeStack.pushUnreachable, StackRecord.width]
  dead := fun _ => rfl

theorem Steady.of_live {s : TypeStack} (hlive : s.isUnreachable = false) (h : s.depth ≤ s.max) :
    Steady s :=
  ⟨h, fun hdead => by rw [hlive] at hdead; cases hdead⟩

/-- The depth behind an emitted instruction. -/
theorem reach_emitted (ha : Applied v.stack e stack) :
    (v.emitted i stack).reach = exitOf i v.widths.sum e := by
  obtain ⟨rest, hs, ht⟩ := ha.widths
  cases hends : i.endsBlock with
  | true => simp [View.emitted, exitOf, hends, reach_pushUnreachable]
  | false =>
      simp only [View.emitted, exitOf, hends, View.reach_update, Bool.false_eq_true, if_false]
      rw [reach_of_live ha.live, ← sum_widths, ht]
      simp only [View.widths, hs, afterEffect, List.sum_append_nat, sum_operands, sum_results]
      congr 1
      omega

theorem max_emitted : (v.emitted i stack).stack.max = stack.max := by
  cases hends : i.endsBlock <;> simp [View.emitted, hends, TypeStack.pushUnreachable]

theorem valid_emitted (h : Valid v) (ha : Applied v.stack e stack) : Valid (v.emitted i stack) := by
  refine h.update ?_ (h.orderly.push i) h.free (Nat.le_refl _)
  have hdepth := ha.depth_le h.steady.depth_le
  cases hends : i.endsBlock with
  | true => simpa [hends] using Steady.pushUnreachable hdepth
  | false => simpa [hends] using Steady.of_live ha.live hdepth

theorem since_emitted (ha : Applied v.stack e stack) (hlive : v.stack.isUnreachable = false) :
    Since v (v.emitted i stack) :=
  { Since.refl v with
    outer := rfl
    owner := rfl
    max_le := by
      rw [max_emitted]
      exact ha.max_le
    items := by simp [View.emitted, CodeBuffer.push]
    placed := by
      intro l _ hl
      simpa [View.emitted, CodeBuffer.push] using hl
    dead := by
      intro hdead
      rw [View.reach_of_live hlive] at hdead
      cases hdead }

end Emitted

/-! ### Steps -/

namespace Grown

variable {T : Terms} {v₀ v t : View} {k k' : Nat}

/-- A valid view is where growing starts. -/
theorem start (hvalid : Valid v) (hover : v.reach = none ∨ Over T.base k v.widths)
    (hscopes : v.scopes = T.scopes) (hloops : v.loops = T.loops) (htail : v.tail = T.tail)
    (hlabels : T.labels = []) (hpending : T.pending = []) (hholes : T.holes = [])
    (hregions : T.regions = []) : Grown T v k v where
  valid := hvalid
  since := .refl v
  based := hover
  scopes := hscopes
  loops := hloops
  tail := htail
  labels_lt := by simp [hlabels]
  pending_lt := by simp [hpending]
  unplaced := by simp [hpending]
  holes_lt := by simp [hholes]
  plan := ⟨fun _ => none, fun p _ _ _ =>
    ⟨[], [], by simp, by simp, fun _ _ => .nil, by simp, by simp [hregions]⟩⟩

theorem methods_ne (g : Grown T v₀ k v) : v.methods ≠ [] := g.valid.working

/-- Where control gets, the depth is that of the base and what stands above it. -/
theorem reach_eq (g : Grown T v₀ k v) (hlive : v.stack.isUnreachable = false) :
    v.reach = some (T.base.sum + k) := by
  rw [View.reach_of_live hlive]
  rcases g.based with hdead | hover
  · rw [View.reach_of_live hlive] at hdead
    cases hdead
  · rw [hover.sum]

theorem over_of_live (g : Grown T v₀ k v) (hlive : v.stack.isUnreachable = false) :
    Over T.base k v.widths := by
  rcases g.based with hdead | hover
  · rw [View.reach_of_live hlive] at hdead
    cases hdead
  · exact hover

/-- Where control gets, it got to the start. -/
theorem start_live (g : Grown T v₀ k v) (hlive : v.stack.isUnreachable = false) : v₀.reach ≠ none := by
  intro hdead
  have hv := g.since.dead hdead
  rw [View.reach_of_live hlive] at hv
  cases hv

/-- Where control does not get, it does not matter what stands above the base. -/
theorem of_dead (g : Grown T v₀ k v) (hdead : v.reach = none) : Grown T v₀ k' v :=
  { g with based := .inl hdead }

/-- One more piece of code, without new labels.  Holes in it may be left open. -/
theorem extend (g : Grown T v₀ k v) {opened : List Hole} (hvalid : Valid t) (hsince : Since v₀ t)
    (hover : t.reach = none ∨ Over T.base k' t.widths) (hscopes : t.scopes = v.scopes)
    (hloops : t.loops = v.loops) (htail : t.tail = v.tail) (hlabels : t.code.labels = v.code.labels)
    (hholes : ∀ h ∈ opened, h < t.code.holes.size)
    (hcovers : ∀ p, Covers p v₀.code.holes.size opened t → Covers p v₀.code.holes.size T.holes v)
    (hhandlers : t.code.handlers = v.code.handlers)
    (hflow : ∀ p, Covers p v₀.code.holes.size opened t → T.holds p →
      ∃ seg, t.code.items.toList = v.code.items.toList ++ seg ∧
        ∀ lo, (v₀.reach ≠ none → lo ≤ T.base.sum) → Flow p lo v.reach seg t.reach)
    (hplaced : labelsOf t.code.items.toList = labelsOf v.code.items.toList) :
    Grown { T with holes := opened } v₀ k' t where
  valid := hvalid
  since := hsince
  based := hover
  scopes := hscopes.trans g.scopes
  loops := hloops.trans g.loops
  tail := htail.trans g.tail
  labels_lt := fun l hl => hlabels ▸ g.labels_lt l hl
  pending_lt := fun l hl => hlabels ▸ g.pending_lt l hl
  unplaced := fun l hl => hplaced ▸ g.unplaced l hl
  holes_lt := hholes
  plan := by
    obtain ⟨depths, hdepths⟩ := g.plan
    refine ⟨depths, ?_⟩
    intro p hp hcov hholds
    obtain ⟨seg, hs, hitems, hhs, hseg, hguard, hregions⟩ :=
      hdepths p (fun l hl hlt => hp l hl (hlabels ▸ hlt)) (hcovers p hcov) hholds
    obtain ⟨more, hmore, hmoreFlow⟩ := hflow p hcov hholds
    refine ⟨seg ++ more, hs, ?_, ?_, ?_, ?_, ?_⟩
    · rw [hmore, hitems, List.append_assoc]
    · rw [hhandlers, hhs]
    · exact fun lo hlo => (hseg lo hlo).append (hmoreFlow lo hlo)
    · exact fun h hh => ⟨(hguard h hh).1.extend [] more, (hguard h hh).2⟩
    · exact fun r hr => (hregions r hr).extend [] more

/-- A step that emits nothing and changes nothing the flow depends on. -/
theorem unchanged (g : Grown T v₀ k v) (hvalid : Valid t) (hsince : Since v t)
    (hwidths : t.widths = v.widths) (hreach : t.reach = v.reach) (hscopes : t.scopes = v.scopes)
    (hloops : t.loops = v.loops) (htail : t.tail = v.tail) (hlabels : t.code.labels = v.code.labels)
    (hitems : t.code.items = v.code.items) (hhandlers : t.code.handlers = v.code.handlers) :
    Grown T v₀ k t := by
  refine g.extend hvalid (g.since.trans hsince) ?_ hscopes hloops htail hlabels
    (fun h hh => Nat.lt_of_lt_of_le (g.holes_lt h hh) hsince.holes_le) ?_ hhandlers ?_ (by rw [hitems])
  · rw [hreach, hwidths]
    exact g.based
  · exact fun p hcov => hcov.mono hsince (Nat.le_refl _) fun _ _ _ h => h
  · intro p _ _
    refine ⟨[], by simp [hitems], ?_⟩
    intro lo _
    rw [hreach]
    exact .nil

/-- An instruction where control gets, with its operands above the base. -/
theorem emitted (g : Grown T v₀ k v) (hlive : v.stack.isUnreachable = false) {i : Instruction}
    {e : Effect} {stack : TypeStack} (he : i.effect v.sites = .ok e) (ha : Applied v.stack e stack)
    (hpopped : e.popped ≤ k) (hslot : ∀ n, i.slot? = some n → n < v.code.nextSlot)
    (htargets : ∀ p, T.holds p → ∀ l ∈ i.targets,
      p.depthOf l = some (T.base.sum + (k - e.popped + e.pushed))) :
    Grown T v₀ (k - e.popped + e.pushed) (v.emitted i stack) := by
  have hover := g.over_of_live hlive
  have hsum := hover.sum
  have hsince := since_emitted (i := i) ha hlive
  refine g.extend (valid_emitted g.valid ha) (g.since.trans hsince) ?_ rfl rfl rfl rfl g.holes_lt
    (fun p hcov => hcov.mono hsince (Nat.le_refl _) fun _ _ _ h => h) rfl ?_
    (by simp [View.emitted, CodeBuffer.push])
  · cases hends : i.endsBlock with
    | true =>
        refine .inl ?_
        rw [reach_emitted ha, exitOf, hends, if_pos rfl]
    | false =>
        obtain ⟨rest, hs, ht⟩ := ha.widths
        refine .inr ?_
        rw [View.widths, hs] at hover
        have hafter := (hover.pop (by rwa [sum_operands])).push (results e)
        rw [sum_operands, sum_results, ← ht] at hafter
        simpa [View.emitted, hends] using hafter
  · intro p hcov hholds
    refine ⟨[.instruction i], by simp [View.emitted, CodeBuffer.push], ?_⟩
    intro lo hlo
    have hfloor := hlo (g.start_live hlive)
    have hroom := hcov.room
    rw [max_emitted] at hroom
    have hafter : afterEffect v.widths.sum e = T.base.sum + (k - e.popped + e.pushed) := by
      rw [afterEffect]
      omega
    have hfit : Fitting p lo v.widths.sum i e := by
      refine ⟨effect_mono (hsince.sites.trans hcov.sites) he, ha.needs, by omega, ?_, ?_, ?_, ?_⟩
      · exact Nat.le_trans g.valid.steady.depth_le (Nat.le_trans ha.max_le hroom)
      · obtain ⟨rest, hs, ht⟩ := ha.widths
        have hdepth := ha.depth_le g.valid.steady.depth_le
        rw [← sum_widths, ht, List.sum_append_nat, sum_results] at hdepth
        rw [View.widths, hs, afterEffect, List.sum_append_nat, sum_operands]
        omega
      · exact fun n hn => Nat.lt_of_lt_of_le (hslot n hn) hcov.locals
      · intro l hl
        rw [hafter]
        exact htargets p hholds l hl
    rw [reach_emitted ha, View.reach_of_live hlive]
    exact .instruction hfit

end Grown

/-! ### Labels -/

/-- The same terms with more taken for granted. -/
def Terms.given (T : Terms) (Q : Blueprint → Prop) : Terms :=
  { T with holds := fun p => T.holds p ∧ Q p }

/-- One more label, which stands nowhere yet. -/
def Terms.fresh (T : Terms) (l : Label) : Terms :=
  { T with labels := l :: T.labels, pending := l :: T.pending }

/-- One more label, of which the depth is taken for granted. -/
def Terms.label (T : Terms) (l : Label) (depth : Option Nat) : Terms :=
  (T.given fun p => p.depthOf l = depth).fresh l

/-- The same terms with these labels left to place. -/
def Terms.await (T : Terms) (pending : List Label) : Terms := { T with pending }

/-- The same terms with something about labels and holes taken for granted that has to be shown yet. -/
def Terms.owing (T : Terms) (Q : Blueprint → Prop) (ls : List Label) (hs : List Hole) : Terms :=
  { T with holds := fun p => T.holds p ∧ Q p, labels := ls ++ T.labels, holes := hs ++ T.holes }

/-- A view with a label at the end of its code, and a stack to go on with from there. -/
def View.labelled (v : View) (l : Label) (stack : TypeStack) : View :=
  v.update { v.work with code := v.code.place l, stack }

namespace Grown

variable {T : Terms} {v₀ v : View} {k : Nat}

theorem given (g : Grown T v₀ k v) (Q : Blueprint → Prop) : Grown (T.given Q) v₀ k v :=
  { g with
    plan := by
      obtain ⟨depths, hdepths⟩ := g.plan
      exact ⟨depths, fun p hp hcov hholds => hdepths p hp hcov hholds.1⟩ }

theorem since_newLabel (v : View) : Since v (v.update { v.work with code := v.code.newLabel.2 }) :=
  { Since.refl v with labels_le := Nat.le_succ _ }

theorem fresh (g : Grown T v₀ k v) :
    Grown (T.fresh v.code.labels) v₀ k (v.update { v.work with code := v.code.newLabel.2 }) where
  valid := g.valid.update g.valid.steady g.valid.orderly.newLabel g.valid.free (Nat.le_refl _)
  since := g.since.trans (since_newLabel v)
  based := g.based
  scopes := g.scopes
  loops := g.loops
  tail := g.tail
  labels_lt := by
    intro l hl
    rcases List.mem_cons.1 hl with rfl | hl
    · exact Nat.lt_succ_self _
    · exact Nat.lt_succ_of_lt (g.labels_lt l hl)
  pending_lt := by
    intro l hl
    rcases List.mem_cons.1 hl with rfl | hl
    · exact Nat.lt_succ_self _
    · exact Nat.lt_succ_of_lt (g.pending_lt l hl)
  unplaced := by
    intro l hl hmem
    rcases List.mem_cons.1 hl with rfl | hl
    · exact Nat.lt_irrefl _ (g.valid.orderly.labels_lt _ hmem)
    · exact g.unplaced l hl hmem
  holes_lt := g.holes_lt
  plan := by
    obtain ⟨depths, hdepths⟩ := g.plan
    refine ⟨depths, ?_⟩
    intro p hp hcov hholds
    refine hdepths p ?_ (hcov.mono (since_newLabel v) (Nat.le_refl _) fun _ _ _ h => h) hholds
    intro l hl hlt hmem
    refine hp l hl (Nat.lt_succ_of_lt hlt) ?_
    rw [Terms.fresh, List.mem_cons, not_or]
    exact ⟨Nat.ne_of_lt hlt, hmem⟩

/-- A new label may be given any depth. -/
theorem newLabel (g : Grown T v₀ k v) (depth : Option Nat) :
    Grown (T.label v.code.labels depth) v₀ k
      (v.update { v.work with code := v.code.newLabel.2 }) := (g.given _).fresh

/-- What was taken for granted of labels and holes is shown from the depths that the labels are given and
from what the holes are filled with. -/
theorem discharge {Q : Blueprint → Prop} {ls : List Label} {hs : List Hole}
    (g : Grown (T.owing Q ls hs) v₀ k v) (depth : Label → Option Nat)
    (hfresh : ∀ l ∈ ls, v₀.code.labels ≤ l) (hnew : ∀ l ∈ ls, l ∉ T.labels)
    (hQ : ∀ p, Covers p v₀.code.holes.size T.holes v → (∀ l ∈ ls, p.depthOf l = depth l) → Q p) :
    Grown T v₀ k v where
  valid := g.valid
  since := g.since
  based := g.based
  scopes := g.scopes
  loops := g.loops
  tail := g.tail
  labels_lt := fun l hl => g.labels_lt l (List.mem_append_right _ hl)
  pending_lt := g.pending_lt
  unplaced := g.unplaced
  holes_lt := fun h hh => g.holes_lt h (List.mem_append_right _ hh)
  plan := by
    obtain ⟨depths, hdepths⟩ := g.plan
    refine ⟨fun l => if l ∈ ls then depth l else depths l, ?_⟩
    intro p hp hcov hholds
    have hls : ∀ l ∈ ls, p.depthOf l = depth l := by
      intro l hl
      exact (hp l (hfresh l hl) (g.labels_lt l (List.mem_append_left _ hl)) (hnew l hl)).trans (if_pos hl)
    refine hdepths p ?_ ?_ ⟨hholds, hQ p hcov hls⟩
    · intro l hl hlt hmem
      have hnot : l ∉ ls ++ T.labels := hmem
      rw [List.mem_append, not_or] at hnot
      exact (hp l hl hlt hnot.2).trans (if_neg hnot.1)
    · exact hcov.mono (.refl v) (Nat.le_refl _) fun _ _ _ hh => List.mem_append_right _ hh

/-- A label whose depth was taken for granted is given that depth. -/
theorem close {l : Label} {depth : Option Nat} {pending : List Label}
    (g : Grown ((T.label l depth).await pending) v₀ k v) (hfresh : v₀.code.labels ≤ l)
    (hnew : l ∉ T.labels) : Grown (T.await pending) v₀ k v := by
  have g' : Grown ((T.await pending).owing (fun p => p.depthOf l = depth) [l] []) v₀ k v := g
  refine g'.discharge (fun _ => depth) ?_ ?_ ?_
  · simpa using hfresh
  · simpa [Terms.await] using hnew
  · exact fun p _ hl => hl l (List.mem_singleton_self l)

/-- Puts a label at the end of the code.  The stack may be replaced by any that has the depth of the
label: control comes to it from elsewhere, or goes on as it was. -/
theorem place (g : Grown T v₀ k v) {l : Label} (stack : TypeStack) {q : List Label} {j : Nat}
    (hl : l ∈ T.pending) (hfresh : v₀.code.labels ≤ l)
    (hpending : ∀ l' ∈ q, l' ∈ T.pending ∧ l' ≠ l) (hsteady : Steady stack)
    (hmax : v.stack.max ≤ stack.max) (hover : reach stack = none ∨ Over T.base j (widths stack))
    (hdead : v₀.reach = none → reach stack = none)
    (hin : v.reach = none ∨ v.reach = reach stack)
    (hdepth : ∀ p, T.holds p → p.depthOf l = reach stack) :
    Grown (T.await q) v₀ j (v.labelled l stack) := by
  have hitems : (v.labelled l stack).code.items.toList = v.code.items.toList ++ [Item.label l] := by
    simp [View.labelled, CodeBuffer.place]
  have hcovers : ∀ p, Covers p v₀.code.holes.size T.holes (v.labelled l stack) →
      Covers p v₀.code.holes.size T.holes v := by
    intro p hcov
    exact ⟨hcov.sites, Nat.le_trans hmax hcov.room, hcov.locals, hcov.filling⟩
  refine ⟨?_, ?_, hover, g.scopes, g.loops, g.tail, g.labels_lt, ?_, ?_, g.holes_lt, ?_⟩
  · exact g.valid.update hsteady (g.valid.orderly.place (g.pending_lt l hl) (g.unplaced l hl))
      g.valid.free (Nat.le_refl _)
  · exact
      { g.since with
        outer := g.since.outer
        owner := g.since.owner
        max_le := Nat.le_trans g.since.max_le hmax
        items := by
          rw [hitems]
          exact g.since.items.trans (List.prefix_append _ _)
        placed := by
          intro l' hl' hmem
          rw [hitems, labelsOf_append, List.mem_append] at hmem
          rcases hmem with hmem | hmem
          · exact g.since.placed l' hl' hmem
          · rw [labelsOf_label, labelsOf_nil, List.mem_singleton] at hmem
            omega
        dead := hdead }
  · exact fun l' hl' => g.pending_lt l' (hpending l' hl').1
  · intro l' hl' hmem
    rw [hitems, labelsOf_append, List.mem_append] at hmem
    rcases hmem with hmem | hmem
    · exact g.unplaced l' (hpending l' hl').1 hmem
    · rw [labelsOf_label, labelsOf_nil, List.mem_singleton] at hmem
      exact (hpending l' hl').2 hmem
  · obtain ⟨depths, hdepths⟩ := g.plan
    refine ⟨depths, ?_⟩
    intro p hp hcov hholds
    obtain ⟨seg, hs, hseg, hhs, hflow, hguard, hregions⟩ := hdepths p hp (hcovers p hcov) hholds
    refine ⟨seg ++ [Item.label l], hs, ?_, hhs, ?_, ?_, ?_⟩
    · rw [hitems, hseg, List.append_assoc]
    · intro lo hlo
      refine (hflow lo hlo).append ?_
      have hl := hdepth p hholds
      rw [View.labelled, View.reach_update, ← hl]
      exact .label (hl.symm ▸ hin)
    · exact fun h hh => ⟨(hguard h hh).1.extend [] _, (hguard h hh).2⟩
    · exact fun r hr => (hregions r hr).extend [] _

end Grown

/-! ### Whole forms -/

/-- A `recur` in tail position meets the head of its loop with the depth it was met with before. -/
def TailOk (p : Blueprint) (v : View) : Prop :=
  v.tail = true → ∀ head slots d rest, v.loops = .compiled head slots d :: rest →
    ∀ x, v.reach = some x → p.depthOf head = some x

/-- What is met with the same depth in the same surroundings is as good for a `recur`. -/
theorem TailOk.transfer {p : Blueprint} {v w : View} (h : TailOk p v) (htail : w.tail = v.tail)
    (hloops : w.loops = v.loops) (hreach : ∀ x, w.reach = some x → v.reach = some x) : TailOk p w := by
  intro ht head slots d rest hl x hx
  exact h (htail ▸ ht) head slots d rest (hloops ▸ hl) x (hreach x hx)

/-- The terms on which a form is compiled. -/
def terms (v : View) : Terms :=
  { holds := fun p => TailOk p v, base := v.widths, scopes := v.scopes, loops := v.loops, tail := v.tail }

/-- One value more is on top of what was there, if control gets here. -/
def Pushed (w : Nat) (v t : View) : Prop := t.reach = none ∨ t.widths = w :: v.widths

/-- A form has been compiled: its value is on top of what was there before. -/
def Compiled (v t : View) : Prop := ∃ w, Grown (terms v) v w t ∧ Pushed w v t

namespace Grown

variable {T T' : Terms} {v₀ v t : View} {k j l : Nat}

theorem ofValid (h : Valid v) : Grown (terms v) v 0 v :=
  .start h (.inr (.refl _)) rfl rfl rfl rfl rfl rfl rfl

/-- Code that has grown from where other code ended. -/
theorem trans (g : Grown T v₀ k v) (g' : Grown T' v l t) (hholds : ∀ p, T.holds p → T'.holds p)
    (hbase : v.reach ≠ none → T.base.sum ≤ T'.base.sum)
    (hover : t.reach = none ∨ Over T.base j t.widths) (hscopes : T'.scopes = T.scopes)
    (hloops : T'.loops = T.loops) (htail : T'.tail = T.tail) : Grown T v₀ j t where
  valid := g'.valid
  since := g.since.trans g'.since
  based := hover
  scopes := g'.scopes.trans hscopes
  loops := g'.loops.trans hloops
  tail := g'.tail.trans htail
  labels_lt := fun l hl => Nat.lt_of_lt_of_le (g.labels_lt l hl) g'.since.labels_le
  pending_lt := fun l hl => Nat.lt_of_lt_of_le (g.pending_lt l hl) g'.since.labels_le
  unplaced := fun l hl hmem => g.unplaced l hl (g'.since.placed l (g.pending_lt l hl) hmem)
  holes_lt := fun h hh => Nat.lt_of_lt_of_le (g.holes_lt h hh) g'.since.holes_le
  plan := by
    obtain ⟨depths, hdepths⟩ := g.plan
    obtain ⟨depths', hdepths'⟩ := g'.plan
    refine ⟨fun l => if l < v.code.labels then depths l else depths' l, ?_⟩
    intro p hp hcov hT
    have hfirst : Flows p T v₀ v := by
      refine hdepths p ?_ (hcov.mono g'.since (Nat.le_refl _) fun _ _ _ h => h) hT
      intro l hl hlt hmem
      exact (hp l hl (Nat.lt_of_lt_of_le hlt g'.since.labels_le) hmem).trans (if_pos hlt)
    have hsecond : Flows p T' v t := by
      refine hdepths' p ?_ ?_ (hholds p hT)
      · intro l hl hlt _
        have hmem : l ∉ T.labels := fun hmem => Nat.lt_irrefl _ (Nat.lt_of_lt_of_le (g.labels_lt l hmem) hl)
        exact (hp l (Nat.le_trans g.since.labels_le hl) hlt hmem).trans (if_neg (Nat.not_lt.2 hl))
      · refine hcov.mono (.refl t) g.since.holes_le ?_
        intro h hh _ hmem
        exact absurd (g.holes_lt h hmem) (Nat.not_lt.2 hh)
    obtain ⟨seg, hs, hitems, hhs, hflow, hguard, hregions⟩ := hfirst
    obtain ⟨seg', hs', hitems', hhs', hflow', hguard', -⟩ := hsecond
    refine ⟨seg ++ seg', hs ++ hs', ?_, ?_, ?_, ?_, ?_⟩
    · rw [hitems', hitems, List.append_assoc]
    · rw [hhs', hhs, List.append_assoc]
    · intro lo hlo
      refine (hflow lo hlo).append (hflow' lo ?_)
      intro hv
      exact Nat.le_trans (hlo fun hdead => hv (g.since.dead hdead)) (hbase hv)
    · intro h hh
      rcases List.mem_append.1 hh with hh | hh
      · exact ⟨(hguard h hh).1.extend [] _, (hguard h hh).2⟩
      · obtain ⟨hguarded, hv, hdepth⟩ := hguard' h hh
        refine ⟨by simpa using hguarded.extend seg [], fun hdead => hv (g.since.dead hdead), ?_⟩
        exact Nat.le_trans (hbase hv) hdepth
    · exact fun r hr => (hregions r hr).extend [] _

/-- Where both views are reached, what stands above the base adds up. -/
theorem over_trans (g : Grown T v₀ k v) (g' : Grown T' v l t) (hbase : T'.base = v.widths) :
    t.reach = none ∨ Over T.base (k + l) t.widths := by
  rcases g.based with hdead | hover
  · exact .inl (g'.since.dead hdead)
  · exact g'.based.imp_right fun hover' => hover.trans (hbase ▸ hover')

theorem base_le (g : Grown T v₀ k v) (hv : v.reach ≠ none) : T.base.sum ≤ v.widths.sum := by
  rcases g.based with hdead | hover
  · exact absurd hdead hv
  · rw [hover.sum]
    exact Nat.le_add_right _ _

/-- More code that has grown from the current view, on terms of its own. -/
theorem append (g : Grown T v₀ k v) (g' : Grown T' v l t) (hholds : ∀ p, T.holds p → T'.holds p)
    (hbase : T'.base = v.widths) (hscopes : T'.scopes = T.scopes) (hloops : T'.loops = T.loops)
    (htail : T'.tail = T.tail) : Grown T v₀ (k + l) t :=
  g.trans g' hholds (fun hv => hbase ▸ g.base_le hv) (g.over_trans g' hbase) hscopes hloops htail

/-- One more form. -/
theorem form (g : Grown T v₀ k v) (h : Compiled v t) (htail : ∀ p, T.holds p → TailOk p v) :
    ∃ w, Grown T v₀ (k + w) t ∧ Pushed w v t := by
  obtain ⟨w, g', hw⟩ := h
  exact ⟨w, g.append g' htail rfl g.scopes g.loops g.tail, hw⟩

/-- Back at the depth of the start, a form in tail position is as good as one at the start. -/
theorem tailOk (g : Grown T v₀ 0 v) (hbase : T.base = v₀.widths) (htail : v.tail = v₀.tail)
    (hloops : v.loops = v₀.loops) {p : Blueprint} (h : TailOk p v₀) : TailOk p v := by
  refine h.transfer htail hloops ?_
  intro x hx
  obtain ⟨hlive, rfl⟩ := View.live_of_reach hx
  have hsum := (g.over_of_live hlive).sum
  rw [hbase, Nat.add_zero] at hsum
  rw [hsum]
  cases hv₀ : v₀.reach with
  | none => exact absurd hv₀ (g.start_live hlive)
  | some x => rw [(View.live_of_reach hv₀).2]

end Grown

/-! ### Steps of emission -/

/-- The width of the top value, if control gets here. -/
def Top (w : Nat) (v : View) : Prop := v.reach = none ∨ v.widths.head? = some w

section Emit

variable {T : Terms} {v₀ : View} {k : Nat} {s t : FormState} {u : Unit}

/-- An instruction, with its operands above the base. -/
theorem Grown.emit {i : Instruction} (g : Grown T v₀ k (view s)) (h : FormM.emit i s = .ok u t)
    {e : Effect} (he : i.effect (view s).sites = .ok e) (hpopped : e.popped ≤ k)
    (hslot : ∀ n, i.slot? = some n → n < (view s).code.nextSlot)
    (htargets : ∀ p, T.holds p → ∀ l ∈ i.targets,
      p.depthOf l = some (T.base.sum + (k - e.popped + e.pushed))) :
    Grown T v₀ (k - e.popped + e.pushed) (view t) := by
  rcases emit_ok h with ⟨hdead, hview⟩ | ⟨hlive, e', stack, he', ha, hview⟩
  · rw [hview]
    exact g.of_dead (reach_of_dead hdead)
  · obtain rfl : e = e' := Except.ok.inj (he.symm.trans he')
    rw [hview]
    exact g.emitted hlive he ha hpopped hslot htargets

/-- Where control gets behind an instruction, its operands were on top and its result is. -/
theorem widths_emit {i : Instruction} (h : FormM.emit i s = .ok u t) {e : Effect}
    (he : i.effect (view s).sites = .ok e) :
    (view t).reach = none ∨ ∃ rest, (view s).widths = operands e ++ rest ∧
      (view t).widths = results e ++ rest := by
  rcases emit_ok h with ⟨hdead, hview⟩ | ⟨hlive, e', stack, he', ha, hview⟩
  · rw [hview]
    exact .inl (reach_of_dead hdead)
  · obtain rfl : e = e' := Except.ok.inj (he.symm.trans he')
    rw [hview]
    cases hends : i.endsBlock with
    | true =>
        refine .inl ?_
        rw [reach_emitted ha, exitOf, hends, if_pos rfl]
    | false =>
        refine .inr ?_
        simpa [View.emitted, hends, View.widths] using ha.widths

/-- What an instruction leaves is on top. -/
theorem top_emit {i : Instruction} (h : FormM.emit i s = .ok u t) {e : Effect}
    (he : i.effect (view s).sites = .ok e) {w : Nat} (hw : results e = [w]) : Top w (view t) := by
  refine (widths_emit h he).imp_right ?_
  rintro ⟨rest, -, ht⟩
  rw [ht, hw]
  rfl

/-- What is known to be on top of the stack is what an instruction takes first. -/
theorem operands_eq {i : Instruction} (h : FormM.emit i s = .ok u t) {e : Effect}
    (he : i.effect (view s).sites = .ok e) {first more ws rest : List Nat}
    (hoperands : operands e = first ++ more) (hws : (view s).widths = ws ++ rest)
    (hlength : ws.length = first.length) : (view s).reach = none ∨ first = ws := by
  rcases emit_ok h with ⟨hdead, -⟩ | ⟨hlive, e', stack, he', ha, -⟩
  · exact .inl (reach_of_dead hdead)
  · obtain rfl : e = e' := Except.ok.inj (he.symm.trans he')
    obtain ⟨rest', hs, -⟩ := ha.widths
    rw [hoperands, List.append_assoc] at hs
    exact .inr (List.append_inj_left (hs.symm.trans hws) hlength.symm)

/-- Nothing follows an instruction that ends a block. -/
theorem reach_emit_ends {i : Instruction} (h : FormM.emit i s = .ok u t) (hends : i.endsBlock = true) :
    (view t).reach = none := by
  rcases emit_ok h with ⟨hdead, hview⟩ | ⟨hlive, e, stack, -, ha, hview⟩
  · rw [hview]
    exact reach_of_dead hdead
  · rw [hview, reach_emitted ha, exitOf, hends, if_pos rfl]

/-- A label at the current position. -/
theorem Grown.here {l : Label} (g : Grown T v₀ k (view s)) (h : FormM.here s = .ok l t) :
    l = (view s).code.labels ∧
      Grown ((T.label l (view s).reach).await T.pending) v₀ k (view t) := by
  obtain ⟨rfl, hview⟩ := onCode_ok h
  refine ⟨rfl, ?_⟩
  have hlabel := (g.newLabel (view s).reach).place (view s).stack (List.mem_cons_self ..) g.since.labels_le
    (q := T.pending) ?_ g.valid.steady (Nat.le_refl _) g.based g.since.dead (.inr rfl)
    (fun p hp => hp.2)
  · rw [hview]
    exact hlabel
  · intro l' hl'
    exact ⟨List.mem_cons_of_mem _ hl', Nat.ne_of_lt (g.pending_lt l' hl')⟩

/-- A label at the current position that nothing goes to. -/
theorem Grown.here_closed {l : Label} (g : Grown T v₀ k (view s)) (h : FormM.here s = .ok l t) :
    Grown T v₀ k (view t) := by
  obtain ⟨rfl, hlabel⟩ := g.here h
  exact hlabel.close g.since.labels_le fun hmem => Nat.lt_irrefl _ (g.labels_lt _ hmem)

end Emit

end LispMachine.Emission
