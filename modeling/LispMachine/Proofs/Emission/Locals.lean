import LispMachine.Proofs.Emission.Forms

/-! # Locals and loops

A local takes the value of its form from the stack into a slot, so that the body starts at the depth of the
form.  The head of a loop has that depth too; a `recur` stores as many values as it has computed, and is back
at it when it jumps. -/

namespace LispMachine.Emission

open Form

section Locals

variable {T : Terms} {v₀ : View} {k a : Nat} {s t : FormState} {u : Unit} {h : Handlers}

/-- The value of a local is converted to the type of the local. -/
theorem Grown.localType (g : Grown T v₀ (k + a) (view s)) (htop : Top a (view s)) {l : LocalInit} {ty : Ty}
    (hrun : localType l s = .ok ty t) : Grown T v₀ (k + ty.width) (view t) := by
  obtain ⟨top, s₁, h₁, hrun⟩ := State.ok_of_bind hrun
  obtain ⟨rfl, rfl⟩ := topType_ok h₁
  rcases g.topType htop with ⟨hnone, hdead⟩ | ⟨inferred, hty, rfl⟩
  · rw [hnone] at hrun
    cases hhint : l.target.hint with
    | none =>
        rw [hhint] at hrun
        cases hrun
        exact g.of_dead hdead
    | some hint =>
        rw [hhint] at hrun
        have hview := aside_resolveHint hint hrun
        rw [hview]
        exact g.of_dead hdead
  · rw [hty] at hrun
    cases hhint : l.target.hint with
    | none =>
        rw [hhint] at hrun
        cases hrun
        exact g
    | some hint =>
        rw [hhint] at hrun
        obtain ⟨hinted, s₁, h₁, hrun⟩ := State.ok_of_bind hrun
        obtain ⟨applies, s₂, h₂, hrun⟩ := State.ok_of_bind hrun
        have hview : view s₂ = view s :=
          (aside_hintApplies l hint hinted inferred h₂).trans (aside_resolveHint hint h₁)
        rw [← hview] at g htop
        split at hrun
        · obtain ⟨⟨⟩, s₃, h₃, hrun⟩ := State.ok_of_bind hrun
          cases hrun
          exact (g.coerceTop htop h₃).1
        · cases hrun
          exact g

theorem Grown.storeLocal {ty : Ty} {slot : Nat} (hrun : storeLocal ty s = .ok slot t)
    (g : Grown T v₀ (k + ty.width) (view s)) : Grown T v₀ k (view t) ∧ slot < (view t).code.nextSlot := by
  obtain ⟨n, s₁, h₁, hrun⟩ := State.ok_of_bind hrun
  obtain ⟨g₁, hn, -⟩ := g.allocSlot h₁
  obtain ⟨⟨⟩, s₂, h₂, hrun⟩ := State.ok_of_bind hrun
  cases hrun
  exact g₁.store hn h₂

/-- A local in a slot can be loaded wherever it is seen. -/
theorem stored_inSlot {slots level slot : Nat} (hlt : slot < slots) (f : ScopeFrame) (name : String)
    (ty : Ty) : Stored slots level f (.inSlot name ty slot) := by
  unfold Stored
  split
  · omega
  · exact hlt

theorem Grown.describe {l : PlacedLocal} {last : Label} (g : Grown T v₀ k (view s))
    (hrun : describe l last s = .ok u t) :
    Grown T v₀ k (view t) ∧ (view t).stack = (view s).stack := by
  rw [modifyCode_ok hrun]
  exact ⟨g.onCode rfl rfl rfl rfl (Nat.le_refl _) g.valid.free, rfl⟩

theorem Grown.describeAll {α : Type} {f : α → PlacedLocal} {placed : List α} {last : Label}
    (g : Grown T v₀ k (view s)) (hrun : (placed.forM fun l => Form.describe (f l) last) s = .ok u t) :
    Grown T v₀ k (view t) ∧ (view t).stack = (view s).stack := by
  induction placed generalizing s with
  | nil =>
      cases hrun
      exact ⟨g, rfl⟩
  | cons l rest ih =>
      obtain ⟨⟨⟩, s₁, h₁, hrun⟩ := State.ok_of_bind hrun
      obtain ⟨g₁, hs₁⟩ := g.describe h₁
      obtain ⟨g₂, hs₂⟩ := ih g₁ hrun
      exact ⟨g₂, hs₂.trans hs₁⟩

theorem stack_here {l : Label} (hrun : FormM.here s = .ok l t) : (view t).stack = (view s).stack := by
  rw [(onCode_ok hrun).2]
  rfl

theorem Grown.compileLocal {f : ScopeFrame} (g : Grown (T.inside f) v₀ k (view s)) (hc : Compiles h)
    {l : LocalInit} {placed : PlacedLocal} (hrun : compileLocal h l s = .ok placed t) :
    ∃ f', Grown (T.inside f') v₀ k (view t) := by
  obtain ⟨⟨⟩, s₁, h₁, hrun⟩ := State.ok_of_bind hrun
  obtain ⟨w, g₁, hw⟩ := g.compilePart hc h₁
  obtain ⟨ty, s₂, h₂, hrun⟩ := State.ok_of_bind hrun
  have g₂ := g₁.localType hw.top h₂
  obtain ⟨slot, s₃, h₃, hrun⟩ := State.ok_of_bind hrun
  obtain ⟨g₃, hslot⟩ := g₂.storeLocal h₃
  obtain ⟨first, s₄, h₄, hrun⟩ := State.ok_of_bind hrun
  have g₄ := g₃.here_closed h₄
  obtain ⟨⟨⟩, s₅, h₅, hrun⟩ := State.ok_of_bind hrun
  cases hrun
  have hle : (view s₃).code.nextSlot = (view s₄).code.nextSlot := by
    rw [(onCode_ok h₄).2]
    rfl
  exact ⟨_, (g₄.bindName h₅ (stored_inSlot (hle ▸ hslot) _ _ _)).1⟩

theorem Grown.compileLocals (hc : Compiles h) {f : ScopeFrame} {locals : List LocalInit}
    {placed : List PlacedLocal} (g : Grown (T.inside f) v₀ k (view s))
    (hrun : locals.mapM (Form.compileLocal h) s = .ok placed t) :
    ∃ f', Grown (T.inside f') v₀ k (view t) := by
  induction locals generalizing s f placed with
  | nil =>
      cases hrun
      exact ⟨f, g⟩
  | cons l rest ih =>
      rw [List.mapM_cons] at hrun
      obtain ⟨p, s₁, h₁, hrun⟩ := State.ok_of_bind hrun
      obtain ⟨f₁, g₁⟩ := g.compileLocal hc h₁
      obtain ⟨ps, s₂, h₂, hrun⟩ := State.ok_of_bind hrun
      cases hrun
      exact ih g₁ h₂

/-- A body in tail position where the form around it is, at the depth it started from. -/
theorem Grown.body {v : View} (g : Grown T v 0 (view s)) (hc : Compiles h) {body : List Datum}
    (htail : ∀ p, T.holds p → TailOk p (view s)) (hrun : compileBody h body s = .ok u t) :
    ∃ w, Grown T v w (view t) ∧ Top w (view t) := by
  obtain ⟨w, g₁, htop⟩ := compileBody_grown hc g.valid hrun
  have g₂ := g.append g₁ htail rfl g.scopes g.loops g.tail
  rw [Nat.zero_add] at g₂
  exact ⟨w, g₂, htop⟩

theorem Top.of_stack {v t : View} {w : Nat} (htop : Top w v) (hstack : t.stack = v.stack) : Top w t := by
  rwa [Top, View.reach, View.widths, hstack]

theorem compileLet_leaves (hc : Compiles h) {d : Datum} (hv : Valid (view s))
    (hrun : compileLet h d s = .ok u t) : Leaves (view s) (view t) := by
  obtain ⟨⟨locals, body⟩, s₁, h₁, hrun⟩ := State.ok_of_bind hrun
  obtain ⟨-, rfl⟩ := ofExcept_ok h₁
  obtain ⟨s₁, t₁, hrun, g₁, -, hstack, -, hback⟩ := (Grown.ofValid hv).withScope hrun
  obtain ⟨placed, s₂, h₂, hrun⟩ := State.ok_of_bind hrun
  obtain ⟨f, g₂⟩ := g₁.compileLocals hc h₂
  obtain ⟨⟨⟩, s₃, h₃, hrun⟩ := State.ok_of_bind hrun
  obtain ⟨w, g₃, htop⟩ := g₂.body hc (fun p hp => g₂.tailOk rfl g₂.tail g₂.loops hp) h₃
  obtain ⟨last, s₄, h₄, hrun⟩ := State.ok_of_bind hrun
  obtain ⟨g₅, hs₅⟩ := (g₃.here_closed h₄).describeAll hrun
  exact ⟨w, hback _ _ _ _ rfl g₅, .inr (htop.of_stack (hstack.trans (hs₅.trans (stack_here h₄))))⟩

end Locals

/-! ### Loops -/

section Loops

variable {T : Terms} {v₀ : View} {k : Nat} {s t : FormState} {u : Unit} {h : Handlers}

theorem withLoop_ok {α : Type} {a : α} {m : FormM α} {target : LoopTarget}
    (hrun : withLoop target m s = .ok a t) :
    ∃ s₁ t₁, view s₁ = { view s with loops := target :: (view s).loops } ∧ m s₁ = .ok a t₁ ∧
      view t = { view t₁ with loops := (view s).loops } := by
  obtain ⟨s', s₁, h₁, hrun⟩ := State.ok_of_bind hrun
  cases h₁
  obtain ⟨⟨⟩, s₁, h₁, hrun⟩ := State.ok_of_bind hrun
  cases h₁
  obtain ⟨t₁, hm, rfl⟩ := andFinally_ok hrun
  exact ⟨_, t₁, rfl, hm, rfl⟩

/-- Steps inside a loop, seen from inside and from outside. -/
theorem Grown.withLoop {α : Type} {a : α} {m : FormM α} {head : Label} {slots : List (Nat × Ty)} {d : Nat}
    (g : Grown T v₀ k (view s)) (hslots : ∀ q ∈ slots, q.1 < (view s).code.nextSlot)
    (hrun : withLoop (.compiled head slots d) m s = .ok a t) :
    ∃ s₁ t₁, m s₁ = .ok a t₁ ∧ Grown (T.looped (.compiled head slots d :: T.loops)) v₀ k (view s₁) ∧
      (view s₁).stack = (view s).stack ∧ (view t).stack = (view t₁).stack ∧
      ∀ j, Grown (T.looped (.compiled head slots d :: T.loops)) v₀ j (view t₁) →
        Grown T v₀ j (view t) := by
  obtain ⟨s₁, t₁, hs₁, hm, ht⟩ := withLoop_ok hrun
  refine ⟨s₁, t₁, hm, ?_, by rw [hs₁]; rfl, by rw [ht]; rfl, ?_⟩
  · rw [hs₁, g.loops]
    refine g.setLoops _ ?_
    intro head' slots' d' hmem q hq
    rcases List.mem_cons.1 hmem with heq | hmem
    · cases heq
      exact hslots q hq
    · exact g.valid.loops head' slots' d' (g.loops ▸ hmem) q hq
  · intro j g₁
    have g₂ := g₁.setLoops T.loops fun head' slots' d' hmem =>
      g₁.valid.loops head' slots' d' (g₁.loops ▸ List.mem_cons_of_mem _ hmem)
    rw [ht, g.loops]
    exact g₂

theorem Grown.compileLoopLocal {f : ScopeFrame} (g : Grown (T.inside f) v₀ k (view s)) (hc : Compiles h)
    {l : LocalInit} {placed : String × Nat} (hrun : compileLoopLocal h l s = .ok placed t) :
    (∃ f', Grown (T.inside f') v₀ k (view t)) ∧ placed.2 < (view t).code.nextSlot ∧
      (view s).code.nextSlot ≤ (view t).code.nextSlot := by
  obtain ⟨⟨⟩, s₁, h₁, hrun⟩ := State.ok_of_bind hrun
  obtain ⟨g₁, -⟩ := g.compileBoxed hc h₁
  obtain ⟨slot, s₂, h₂, hrun⟩ := State.ok_of_bind hrun
  obtain ⟨g₂, hslot⟩ := g₁.storeLocal h₂
  obtain ⟨⟨⟩, s₃, h₃, hrun⟩ := State.ok_of_bind hrun
  cases hrun
  obtain ⟨g₃, -, hcode⟩ := g₂.bindName h₃ (stored_inSlot hslot _ _ _)
  refine ⟨⟨_, g₃⟩, hcode ▸ hslot, ?_⟩
  have hs₁ := ((Grown.ofValid g.valid).compileBoxed hc h₁).1
  have hs₂ := (hs₁.storeLocal h₂).1
  rw [hcode]
  exact hs₂.since.slots_le

theorem Grown.compileLoopLocals (hc : Compiles h) {f : ScopeFrame} {locals : List LocalInit}
    {placed : List (String × Nat)} (g : Grown (T.inside f) v₀ k (view s))
    (hrun : locals.mapM (Form.compileLoopLocal h) s = .ok placed t) :
    (∃ f', Grown (T.inside f') v₀ k (view t)) ∧ (∀ q ∈ placed, q.2 < (view t).code.nextSlot) ∧
      (view s).code.nextSlot ≤ (view t).code.nextSlot := by
  induction locals generalizing s f placed with
  | nil =>
      cases hrun
      exact ⟨⟨f, g⟩, by simp, Nat.le_refl _⟩
  | cons l rest ih =>
      rw [List.mapM_cons] at hrun
      obtain ⟨p, s₁, h₁, hrun⟩ := State.ok_of_bind hrun
      obtain ⟨⟨f₁, g₁⟩, hp, hle₁⟩ := g.compileLoopLocal hc h₁
      obtain ⟨ps, s₂, h₂, hrun⟩ := State.ok_of_bind hrun
      cases hrun
      obtain ⟨g₂, hps, hle₂⟩ := ih g₁ h₂
      refine ⟨g₂, ?_, Nat.le_trans hle₁ hle₂⟩
      intro q hq
      rcases List.mem_cons.1 hq with rfl | hq
      · exact Nat.lt_of_lt_of_le hp hle₂
      · exact hps q hq

/-- The head of a loop has the depth that control comes with, and so has every `recur` to it. -/
theorem compileLoop_leaves (hc : Compiles h) {d : Datum} (hv : Valid (view s))
    (hrun : compileLoop h d s = .ok u t) : Leaves (view s) (view t) := by
  obtain ⟨⟨locals, body⟩, s₁, h₁, hrun⟩ := State.ok_of_bind hrun
  obtain ⟨-, rfl⟩ := ofExcept_ok h₁
  obtain ⟨s₁, t₁, hrun, g₁, -, hstack, -, hback⟩ := (Grown.ofValid hv).withScope hrun
  obtain ⟨placed, s₂, h₂, hrun⟩ := State.ok_of_bind hrun
  obtain ⟨⟨f, g₂⟩, hplaced, -⟩ := g₁.compileLoopLocals hc h₂
  obtain ⟨head, s₃, h₃, hrun⟩ := State.ok_of_bind hrun
  obtain ⟨hhead, g₃⟩ := g₂.here h₃
  have hslots₃ : (view s₃).code.nextSlot = (view s₂).code.nextSlot := by
    rw [(onCode_ok h₃).2]
    rfl
  obtain ⟨depth, s₄, h₄, hrun⟩ := State.ok_of_bind hrun
  have hview₄ := aside_tryDepth h₄
  rw [← hview₄] at g₃
  obtain ⟨⟨⟩, s₅, h₅, hrun⟩ := State.ok_of_bind hrun
  have hslots : ∀ q ∈ placed.map fun l => (l.2, Ty.any), q.1 < (view s₄).code.nextSlot := by
    intro q hq
    obtain ⟨l, hl, rfl⟩ := List.mem_map.1 hq
    rw [hview₄, hslots₃]
    exact hplaced l hl
  obtain ⟨s₆, t₆, h₆, g₆, hs₆, hs₅, hback₅⟩ := g₃.withLoop hslots h₅
  obtain ⟨s₇, t₇, h₇, g₇, hs₇, ht₆, hback₆⟩ := g₆.withTail h₆
  -- the head of the loop was met with the depth that control still has
  have htail : ∀ p, (((terms (view s)).inside f).label head (view s₂).reach).holds p →
      TailOk p (view s₇) := by
    intro p hp _ head' slots' d' rest hloops x hx
    rw [g₇.loops] at hloops
    obtain ⟨heq, -⟩ := List.cons.inj hloops
    cases heq
    have hstack₇ : (view s₇).stack = (view s₂).stack := by
      rw [hs₇, hs₆, hview₄, stack_here h₃]
    rw [View.reach, hstack₇] at hx
    exact hp.2.trans hx
  obtain ⟨w, g₈, htop⟩ := g₇.body hc htail h₇
  have g₅ := (hback₅ _ (hback₆ _ g₈)).close (hhead ▸ g₂.since.labels_le)
    (by simp [Terms.inside, terms, Terms.scoped])
  have htop₅ : Top w (view s₅) := htop.of_stack (hs₅.trans ht₆)
  obtain ⟨last, s₉, h₉, hrun⟩ := State.ok_of_bind hrun
  obtain ⟨g₁₀, hs₁₀⟩ := (g₅.here_closed h₉).describeAll hrun
  exact ⟨w, hback _ _ _ _ rfl g₁₀, .inr (htop₅.of_stack (hstack.trans (hs₁₀.trans (stack_here h₉))))⟩

end Loops

/-! ### Recur -/

section Recur

variable {T : Terms} {v₀ : View} {k : Nat} {s t : FormState} {u : Unit} {h : Handlers}

/-- The loop that a `recur` goes back to is the innermost one; the `recur` is in tail position, has as many arguments
as the loop has locals, and no `try` is between them. -/
theorem recurTarget_ok {d : Datum} {n : Nat} {target : LoopTarget}
    (hrun : recurTarget d n s = .ok target t) :
    s = t ∧ (view s).tail = true ∧ target.arity = n ∧ (∃ rest, (view s).loops = target :: rest) ∧
      ((view s).methods ≠ [] → target.tryDepth = (view s).work.tryDepth) := by
  obtain ⟨s', s₁, h₁, hrun⟩ := State.ok_of_bind hrun
  cases h₁
  cases hloops : s.loops with
  | nil =>
      rw [hloops] at hrun
      cases hrun
  | cons target' rest =>
      rw [hloops] at hrun
      dsimp only at hrun
      split at hrun
      · cases hrun
      · rename_i htail
        split at hrun
        · cases hrun
        · rename_i harity
          obtain ⟨depth, s₁, h₁, hrun⟩ := State.ok_of_bind hrun
          obtain rfl : s = s₁ := by
            cases h₁
            rfl
          split at hrun
          · cases hrun
          · rename_i hsame
            cases hrun
            refine ⟨rfl, by simpa [view] using htail, by simpa using harity, ⟨rest, hloops⟩, fun hne => ?_⟩
            rw [← (tryDepth_ok hne h₁).2]
            exact Decidable.not_not.mp hsame

theorem Grown.compileRecurArg (g : Grown T v₀ k (view s)) (hc : Compiles h) (htail : T.tail = false)
    {arg : Datum} {ty : Ty} (hrun : compileRecurArg h arg ty s = .ok u t) :
    Grown T v₀ (k + ty.width) (view t) := by
  obtain ⟨⟨⟩, s₁, h₁, hrun⟩ := State.ok_of_bind hrun
  obtain ⟨w, g₁, hw⟩ := g.compile hc h₁ fun p _ => tailOk_of_false (g.tail.trans htail) p
  split at hrun
  · rename_i hty
    rw [hty]
    exact (g₁.boxTop hw.top hrun).1
  · exact (g₁.coerceTop hw.top hrun).1

/-- Slots that the values of the locals of a loop take. -/
def slotWidths (slots : List (Nat × Ty)) : Nat := (slots.map fun q => q.2.width).sum

theorem Grown.compileRecurArgs (hc : Compiles h) (htail : T.tail = false) {args : List Datum}
    {slots : List (Nat × Ty)} (hlength : args.length = slots.length) (g : Grown T v₀ k (view s))
    (hrun : ((args.zip slots).forM fun (arg, _, ty) => Form.compileRecurArg h arg ty) s = .ok u t) :
    Grown T v₀ (k + slotWidths slots) (view t) := by
  induction args generalizing s k slots with
  | nil =>
      obtain rfl := List.length_eq_zero_iff.1 hlength.symm
      cases hrun
      exact g
  | cons arg args ih =>
      cases slots with
      | nil => cases hlength
      | cons q slots =>
          obtain ⟨⟨⟩, s₁, h₁, hrun⟩ := State.ok_of_bind hrun
          have g₁ := g.compileRecurArg hc htail h₁
          have g₂ := ih (Nat.succ.inj hlength) g₁ hrun
          rwa [Nat.add_assoc] at g₂

theorem Grown.storeAll {slots : List (Nat × Ty)} (g : Grown T v₀ (k + slotWidths slots) (view s))
    (hslots : ∀ q ∈ slots, q.1 < (view s).code.nextSlot)
    (hrun : (slots.forM fun (slot, ty) => FormM.emit (.store slot ty)) s = .ok u t) :
    Grown T v₀ k (view t) := by
  induction slots generalizing s with
  | nil =>
      cases hrun
      exact g
  | cons q slots ih =>
      obtain ⟨⟨⟩, s₁, h₁, hrun⟩ := State.ok_of_bind hrun
      have hk : k + slotWidths (q :: slots) = k + slotWidths slots + q.2.width := by
        simp only [slotWidths, List.map_cons, List.sum_cons]
        omega
      rw [hk] at g
      obtain ⟨g₁, -⟩ := g.store (hslots q (List.mem_cons_self ..)) h₁
      refine ih g₁ ?_ hrun
      intro q' hq'
      rw [slots_emit h₁]
      exact hslots q' (List.mem_cons_of_mem _ hq')

/-- Every value that is computed is stored, so the head of the loop is met at the depth of the `recur`. -/
theorem compileRecur_leaves (hc : Compiles h) {d : Datum} (hv : Valid (view s))
    (hrun : compileRecur h d s = .ok u t) : Leaves (view s) (view t) := by
  obtain ⟨target, s₁, h₁, hrun⟩ := State.ok_of_bind hrun
  obtain ⟨rfl, htail, harity, ⟨rest, hloops⟩, -⟩ := recurTarget_ok h₁
  cases target with
  | evaluated arity depth => cases hrun
  | compiled head slots depth =>
      obtain ⟨⟨⟩, s₁, h₁, hrun⟩ := State.ok_of_bind hrun
      obtain ⟨s₂, t₂, h₂, g₂, -, -, hback⟩ := (Grown.ofValid hv).withTail h₁
      have g₁ := hback _ (g₂.compileRecurArgs hc rfl harity.symm h₂)
      obtain ⟨⟨⟩, s₃, h₃, hrun⟩ := State.ok_of_bind hrun
      have hsum : slotWidths slots.reverse = slotWidths slots := by
        rw [slotWidths, List.map_reverse, List.sum_reverse_nat, slotWidths]
      rw [← hsum] at g₁
      have hslots : ∀ q ∈ slots.reverse, q.1 < (view s₁).code.nextSlot := by
        intro q hq
        have hlt := hv.loops head slots depth (hloops ▸ List.mem_cons_self ..) q (List.mem_reverse.1 hq)
        exact Nat.lt_of_lt_of_le hlt g₁.since.slots_le
      have g₃ := g₁.storeAll hslots h₃
      refine .of_dead (g₃.goto (j := 0) hrun ?_) (reach_emit_ends hrun rfl)
      intro hlive p hp
      obtain ⟨x, hx⟩ := Option.ne_none_iff_exists'.1 (g₃.start_live hlive)
      rw [hp htail head slots depth rest hloops x hx, Nat.add_zero, ← (View.live_of_reach hx).2]
      rfl

end Recur

end LispMachine.Emission
