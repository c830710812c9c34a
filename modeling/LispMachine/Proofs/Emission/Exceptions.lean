import LispMachine.Proofs.Emission.Arms
import LispMachine.Proofs.Emission.Locals

/-! # Exceptions

A handler is put up for a region: what stands between two labels, where nothing goes below the depth that
the handler expects.  The body of a `try` and each of its clauses is such a region, because the value goes
into a slot and what is below the form is not touched. -/

namespace LispMachine.Emission

open Form
open CodeBuffer (Item PendingHandler)

/-! ### Regions -/

/-- The same terms with one more region. -/
def Terms.ranged (T : Terms) (r : Region) : Terms := { T with regions := r :: T.regions }

section Regions

variable {T T' : Terms} {v₀ v t : View} {k j l : Nat}

/-- Regions that no handler needs any more may be forgotten. -/
theorem Grown.forget (g : Grown T v₀ k v) (rs : List Region) (hsub : ∀ r ∈ rs, r ∈ T.regions) :
    Grown { T with regions := rs } v₀ k v :=
  { g with
    plan := by
      obtain ⟨depths, hdepths⟩ := g.plan
      refine ⟨depths, ?_⟩
      intro p hp hcov hholds
      obtain ⟨seg, hs, hitems, hhs, hflow, hguard, hregions⟩ := hdepths p hp hcov hholds
      exact ⟨seg, hs, hitems, hhs, hflow, hguard, fun r hr => hregions r (hsub r hr)⟩ }

/-- A label that is not in the first part of some items is in the second. -/
theorem suffix_of_fresh {xs seg front rest : List Item} {l : Label}
    (h : front ++ .label l :: rest = xs ++ seg) (hfresh : l ∉ labelsOf xs) :
    ∃ front', seg = front' ++ .label l :: rest := by
  rcases List.append_eq_append_iff.1 h with ⟨as, rfl, has⟩ | ⟨bs, rfl, hbs⟩
  · cases as with
    | nil => exact ⟨[], by simpa using has.symm⟩
    | cons a as =>
        obtain ⟨rfl, -⟩ := List.cons.inj has
        exact absurd (by simp) hfresh
  · exact ⟨bs, hbs⟩

/-- What has been emitted from a label up to another is a region: nothing has gone below the base. -/
theorem Grown.region {first last : Label} {front body back : List Item} (g : Grown T v₀ k v)
    (hv₀ : Orderly v₀.code) (hfresh : v₀.code.labels ≤ first)
    (hitems : v.code.items.toList = front ++ .label first :: (body ++ .label last :: back)) :
    Grown (T.ranged ⟨first, last, T.base.sum⟩) v₀ k v := by
  refine { g with plan := ?_ }
  obtain ⟨depths, hdepths⟩ := g.plan
  refine ⟨depths, ?_⟩
  intro p hp hcov hholds
  obtain ⟨seg, hs, hseg, hhs, hflow, hguard, hregions⟩ := hdepths p hp hcov hholds
  refine ⟨seg, hs, hseg, hhs, hflow, hguard, ?_⟩
  intro r hr
  rcases List.mem_cons.1 hr with rfl | hr
  · have hfirst : first ∉ labelsOf v₀.code.items.toList := fun hmem =>
      Nat.lt_irrefl _ (Nat.lt_of_lt_of_le (hv₀.labels_lt _ hmem) hfresh)
    obtain ⟨front', hsplit⟩ := suffix_of_fresh (hitems ▸ hseg) hfirst
    have hwhole := hflow T.base.sum fun _ => Nat.le_refl _
    have hparts : seg = front' ++ ([Item.label first] ++ (body ++ .label last :: back)) := hsplit
    rw [hparts] at hwhole
    obtain ⟨c, -, hrest⟩ := hwhole.split
    obtain ⟨d, ⟨-, hd⟩, hrest⟩ := hrest.split
    obtain ⟨d', hbody, -⟩ := hrest.split
    exact ⟨front', body, back, d', hsplit, hd ▸ hbody⟩
  · exact hregions r hr

/-- A handler for a region, at a label that is met with the exception on top of the base. -/
theorem Grown.addHandler {first last target : Label} {catches : Option String} {depth : Nat}
    (g : Grown T v₀ k v) (hlive : v₀.reach ≠ none) (hdepth : T.base.sum ≤ depth)
    (hregion : ⟨first, last, depth⟩ ∈ T.regions)
    (htarget : ∀ p, T.holds p → p.depthOf target = some (depth + 1) ∧ depth + 1 ≤ p.room) :
    Grown T v₀ k
      (v.update { v.work with code := v.code.addHandler first last target catches depth }) where
  valid := g.valid.update g.valid.steady ⟨g.valid.orderly.labels_nodup, g.valid.orderly.labels_lt,
    g.valid.orderly.holes⟩ g.valid.free (Nat.le_refl _)
  since := { g.since with }
  based := g.based
  scopes := g.scopes
  loops := g.loops
  tail := g.tail
  labels_lt := g.labels_lt
  pending_lt := g.pending_lt
  unplaced := g.unplaced
  holes_lt := g.holes_lt
  plan := by
    obtain ⟨depths, hdepths⟩ := g.plan
    refine ⟨depths, ?_⟩
    intro p hp hcov hholds
    obtain ⟨seg, hs, hseg, hhs, hflow, hguard, hregions⟩ :=
      hdepths p hp ⟨hcov.sites, hcov.room, hcov.locals, hcov.filling⟩ hholds
    refine ⟨seg, hs ++ [⟨first, last, target, catches, depth⟩], hseg, ?_, hflow, ?_, hregions⟩
    · simp [CodeBuffer.addHandler, hhs]
    · intro h hh
      rcases List.mem_append.1 hh with hh | hh
      · exact hguard h hh
      · obtain rfl := List.mem_singleton.1 hh
        exact ⟨⟨hregions _ hregion, (htarget p hholds).1, (htarget p hholds).2⟩, hlive, hdepth⟩

end Regions

/-! ### Handlers -/

/-- One more label, at which a handler starts. -/
def Terms.handling (T : Terms) (l : Label) : Terms :=
  (T.owing (fun p => p.depthOf l = some (T.base.sum + 1) ∧ T.base.sum + 1 ≤ p.room) [l] []).await
    (l :: T.pending)

section Handlers

variable {T : Terms} {v₀ : View} {k : Nat} {s t : FormState} {u : Unit} {frame : TryFrame}

theorem Grown.handlerLabel {l : Label} (g : Grown T v₀ k (view s)) (hrun : FormM.newLabel s = .ok l t) :
    Grown (T.handling l) v₀ k (view t) ∧ (view t).stack = (view s).stack ∧ v₀.code.labels ≤ l ∧
      l ∉ T.labels ∧ l ∉ T.pending := by
  have g₀ := g.given fun p => p.depthOf l = some (T.base.sum + 1) ∧ T.base.sum + 1 ≤ p.room
  obtain ⟨hl, g₁, hstack, -⟩ := g₀.freshLabel hrun
  refine ⟨g₁, hstack, hl ▸ g.since.labels_le, ?_, ?_⟩
  · exact fun hmem => Nat.lt_irrefl _ (hl ▸ g.labels_lt l hmem)
  · exact fun hmem => Nat.lt_irrefl _ (hl ▸ g.pending_lt l hmem)

theorem Grown.addHandlers {l : Label} {catches : Option String} {ranges : List (Label × Label)}
    (g : Grown (T.handling l) v₀ k (view s)) (hlive : v₀.reach ≠ none)
    (hranges : ∀ r ∈ ranges, ⟨r.1, r.2, T.base.sum⟩ ∈ T.regions)
    (hrun : (ranges.forM fun range => FormM.modifyCode fun code =>
      code.addHandler range.1 range.2 l catches T.base.sum) s = .ok u t) :
    Grown (T.handling l) v₀ k (view t) ∧ (view t).stack = (view s).stack := by
  induction ranges generalizing s with
  | nil =>
      cases hrun
      exact ⟨g, rfl⟩
  | cons r rest ih =>
      obtain ⟨⟨⟩, s₁, h₁, hrun⟩ := State.ok_of_bind hrun
      have hview₁ := modifyCode_ok h₁
      have g₁ : Grown (T.handling l) v₀ k (view s₁) := by
        rw [hview₁]
        exact g.addHandler hlive (Nat.le_refl _) (hranges r (List.mem_cons_self ..)) fun p hp => hp.2
      obtain ⟨g₂, hs₂⟩ := ih g₁ (fun r hr => hranges r (List.mem_cons_of_mem _ hr)) hrun
      exact ⟨g₂, by rw [hs₂, hview₁]; rfl⟩

/-- A handler starts with the exception on top of the base. -/
theorem Grown.startHandler {l : Label} {ty : Ty} (g : Grown (T.handling l) v₀ k (view s))
    (hdead : (view s).reach = none) (hbase : Ground T.base v₀ frame.base) (hty : ty.width = 1)
    (hfresh : v₀.code.labels ≤ l) (hlabels : l ∉ T.labels) (hpending : l ∉ T.pending)
    (hrun : startHandler frame ty l s = .ok u t) :
    Grown T v₀ 1 (view t) ∧ (view t).reach = some (T.base.sum + 1) ∧
      (view t).code.items.toList = (view s).code.items.toList ++ [Item.label l] := by
  obtain ⟨⟨⟩, s₁, h₁, hrun⟩ := State.ok_of_bind hrun
  have hview : view t = (view s).labelled l (settledStack (view s).stack frame.base (some ty)) := by
    rw [modifyCode_ok hrun, modifyStack_ok h₁]
    rfl
  have hreach := hbase.reach_settled (view s).stack (some ty)
  rw [Option.map_some, hty] at hreach
  have hover := hbase.based.cons (w := ty.width)
  rw [Nat.zero_add, hty] at hover
  have g₁ := g.place (settledStack (view s).stack frame.base (some ty)) (q := T.pending) (j := 1)
    (List.mem_cons_self ..) hfresh
    (fun l' hl' => ⟨List.mem_cons_of_mem _ hl', fun heq => hpending (heq ▸ hl')⟩)
    hbase.steady_settled max_le_settledStack (.inr (hty ▸ hover)) (fun h => absurd h hbase.start)
    (.inl hdead) (fun p hp => hp.2.1.trans hreach.symm)
  have g₂ : Grown (T.owing (fun p => p.depthOf l = some (T.base.sum + 1) ∧ T.base.sum + 1 ≤ p.room) [l] [])
      v₀ 1 ((view s).labelled l (settledStack (view s).stack frame.base (some ty))) := g₁
  rw [hview]
  refine ⟨?_, hreach, by simp [View.labelled, CodeBuffer.place]⟩
  refine g₂.discharge (fun _ => some (T.base.sum + 1)) (by simpa using hfresh) (by simpa using hlabels) ?_
  intro p hcov hdepths
  refine ⟨hdepths l (List.mem_singleton_self l), ?_⟩
  have hreach' : ((view s).labelled l (settledStack (view s).stack frame.base (some ty))).reach
      = some (T.base.sum + 1) := hreach
  rw [← (View.live_of_reach hreach').2]
  exact Nat.le_trans g₂.valid.steady.depth_le hcov.room

end Handlers

/-! ### Throw -/

section Forms

variable {T : Terms} {v₀ : View} {k w : Nat} {s t : FormState} {u : Unit} {h : Handlers}
  {frame : TryFrame}

theorem compileThrow_leaves (hc : Compiles h) {d : Datum} (hv : Valid (view s))
    (hrun : compileThrow h d s = .ok u t) : Leaves (view s) (view t) := by
  obtain ⟨value, s₁, h₁, hrun⟩ := State.ok_of_bind hrun
  obtain ⟨-, rfl⟩ := ofExcept_ok h₁
  obtain ⟨⟨⟩, s₁, h₁, hrun⟩ := State.ok_of_bind hrun
  obtain ⟨g₁, -⟩ := (Grown.ofValid hv).compileBoxed hc h₁
  have g₂ := g₁.emitDrop hrun rfl (Nat.le_refl _) (by simp [Instruction.slot?]) rfl
  exact .of_dead g₂ (reach_emit_ends hrun rfl)

/-! ### Try -/

/-- The value of `finally` is dropped. -/
theorem Grown.compileFinally (hc : Compiles h) {body : Option (List Datum)} (g : Grown T v₀ k (view s))
    (hrun : compileFinally h body s = .ok u t) : Grown T v₀ k (view t) := by
  cases body with
  | none =>
      cases hrun
      exact g
  | some body =>
      obtain ⟨⟨⟩, s₁, h₁, hrun⟩ := State.ok_of_bind hrun
      obtain ⟨s₂, t₂, h₂, hv₂, -, -, hstack, hback⟩ := g.outOfTail h₁
      obtain ⟨w, g₂, htop⟩ := compileBody_grown hc hv₂ h₂
      exact (hback _ g₂).popValue (htop.of_stack hstack) hrun

/-- The value of a body, ready to be stored. -/
def bodyValue (h : Handlers) (body : List Datum) : FormM Unit := do
  compileBody h body
  FormM.boxTop

theorem bodyValue_grown (hc : Compiles h) {body : List Datum} (hv : Valid (view s))
    (hrun : bodyValue h body s = .ok u t) : Grown (terms (view s)) (view s) 1 (view t) := by
  obtain ⟨⟨⟩, s₁, h₁, hrun⟩ := State.ok_of_bind hrun
  obtain ⟨w, g₁, htop⟩ := compileBody_grown hc hv h₁
  rw [← Nat.zero_add w] at g₁
  exact (g₁.boxTop htop hrun).1

/-- Nothing follows on leaving a `try`. -/
theorem Grown.leaveTry (hc : Compiles h) {through : Bool} (g : Grown T v₀ 0 (view s))
    (hafter : ∀ p, T.holds p → p.depthOf frame.after = some T.base.sum)
    (hrun : leaveTry h frame s = .ok through t) : Grown T v₀ 0 (view t) ∧ (view t).reach = none := by
  obtain ⟨dead, s₁, h₁, hrun⟩ := State.ok_of_bind hrun
  obtain ⟨rfl, rfl⟩ := isUnreachable_run g h₁
  split at hrun
  · rename_i hdead
    cases hrun
    exact ⟨g, reach_of_dead hdead⟩
  · obtain ⟨⟨⟩, s₁, h₁, hrun⟩ := State.ok_of_bind hrun
    obtain ⟨⟨⟩, s₂, h₂, hrun⟩ := State.ok_of_bind hrun
    cases hrun
    exact ⟨(g.compileFinally hc h₁).goto h₂ fun _ => hafter, reach_emit_ends h₂ rfl⟩

/-- The terms are those of forms at the start, with what else is taken for granted. -/
structure Rooted (T : Terms) (v₀ : View) : Prop where
  holds : ∀ p, T.holds p → TailOk p v₀
  base : T.base = v₀.widths
  scopes : T.scopes = v₀.scopes
  loops : T.loops = v₀.loops
  tail : T.tail = v₀.tail

/-- What the parts of a `try` are compiled on. -/
structure Founded (frame : TryFrame) (T : Terms) (v₀ : View) : Prop where
  root : Rooted T v₀
  orderly : Orderly v₀.code
  ground : Ground T.base v₀ frame.base
  depth : frame.depth = T.base.sum
  result : frame.result < v₀.code.nextSlot
  after : ∀ p, T.holds p → p.depthOf frame.after = some T.base.sum

theorem Founded.withRegions (h : Founded frame T v₀) (rs : List Region) : Founded frame { T with regions := rs } v₀ :=
  { h with root := { h.root with } }

/-- The value of a clause, once its handler has been started. -/
def clauseValue (h : Handlers) (c : CatchClause) : FormM Unit := do
  let slot ← storeLocal (.cls c.cls)
  let _ ← FormM.here
  FormM.bindName (.inSlot c.name (.cls c.cls) slot)
  compileBody h c.body
  FormM.boxTop

/-- What a clause compiles in a scope of its own. -/
def storedClause (h : Handlers) (frame : TryFrame) (c : CatchClause) : FormM Label := do
  let slot ← storeLocal (.cls c.cls)
  let first ← FormM.here
  FormM.bindName (.inSlot c.name (.cls c.cls) slot)
  compileBody h c.body
  storeResult frame
  let last ← FormM.here
  describe { name := c.name, slot, ty := .cls c.cls, first } last
  return last

theorem storedClause_ok {c : CatchClause} {last : Label} (hrun : storedClause h frame c s = .ok last t) :
    ∃ s₁ s₂ s₃ l, clauseValue h c s = .ok () s₁ ∧ FormM.emit (.store frame.result .any) s₁ = .ok () s₂ ∧
      FormM.here s₂ = .ok last s₃ ∧ describe l last s₃ = .ok () t := by
  obtain ⟨slot, s₁, h₁, hrun⟩ := State.ok_of_bind hrun
  obtain ⟨first, s₂, h₂, hrun⟩ := State.ok_of_bind hrun
  obtain ⟨⟨⟩, s₃, h₃, hrun⟩ := State.ok_of_bind hrun
  obtain ⟨⟨⟩, s₄, h₄, hrun⟩ := State.ok_of_bind hrun
  obtain ⟨⟨⟩, s₆, h₅, hrun⟩ := State.ok_of_bind hrun
  obtain ⟨⟨⟩, s₅, hbox, hstore⟩ := State.ok_of_bind h₅
  obtain ⟨last, s₇, h₇, hrun⟩ := State.ok_of_bind hrun
  obtain ⟨⟨⟩, s₈, h₈, hrun⟩ := State.ok_of_bind hrun
  cases hrun
  refine ⟨s₅, s₆, s₇, _, ?_, hstore, h₇, h₈⟩
  exact (State.bind_of_ok h₁).trans <| (State.bind_of_ok h₂).trans <| (State.bind_of_ok h₃).trans <|
    (State.bind_of_ok h₄).trans hbox

theorem compileCatch_ok {range : Label × Label} {c : CatchClause} {r : (Label × Label) × Bool}
    (hrun : compileCatch h frame range c s = .ok r t) :
    ∃ s₁ s₂ s₃ s₄, FormM.newLabel s = .ok r.1.1 s₁ ∧
      FormM.modifyCode (fun code => code.addHandler range.1 range.2 r.1.1 (some c.cls) frame.depth) s₁ = .ok () s₂ ∧
      startHandler frame (.cls c.cls) r.1.1 s₂ = .ok () s₃ ∧
      FormM.withScope .methodLet (storedClause h frame c) s₃ = .ok r.1.2 s₄ ∧ leaveTry h frame s₄ = .ok r.2 t := by
  obtain ⟨l, s₁, h₁, hrun⟩ := State.ok_of_bind hrun
  obtain ⟨⟨⟩, s₂, h₂, hrun⟩ := State.ok_of_bind hrun
  obtain ⟨⟨⟩, s₃, h₃, hrun⟩ := State.ok_of_bind hrun
  obtain ⟨last, s₄, h₄, hrun⟩ := State.ok_of_bind hrun
  obtain ⟨through, s₅, h₅, hrun⟩ := State.ok_of_bind hrun
  cases hrun
  exact ⟨s₁, s₂, s₃, s₄, h₁, h₂, h₃, h₄, h₅⟩

/-- A clause stores the exception first, and is then at the depth of the form. -/
theorem Grown.clauseValue (hc : Compiles h) {c : CatchClause} {f : ScopeFrame} {v : View} {base : List StackRecord}
    (g : Grown ((terms v₀).inside f) v 1 (view s)) (hbase : Ground v₀.widths v₀ base)
    (hrun : Emission.clauseValue h c s = .ok u t) : ∃ f', Grown ((terms v₀).inside f') v 1 (view t) := by
  have g : Grown ((terms v₀).inside f) v (0 + (Ty.cls c.cls).width) (view s) := g
  obtain ⟨slot, s₁, h₁, hrun⟩ := State.ok_of_bind hrun
  obtain ⟨g₁, hslot⟩ := g.storeLocal h₁
  obtain ⟨first, s₂, h₂, hrun⟩ := State.ok_of_bind hrun
  have g₂ := g₁.here_closed h₂
  have hslot₂ : slot < (view s₂).code.nextSlot := by
    rw [(onCode_ok h₂).2]
    exact hslot
  obtain ⟨⟨⟩, s₃, h₃, hrun⟩ := State.ok_of_bind hrun
  obtain ⟨g₃, -, -⟩ := g₂.bindName h₃ (stored_inSlot hslot₂ _ _ _)
  obtain ⟨⟨⟩, s₄, h₄, hrun⟩ := State.ok_of_bind hrun
  have htail : ∀ p, TailOk p v₀ → TailOk p (view s₃) := by
    intro p hp
    refine hp.transfer g₃.tail g₃.loops fun x hx => ?_
    obtain ⟨hlive, rfl⟩ := View.live_of_reach hx
    rw [(g₃.over_of_live hlive).sum]
    exact hbase.start_eq
  obtain ⟨w, g₄, htop⟩ := g₃.body hc htail h₄
  rw [← Nat.zero_add w] at g₄
  obtain ⟨g₅, -⟩ := g₄.boxTop htop hrun
  exact ⟨_, g₅⟩

/-- The value of a clause is stored, and behind its scope, which ends with a label, the stack is as it was at the
start of the `try`. -/
theorem Grown.storedClause (hc : Compiles h) {c : CatchClause} {v : View} {last : Label} {base : List StackRecord}
    (g : Grown (terms v₀) v 1 (view s)) (hbase : Ground v₀.widths v₀ base) (hresult : frame.result < v.code.nextSlot)
    (hrun : FormM.withScope .methodLet (Emission.storedClause h frame c) s = .ok last t) :
    Grown (terms v₀) v 0 (view t) ∧
      ∃ more, (view t).code.items.toList = v.code.items.toList ++ (more ++ [Item.label last]) := by
  obtain ⟨s₁, t₁, h₁, g₁, -, -, ⟨slots, log, hcode⟩, hback⟩ := g.withScope hrun
  obtain ⟨s₂, s₃, s₄, l, h₂, h₃, h₄, h₅⟩ := storedClause_ok h₁
  obtain ⟨f, g₂⟩ := g₁.clauseValue hc hbase h₂
  have g₂ : Grown ((terms v₀).inside f) v (0 + Ty.any.width) (view s₂) := g₂
  obtain ⟨g₃, -⟩ := g₂.store (Nat.lt_of_lt_of_le hresult g₂.since.slots_le) h₃
  obtain ⟨g₅, -⟩ := (g₃.here_closed h₄).describe h₅
  refine ⟨hback _ _ _ _ rfl g₅, ?_⟩
  obtain ⟨more, hmore⟩ := g₃.since.items
  refine ⟨more, ?_⟩
  obtain ⟨rfl, hview₄⟩ := onCode_ok h₄
  rw [hcode, modifyCode_ok h₅, hview₄, ← List.append_assoc, hmore]
  simp [CodeBuffer.describeLocal, CodeBuffer.here, CodeBuffer.newLabel, CodeBuffer.place]

/-- A clause is a region of its own, and nothing follows on leaving it. -/
theorem Grown.compileCatch (hc : Compiles h) {range : Label × Label} {c : CatchClause}
    {r : (Label × Label) × Bool} (g : Grown T v₀ 0 (view s)) (hdead : (view s).reach = none)
    (hfounded : Founded frame T v₀) (hrange : ⟨range.1, range.2, T.base.sum⟩ ∈ T.regions)
    (hrun : compileCatch h frame range c s = .ok r t) :
    Grown (T.ranged ⟨r.1.1, r.1.2, T.base.sum⟩) v₀ 0 (view t) ∧ (view t).reach = none := by
  obtain ⟨hroot, hv₀, hbase, hdepth, hresult, hafter⟩ := hfounded
  obtain ⟨s₁, s₂, s₃, s₄, h₁, h₂, h₃, h₄, h₅⟩ := compileCatch_ok hrun
  obtain ⟨g₁, hs₁, hfresh, hlabels, hpending⟩ := g.handlerLabel h₁
  have hview₂ := modifyCode_ok h₂
  rw [hdepth] at hview₂
  have g₂ : Grown (T.handling r.1.1) v₀ 0 (view s₂) := by
    rw [hview₂]
    exact g₁.addHandler hbase.start (Nat.le_refl _) hrange fun p hp => hp.2
  have hdead₂ : (view s₂).reach = none := by
    rw [hview₂, View.reach_update, ← hdead, View.reach, ← hs₁]
    rfl
  obtain ⟨g₃, hreach₃, hitems₃⟩ := g₂.startHandler hdead₂ hbase rfl hfresh hlabels hpending h₃
  -- the clause, on the terms of the form and from where its handler starts
  have c₃ : Grown (terms v₀) (view s₃) 1 (view s₃) := by
    refine .start g₃.valid ?_ (g₃.scopes.trans hroot.scopes) (g₃.loops.trans hroot.loops)
      (g₃.tail.trans hroot.tail) rfl rfl rfl rfl
    have hover := g₃.based
    rwa [hroot.base] at hover
  obtain ⟨c₄, more, hmore⟩ := c₃.storedClause hc (hroot.base ▸ hbase)
    (Nat.lt_of_lt_of_le hresult g₃.since.slots_le) h₄
  have g₄ : Grown T v₀ 0 (view s₄) := by
    refine g₃.trans c₄ hroot.holds (fun _ => Nat.le_of_eq (congrArg List.sum hroot.base)) ?_
      hroot.scopes.symm hroot.loops.symm hroot.tail.symm
    rw [hroot.base]
    exact c₄.based
  have hitems₄ : (view s₄).code.items.toList
      = (view s₂).code.items.toList ++ Item.label r.1.1 :: (more ++ Item.label r.1.2 :: []) := by
    rw [hmore, hitems₃]
    simp
  exact (g₄.region hv₀ hfresh hitems₄).leaveTry hc hafter h₅

/-- The clauses of a `try`, each of which is a region of its own. -/
theorem Grown.compileCatches (hc : Compiles h) {range : Label × Label} {catches : List CatchClause}
    {caught : List ((Label × Label) × Bool)} (g : Grown T v₀ 0 (view s)) (hdead : (view s).reach = none)
    (hfounded : Founded frame T v₀) (hrange : ⟨range.1, range.2, T.base.sum⟩ ∈ T.regions)
    (hrun : catches.mapM (Form.compileCatch h frame range) s = .ok caught t) :
    ∃ rs, Grown { T with regions := rs } v₀ 0 (view t) ∧ (view t).reach = none ∧
      (∀ r ∈ T.regions, r ∈ rs) ∧ ∀ q ∈ caught, ⟨q.1.1, q.1.2, T.base.sum⟩ ∈ rs := by
  induction catches generalizing T s caught with
  | nil =>
      cases hrun
      exact ⟨T.regions, g, hdead, fun _ h => h, by simp⟩
  | cons c rest ih =>
      rw [List.mapM_cons] at hrun
      obtain ⟨q, s₁, h₁, hrun⟩ := State.ok_of_bind hrun
      obtain ⟨qs, s₂, h₂, hrun⟩ := State.ok_of_bind hrun
      cases hrun
      obtain ⟨g₁, hdead₁⟩ := g.compileCatch hc hdead hfounded hrange h₁
      obtain ⟨rs, g₂, hdead₂, hold, hnew⟩ := ih g₁ hdead₁ (hfounded.withRegions _)
        (List.mem_cons_of_mem _ hrange) h₂
      refine ⟨rs, g₂, hdead₂, fun r hr => hold r (List.mem_cons_of_mem _ hr), ?_⟩
      intro q' hq'
      rcases List.mem_cons.1 hq' with rfl | hq'
      · exact hold _ (List.mem_cons_self ..)
      · exact hnew q' hq'

/-- The handler of a pending exception runs `finally` and throws the exception again. -/
theorem Grown.compilePending (hc : Compiles h) {ranges : List (Label × Label)} (g : Grown T v₀ 0 (view s))
    (hdead : (view s).reach = none) (hfounded : Founded frame T v₀)
    (hranges : ∀ r ∈ ranges, ⟨r.1, r.2, T.base.sum⟩ ∈ T.regions)
    (hrun : compilePending h frame ranges s = .ok u t) :
    Grown T v₀ 0 (view t) ∧ (view t).reach = none := by
  have hbase := hfounded.ground
  have hdepth := hfounded.depth
  unfold Form.compilePending at hrun
  split at hrun
  · obtain ⟨handler, s₁, h₁, hrun⟩ := State.ok_of_bind hrun
    obtain ⟨g₁, hs₁, hfresh, hlabels, hpending⟩ := g.handlerLabel h₁
    obtain ⟨⟨⟩, s₂, h₂, hrun⟩ := State.ok_of_bind hrun
    rw [hdepth] at h₂
    obtain ⟨g₂, hs₂⟩ := g₁.addHandlers hbase.start hranges h₂
    have hdead₂ : (view s₂).reach = none := by
      rw [← hdead, View.reach, hs₂, hs₁, ← View.reach]
    obtain ⟨⟨⟩, s₃, h₃, hrun⟩ := State.ok_of_bind hrun
    obtain ⟨g₃, -, -⟩ := g₂.startHandler hdead₂ hbase rfl hfresh hlabels hpending h₃
    obtain ⟨slot, s₄, h₄, hrun⟩ := State.ok_of_bind hrun
    have g₃ : Grown T v₀ (0 + Ty.any.width) (view s₃) := g₃
    obtain ⟨g₄, hslot₄⟩ := g₃.storeLocal h₄
    obtain ⟨⟨⟩, s₅, h₅, hrun⟩ := State.ok_of_bind hrun
    have g₅ := g₄.compileFinally hc h₅
    have hslot₅ := Nat.lt_of_lt_of_le hslot₄
      ((Grown.ofValid g₄.valid).compileFinally hc h₅).since.slots_le
    obtain ⟨⟨⟩, s₆, h₆, hrun⟩ := State.ok_of_bind hrun
    obtain ⟨g₆, -, hslot₆⟩ := g₅.load hslot₅ h₆
    obtain ⟨⟨⟩, s₇, h₇, hrun⟩ := State.ok_of_bind hrun
    have g₇ := g₆.emitDrop h₇ rfl (Nat.le_refl _) (by simp [Instruction.slot?]) rfl
    have g₈ := g₇.freeSlot ((slots_emit h₇).symm ▸ hslot₆)
    rw [modifyCode_ok hrun]
    exact ⟨g₈, reach_emit_ends h₇ rfl⟩
  · cases hrun
    exact ⟨g, hdead⟩

theorem compileRegions_ok {parts : TryParts} {reachable : Bool}
    (hrun : compileRegions h parts frame s = .ok reachable t) :
    ∃ first last through caught s₁ s₂ s₃ s₄ s₅ s₆, FormM.here s = .ok first s₁ ∧
      bodyValue h parts.body s₁ = .ok () s₂ ∧ FormM.emit (.store frame.result .any) s₂ = .ok () s₃ ∧
      FormM.here s₃ = .ok last s₄ ∧ leaveTry h frame s₄ = .ok through s₅ ∧
      parts.catches.mapM (Form.compileCatch h frame (first, last)) s₅ = .ok caught s₆ ∧
      compilePending h frame ((first, last) :: caught.map Prod.fst) s₆ = .ok () t ∧
      reachable = (through || caught.any Prod.snd) := by
  obtain ⟨first, s₁, h₁, hrun⟩ := State.ok_of_bind hrun
  obtain ⟨⟨⟩, s₂, h₂, hrun⟩ := State.ok_of_bind hrun
  obtain ⟨⟨⟩, s₄, h₄, hrun⟩ := State.ok_of_bind hrun
  obtain ⟨⟨⟩, s₃, h₃, h₄⟩ := State.ok_of_bind h₄
  obtain ⟨last, s₅, h₅, hrun⟩ := State.ok_of_bind hrun
  obtain ⟨through, s₆, h₆, hrun⟩ := State.ok_of_bind hrun
  obtain ⟨caught, s₇, h₇, hrun⟩ := State.ok_of_bind hrun
  obtain ⟨⟨⟩, s₈, h₈, hrun⟩ := State.ok_of_bind hrun
  cases hrun
  exact ⟨first, last, through, caught, s₁, s₃, s₄, s₅, s₆, s₇, h₁, (State.bind_of_ok h₂).trans h₃, h₄, h₅, h₆, h₇, h₈,
    rfl⟩

/-- The body of a `try` is a region, and nothing follows on leaving it. -/
theorem Grown.compileProtected (hc : Compiles h) {body : List Datum} {first last : Label} {through : Bool}
    {s₁ s₂ s₃ s₄ : FormState} (g : Grown T v₀ 0 (view s)) (hfounded : Founded frame T v₀)
    (h₁ : FormM.here s = .ok first s₁) (h₂ : bodyValue h body s₁ = .ok u s₂)
    (h₃ : FormM.emit (.store frame.result .any) s₂ = .ok u s₃) (h₄ : FormM.here s₃ = .ok last s₄)
    (h₅ : Form.leaveTry h frame s₄ = .ok through t) :
    Grown (T.ranged ⟨first, last, T.base.sum⟩) v₀ 0 (view t) ∧ (view t).reach = none := by
  have hroot := hfounded.root
  have g₁ := g.here_closed h₁
  obtain ⟨hfirst, hview₁⟩ := onCode_ok h₁
  have c₂ : Grown (terms (view s₁)) (view s₁) (0 + Ty.any.width) (view s₂) := bodyValue_grown hc g₁.valid h₂
  have hresult : frame.result < (view s₁).code.nextSlot := Nat.lt_of_lt_of_le hfounded.result g₁.since.slots_le
  obtain ⟨c₃, -⟩ := c₂.store (Nat.lt_of_lt_of_le hresult c₂.since.slots_le) h₃
  have g₃ : Grown T v₀ 0 (view s₃) := g₁.append c₃
    (fun p hp => g₁.tailOk hroot.base (g₁.tail.trans hroot.tail) (g₁.loops.trans hroot.loops)
      (hroot.holds p hp)) rfl g₁.scopes g₁.loops g₁.tail
  obtain ⟨more, hmore⟩ := c₃.since.items
  have hitems₄ : (view s₄).code.items.toList
      = (view s).code.items.toList ++ Item.label first :: (more ++ Item.label last :: []) := by
    obtain ⟨rfl, hview₄⟩ := onCode_ok h₄
    rw [hview₄]
    simp only [View.code_update, CodeBuffer.here, CodeBuffer.newLabel, CodeBuffer.place,
      Array.toList_push]
    rw [← hmore, hview₁, hfirst]
    simp [CodeBuffer.here, CodeBuffer.newLabel, CodeBuffer.place]
  have g₄ := (g₃.here_closed h₄).region hfounded.orderly (hfirst ▸ g.since.labels_le) hitems₄
  exact g₄.leaveTry hc hfounded.after h₅

/-- The body, the clauses and `finally` leave control to the label behind the `try`, or nowhere. -/
theorem Grown.compileRegions (hc : Compiles h) {parts : TryParts} {reachable : Bool}
    (g : Grown T v₀ 0 (view s)) (hfounded : Founded frame T v₀) (hregions : T.regions = [])
    (hrun : compileRegions h parts frame s = .ok reachable t) :
    Grown T v₀ 0 (view t) ∧ (view t).reach = none := by
  obtain ⟨first, last, through, caught, s₁, s₂, s₃, s₄, s₅, s₆, h₁, h₂, h₃, h₄, h₅, h₆, h₇, -⟩ := compileRegions_ok hrun
  obtain ⟨g₅, hdead₅⟩ := g.compileProtected hc hfounded h₁ h₂ h₃ h₄ h₅
  obtain ⟨rs, g₆, hdead₆, hold, hnew⟩ := g₅.compileCatches hc hdead₅ (hfounded.withRegions _) (List.mem_cons_self ..) h₆
  obtain ⟨g₇, hdead₇⟩ := g₆.compilePending hc hdead₆ (hfounded.withRegions rs)
    (by
      intro r hr
      rcases List.mem_cons.1 hr with rfl | hr
      · exact hold _ (List.mem_cons_self ..)
      · obtain ⟨q, hq, rfl⟩ := List.mem_map.1 hr
        exact hnew q hq) h₇
  exact ⟨g₇.forget T.regions (by simp [hregions]), hdead₇⟩

/-- How many `try` forms are open does not matter to the code. -/
theorem Grown.setTryDepth {v : View} (g : Grown T v₀ k v) (n : Nat) :
    Grown T v₀ k (v.update { v.work with tryDepth := n }) :=
  g.unchanged (g.valid.update g.valid.steady g.valid.orderly g.valid.free (Nat.le_refl _))
    { Since.refl v with } rfl rfl rfl rfl rfl rfl rfl rfl

theorem withinTry_ok {α : Type} {a : α} {m : FormM α} (hrun : withinTry m s = .ok a t) :
    ∃ s₁ t₁, view s₁ = (view s).update { (view s).work with tryDepth := (view s).work.tryDepth + 1 } ∧
      m s₁ = .ok a t₁ ∧ ((view t₁).methods ≠ [] →
        view t = (view t₁).update { (view t₁).work with tryDepth := (view t₁).work.tryDepth - 1 }) := by
  obtain ⟨⟨⟩, s₁, h₁, hrun⟩ := State.ok_of_bind hrun
  obtain ⟨t₁, hm, rfl⟩ := andFinally_ok hrun
  refine ⟨s₁, t₁, (modifyMethod_ok h₁).2, hm, ?_⟩
  intro hne
  cases hmethods : t₁.methods with
  | nil => exact absurd hmethods hne
  | cons c rest => simp [view, View.update, View.work, hmethods]

/-- Where control does not get, the records on the stack do not matter. -/
theorem Grown.unreach {j : Nat} {v : View} {base : List StackRecord} (g : Grown T v₀ k v)
    (hdead : v.reach = none) (hbase : Ground T.base v₀ base) :
    Grown T v₀ j (v.update { v.work with stack := settledStack v.stack base none }) := by
  have hreach := hbase.reach_settled v.stack none
  have hmax : v.stack.max ≤ (settledStack v.stack base none).max := max_le_settledStack
  have hsteady : Steady (settledStack v.stack base none) := hbase.steady_settled
  have hsince : Since v (v.update { v.work with stack := settledStack v.stack base none }) :=
    { Since.refl v with max_le := hmax, dead := fun _ => hreach }
  refine g.extend
    (g.valid.update hsteady g.valid.orderly g.valid.free (Nat.le_refl _))
    (g.since.trans hsince) (.inl hreach) rfl rfl rfl rfl g.holes_lt
    (fun p hcov => hcov.mono hsince (Nat.le_refl _) fun _ _ _ h => h) rfl ?_ rfl
  intro p _ _
  refine ⟨[], (List.append_nil _).symm, fun lo _ => ?_⟩
  rw [View.reach_update, hreach, hdead]
  exact .nil

/-- The value of a `try` goes through a slot, and all ways out of it meet at the depth of the form. -/
theorem compileTry_leaves (hc : Compiles h) {d : Datum} (hv : Valid (view s))
    (hrun : compileTry h d s = .ok u t) : Leaves (view s) (view t) := by
  obtain ⟨w, s₁, h₁, hrun⟩ := State.ok_of_bind hrun
  cases h₁
  obtain ⟨parts, s₁, h₁, hrun⟩ := State.ok_of_bind hrun
  obtain ⟨-, rfl⟩ := ofExcept_ok h₁
  obtain ⟨dead, s₁, h₁, hrun⟩ := State.ok_of_bind hrun
  have g := Grown.ofValid hv
  obtain ⟨rfl, rfl⟩ := isUnreachable_run g h₁
  split at hrun
  · rename_i hdead
    cases hrun
    exact .of_dead g (reach_of_dead hdead)
  rename_i hlive
  rw [Bool.not_eq_true] at hlive
  obtain ⟨stack, s₁, h₁, hrun⟩ := State.ok_of_bind hrun
  obtain ⟨rfl, rfl, -⟩ := stack_ok h₁
  obtain ⟨result, s₁, h₁, hrun⟩ := State.ok_of_bind hrun
  obtain ⟨g₁, hresult, hs₁⟩ := g.allocSlot h₁
  refine .behind g₁ ?_
  rw [← hs₁] at hrun hlive
  have hbase : Ground (view s₁).widths (view s₁) (view s₁).stack.records :=
    (Grown.ofValid g₁.valid).ground hlive
  obtain ⟨after, s₂, h₂, hrun⟩ := State.ok_of_bind hrun
  obtain ⟨rfl, hview₂⟩ := onCode_ok h₂
  -- all ways out of the `try` meet at one label
  let T := (terms (view s₁)).label (view s₁).code.labels (some (view s₁).widths.sum)
  let frame : TryFrame := ⟨(view s₁).stack.records, (view s₁).stack.depth, result,
    (view s₁).code.labels, parts.finally?⟩
  have hground : Ground T.base (view s₁) frame.base := hbase
  have g₂ : Grown T (view s₁) 0 (view s₂) := by
    rw [hview₂]
    exact (Grown.ofValid g₁.valid).newLabel _
  obtain ⟨reachable, s₃, h₃, hrun⟩ := State.ok_of_bind hrun
  obtain ⟨s₄, t₄, hs₄, h₄, ht₄⟩ := withinTry_ok h₃
  have g₄ : Grown T (view s₁) 0 (view s₄) := hs₄ ▸ g₂.setTryDepth _
  have hfounded : Founded frame T (view s₁) :=
    ⟨⟨fun p hp => hp.1, rfl, rfl, rfl, rfl⟩, g₁.valid.orderly, hground, rfl, hresult, fun p hp => hp.2⟩
  obtain ⟨g₅, hdead₅⟩ := g₄.compileRegions hc hfounded rfl h₄
  have hview₃ := ht₄ g₅.methods_ne
  have g₃ : Grown T (view s₁) 0 (view s₃) := hview₃ ▸ g₅.setTryDepth _
  have hdead₃ : (view s₃).reach = none := by
    rw [hview₃]
    exact hdead₅
  obtain ⟨⟨⟩, s₆, h₆, hrun⟩ := State.ok_of_bind hrun
  split at hrun
  · obtain ⟨⟨⟩, s₇, h₇, hrun⟩ := State.ok_of_bind hrun
    have hstart : startAt (view s₁).stack.records (view s₁).code.labels s₃ = .ok _ s₇ := (State.bind_of_ok h₆).trans h₇
    obtain ⟨g₇, -, -⟩ := g₃.startAt (q := []) hbase hstart (List.mem_cons_self ..) (Nat.le_refl _) (by simp)
      (.inl hdead₃) (fun p hp => hp.2)
    obtain ⟨⟨⟩, s₈, h₈, hrun⟩ := State.ok_of_bind hrun
    obtain ⟨g₈, hp₈, hslot₈⟩ := g₇.load (Nat.lt_of_lt_of_le hresult g₇.since.slots_le) h₈
    have g₉ := (g₈.freeSlot hslot₈).close (Nat.le_refl _) (by simp [terms])
    rw [modifyCode_ok hrun]
    rw [Nat.zero_add] at g₉
    exact ⟨_, g₉, .inr hp₈.top⟩
  · obtain ⟨⟨⟩, s₇, h₇, hrun⟩ := State.ok_of_bind hrun
    have hview₇ : view s₇ = (view s₃).update { (view s₃).work with
        stack := settledStack (view s₃).stack (view s₁).stack.records none } := by
      rw [modifyStack_ok h₇, modifyStack_ok h₆]
      rfl
    have g₇ : Grown T (view s₁) 0 (view s₇) := hview₇ ▸ g₃.unreach hdead₃ hbase
    have g₈ := (g₇.freeSlot (Nat.lt_of_lt_of_le hresult g₇.since.slots_le)).awaiting (q := []) (by simp)
    have g₉ := g₈.close (Nat.le_refl _) (by simp [terms])
    rw [modifyCode_ok hrun]
    refine .of_dead g₉ ?_
    rw [View.reach_update, hview₇]
    exact hbase.reach_settled _ none

end Forms

end LispMachine.Emission
