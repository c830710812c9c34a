import LispMachine.Proofs.Emission.Dispatch
import LispMachine.Proofs.Emission.Protected

/-! # Every way out of a compiled `try`

The regions of a `try` with a `finally` come one behind the other, and the handlers of the method are put up in the
order of the code: those inside a region first, then the one that starts a clause, and those for pending exceptions
last.  So the code of the form is laid out as `Machine.TryLayout.Laid` asks, and every run that leaves it has run one
copy of `finally`, from its start (`compileTry_runs`). -/

namespace LispMachine.Emission

open Form
open CodeBuffer (Item PendingHandler)
open Machine (Stretch Part TryLayout)

/-! ### Labels and positions -/

section Labels

variable {b : CodeBuffer} {code : Code} {v : View} {l : Label} {pc : Nat}

/-- A label among the code of a view stands in front of its end. -/
theorem Finished.resolve_le (hb : Finished b code) (hahead : Ahead v b) (hmem : l ∈ labelsOf v.code.items.toList)
    (hl : CodeBuffer.resolve code.labels l = .ok pc) : pc ≤ positionIn b v := by
  obtain ⟨front, back, hsplit⟩ := exists_split_of_mem hmem
  obtain ⟨rest, hrest⟩ := hahead
  have hitems : b.items.toList = front ++ .label l :: (back ++ rest) := by simp [← hrest, hsplit]
  rw [hb.resolve hitems] at hl
  obtain rfl := Except.ok.inj hl
  rw [positionIn, hsplit, place_append]
  exact Nat.le_add_right _ _

/-- A label that is not among the code of a view does not stand in front of its end. -/
theorem Finished.le_resolve (hb : Finished b code) (hahead : Ahead v b) (hfresh : l ∉ labelsOf v.code.items.toList)
    (hl : CodeBuffer.resolve code.labels l = .ok pc) : positionIn b v ≤ pc := by
  obtain ⟨front, back, hsplit, rfl⟩ := hb.split_of_resolve hl
  obtain ⟨rest, hrest⟩ := hahead
  obtain ⟨front', hfront⟩ := suffix_of_fresh (hsplit.symm.trans hrest.symm) hfresh
  have heq : front = v.code.items.toList ++ front' := by
    rw [← hrest, hfront, ← List.append_assoc] at hsplit
    exact (List.append_cancel_right hsplit).symm
  rw [heq, positionIn, place_append]
  exact Nat.le_add_right _ _

end Labels

/-- All handlers so far watch over code that is complete. -/
def Watched (v : View) : Prop := ∀ h ∈ v.code.handlers.toList, h.last ∈ labelsOf v.code.items.toList

section Handlers

variable {a b : CodeBuffer} {code : Code} {v w : View} {r : Handler}

/-- Handlers that are put up for what is emitted watch over parts of it. -/
theorem Watched.next {T : Terms} {k : Nat} {outer : Option Nat} (h : Watched v) (hv : Orderly v.code)
    (g : Grown T v k w) (hholds : ∀ p : Blueprint, (∀ l < v.code.labels, p.depthOf l = outer) → T.holds p) :
    Watched w := by
  obtain ⟨p, seg, hs, -, hpiece⟩ := g.piece hv hholds
  intro hd hmem
  rw [hpiece.items, labelsOf_append, List.mem_append]
  rw [hpiece.handlers, List.mem_append] at hmem
  rcases hmem with hmem | hmem
  · exact .inl (h hd hmem)
  · obtain ⟨⟨front, between, back, d, rfl, -⟩, -⟩ := (hpiece.guarded hd hmem).1
    exact .inr (by simp)

/-- The start of a loop in the code. -/
def headOf? : LoopTarget → Option Label
  | .compiled head _ _ => some head
  | .evaluated _ _ => none

/-- What holds of a method under construction wherever a form is compiled, every form keeps. -/
theorem handlers_midway [Libraries] (fuel : Nat) {d : Datum} {s t : FormState} {u : Unit} (hmid : Midway [] (view s))
    (hwatched : Watched (view s)) (hrun : (handlers fuel).compile d s = .ok u t) :
    Midway [] (view t) ∧ Watched (view t) := by
  obtain ⟨_, g, -⟩ := compiles_handlers fuel hmid.valid hrun
  have hfenced : Fenced ((view s).gate [] [] ((view s).loops.filterMap headOf?)) (view s) := by
    refine hmid.fencedOff [] _ fun head slots d rest hloops _ _ => ⟨?_, fun _ _ => List.not_mem_nil⟩
    simp [hloops, headOf?]
  obtain ⟨-, hheeds⟩ := respects_handlers _ fuel d hfenced hrun
  exact ⟨hmid.next hheeds g.valid, hwatched.next hmid.valid.orderly g (holds_terms hmid.made)⟩

/-- Handlers that were put up before are not in force behind. -/
theorem Watched.last_le (h : Watched v) (hb : Finished b code) (hahead : Ahead v b)
    (hr : r ∈ resolved code v.code.handlers.toList) : r.last ≤ positionIn b v := by
  obtain ⟨hd, hhd, hresolve⟩ := mem_resolved hr
  exact hb.resolve_le hahead (h hd hhd) (resolveHandler_ok hresolve).2.1

/-- Handlers that are put up later lead to code behind. -/
theorem Retains.target_ge (h : Retains a v.code b) (horderly : Orderly v.code) (hb : Finished b code)
    (hr : r ∈ resolved code (b.handlers.toList.drop v.code.handlers.size)) : positionIn b v ≤ r.target := by
  obtain ⟨hs, hsplit, htargets⟩ := h.handlers
  rw [hsplit, ← Array.length_toList, List.drop_left] at hr
  obtain ⟨hd, hhd, hresolve⟩ := mem_resolved hr
  refine hb.le_resolve h.items (fun hmem => ?_) (resolveHandler_ok hresolve).2.2.1
  exact Nat.lt_irrefl _ (Nat.lt_of_lt_of_le (horderly.labels_lt _ hmem) (htargets hd hhd))

end Handlers

/-! ### Regions -/

/-- The regions of a `try` with a `finally` in a finished method, as a layout has them. -/
structure RegionsOf (h : Handlers) (frame : TryFrame) (b : CodeBuffer) (code : Code) (parts : TryParts) (v w : View)
    (reachable : Bool) (L : TryLayout) : Prop where
  retains : Retains {} v.code w.code
  entry : L.entry = positionIn b v
  close : L.close = positionIn b w
  laid : ∀ p ∈ L.parts, p.Laid code frame.result frame.after
  ordered : L.parts.Pairwise fun p q => p.close ≤ q.first
  before : ∀ p ∈ L.parts, p.close ≤ L.pending
  hold : code.instructions[L.pending]? = some (.store L.held .any)
  copy : Stretch code [L.held] L.copyOwn (L.pending + 1) L.copied L.through
  rethrow : L.through = true → code.instructions[L.copied]? = some (.load L.held .any) ∧
    code.instructions[L.copied + 1]? = some .throwTop
  leave : ∀ p ∈ L.parts, p.through = true → reachable = true
  handlers : resolved code (added v w) = L.handlers
  held : L.held < w.code.nextSlot
  body : CodeOf b (bodyValue h parts.body) L.body.first L.body.stored
  clauses : List.Forall₂ (fun c q => q.1 = c.cls ∧ CodeOf b (clauseValue h c) q.2.first q.2.stored) parts.catches
    L.clauses
  copies : ∀ p ∈ L.parts, p.ends = true → CodeOf b (compileFinally h frame.finally?) p.last p.copied
  pending : CodeOf b (compileFinally h frame.finally?) (L.pending + 1) L.copied

section Regions

variable {h : Handlers} {frame : TryFrame} {T : Terms} {v₀ : View} {a b : CodeBuffer} {code : Code}
  {s t : FormState} {parts : TryParts} {reachable : Bool}

theorem regions_of (hc : Compiles h) (hf : ∀ F, Confines F h) (g : Grown T v₀ 0 (view s))
    (hfounded : Founded frame T v₀) (hmade : LoopsMade v₀)
    (hmid : Midway [frame.result] (view s)) (hsealed : Sealed (view s))
    (hlive : (view s).reach ≠ none) (hfinal : frame.finally?.isSome = true)
    (hrun : compileRegions h parts frame s = .ok reachable t) (hcode : Finished b code)
    (ha : Retains a a (view s).code) (hb : Retains a (view t).code b) (exit : Nat) (earlier later : List Handler) :
    ∃ L, RegionsOf h frame b code parts (view s) (view t) reachable L ∧ L.result = frame.result ∧
      L.after = frame.after ∧ L.exit = exit ∧ L.earlier = earlier ∧ L.later = later := by
  obtain ⟨first, last, through, caught, s₁, s₂, s₃, s₄, s₅, s₆, h₁, h₂, h₃, h₄, h₅, h₆, h₇, rfl⟩ :=
    compileRegions_ok hrun
  have hspares (v : View) : ¬(v.gate [frame.result] [frame.result] [frame.after]).Spares frame.result :=
    fun hspares => hspares.2 (List.mem_singleton_self _)
  have hleads (v : View) : (v.gate [frame.result] [frame.result] [frame.after]).Leads frame.after :=
    .inr (List.mem_singleton_self _)
  -- what each step keeps
  have hlater₁ := hmid.later hsealed (yields_here (F := (view s).fence _)).respects h₁ (g.here_closed h₁).valid
  obtain ⟨hseam₁, hitems₁⟩ := seam_here h₁
  have c₂ : Grown (terms (view s₁)) (view s₁) (0 + Ty.any.width) (view s₂) :=
    bodyValue_grown hc hlater₁.midway.valid h₂
  have hemitted : Emitted [frame.result] (view s₁) (view s₂) :=
    hlater₁.midway.emitted hlater₁.isSealed (hseam₁.reach ▸ hlive) c₂ (holds_terms hlater₁.midway.made)
      ((respects_compileBody (hf _) parts.body).bind fun _ => respects_boxTop) h₂
  have hresult : frame.result < (view s₂).code.nextSlot := Nat.lt_of_lt_of_le hfounded.result
    (Nat.le_trans g.since.slots_le (hlater₁.retains.trans hemitted.retains).slots_le)
  obtain ⟨c₃, -⟩ := c₂.store hresult h₃
  have hlater₃ := hemitted.midway.later hemitted.isSealed (respects_emit (.rewrite (hspares _) .any)) h₃ c₃.valid
  have hlater₄ := hlater₃.midway.later hlater₃.isSealed (yields_here (F := (view s₃).fence _)).respects h₄
    (c₃.here_closed h₄).valid
  obtain ⟨g₅, hdead₅⟩ := g.compileProtected hc hfounded h₁ h₂ h₃ h₄ h₅
  have hlater₅ := hlater₄.midway.later hlater₄.isSealed (respects_leaveTry (hf _) (hleads _)) h₅ g₅.valid
  have hrange : ⟨first, last, T.base.sum⟩ ∈ (T.ranged ⟨first, last, T.base.sum⟩).regions := List.mem_cons_self ..
  have hfounded₅ := hfounded.withRegions (⟨first, last, T.base.sum⟩ :: T.regions)
  obtain ⟨rs, g₆, hdead₆, hold, hnew⟩ := g₅.compileCatches hc hdead₅ hfounded₅ hrange h₆
  have hlater₆ := hlater₅.midway.later hlater₅.isSealed
    (Yields.mapM fun c _ => respects_compileCatch (hf _) (hspares _) (hleads _) (first, last) c).respects h₆ g₆.valid
  have hranges : ∀ r ∈ (first, last) :: caught.map Prod.fst, ⟨r.1, r.2, T.base.sum⟩ ∈ rs := by
    intro r hr
    rcases List.mem_cons.1 hr with rfl | hr
    · exact hold _ hrange
    · obtain ⟨q, hq, rfl⟩ := List.mem_map.1 hr
      exact hnew q hq
  have hfounded₆ := hfounded.withRegions rs
  obtain ⟨g₇, -⟩ := g₆.compilePending hc hdead₆ hfounded₆ hranges h₇
  have hlater₇ := hlater₆.midway.later hlater₆.isSealed
    (respects_compilePending (hf ((view s₆).fence _)) _) h₇ g₇.valid
  -- what stands where
  have ha₅ : Retains a a (view s₅).code :=
    ha.trans (hlater₁.trans (hemitted.toLater.trans (hlater₃.trans (hlater₄.trans hlater₅)))).retains.ofEmpty
  have hb₆ : Retains a (view s₆).code b := hlater₇.retains.ofEmpty.trans hb
  have hb₅ : Retains a (view s₅).code b := hlater₆.retains.ofEmpty.trans hb₆
  obtain ⟨p, hp⟩ := region_of hc hf hitems₁ hlater₁.retains h₂ hemitted h₃ h₄ (.refl _) hlater₄ h₅ hcode ha hb₅
  obtain ⟨ps, hps⟩ := catches_of hc hf g₅ hdead₅ hfounded₅ hmade hrange hlater₅.midway hlater₅.isSealed h₆ hcode ha₅ hb₆
  obtain ⟨l, held, copied, through', own, hpending⟩ := pending_of hc hf g₆ hdead₆ hfounded₆ hranges
    (hlater₆.midway.mono (by simp)) hlater₆.isSealed hfinal h₇ hcode (ha₅.trans hlater₆.retains.ofEmpty) hb
  let L : TryLayout := ⟨p, ps, positionIn b (view s₆), copied, through', own, frame.result, held, frame.after, exit,
    frame.depth, earlier, later⟩
  obtain ⟨hle, hbetween, hpairwise⟩ := hps.ordered
  have hclose : p.close ≤ positionIn b (view s₆) := by
    rw [hp.close]
    exact hle
  have hspans : Spans code (first, last) p := ⟨hp.start, hp.stop⟩
  have hopening : added (view s) (view s₁) = [] := added_of_same hseam₁.handlers
  have hhandlers : resolved code (added (view s) (view t)) = L.handlers := by
    rw [hp.retains.added_trans (hlater₆.retains.trans hlater₇.retains), hlater₆.retains.added_trans hlater₇.retains,
      resolved_append, resolved_append, hp.handlers, hopening, hps.handlers hspans, hpending.handlers,
      resolved_watching hpending.start (.cons hspans hps.spans)]
    simp only [TryLayout.handlers, resolved_nil, List.nil_append, List.append_assoc]
    rfl
  have hends : ∀ q ∈ L.parts, q.through = true → (through || caught.any Prod.snd) = true := by
    refine List.forall_mem_cons.2 ⟨fun hthrough => ?_, fun q hq hthrough => ?_⟩
    · have hends : through = p.ends := hp.ends
      rw [hends, hp.laid.ends_of_through hthrough, Bool.true_or]
    · obtain ⟨c, hmem, rfl⟩ := List.mem_map.1 hq
      rw [hps.ends c hmem ((hps.laid c hmem).ends_of_through hthrough), Bool.or_true]
  refine ⟨L, ⟨(hp.retains.trans hlater₆.retains).trans hlater₇.retains, hp.first, hpending.close.symm, ?_, ?_, ?_,
    hpending.hold, hpending.copy, hpending.rethrow, hends, hhandlers, hpending.slot, hp.value, hps.values, ?_,
    hpending.value⟩, rfl, rfl, rfl, rfl, rfl⟩
  · refine List.forall_mem_cons.2 ⟨hp.laid, fun q hq => ?_⟩
    obtain ⟨c, hmem, rfl⟩ := List.mem_map.1 hq
    exact hps.laid c hmem
  · exact List.pairwise_cons.2 ⟨fun q hq => hp.close ▸ (hbetween q hq).1, hpairwise⟩
  · exact List.forall_mem_cons.2 ⟨hclose, fun q hq => (hbetween q hq).2⟩
  · refine List.forall_mem_cons.2 ⟨hp.copy, fun q hq => ?_⟩
    obtain ⟨c, hmem, rfl⟩ := List.mem_map.1 hq
    exact hps.copies c hmem

end Regions

/-! ### The form -/

/-- The code of a `try` with a `finally` in a finished method: how it is laid out, and what its parts are the code
of. -/
structure TryCode (h : Handlers) (b : CodeBuffer) (code : Code) (parts : TryParts) (L : TryLayout) : Prop where
  laid : L.Laid code
  body : CodeOf b (bodyValue h parts.body) L.body.first L.body.stored
  clauses : List.Forall₂ (fun c q => q.1 = c.cls ∧ CodeOf b (clauseValue h c) q.2.first q.2.stored) parts.catches
    L.clauses
  copies : ∀ p ∈ L.parts, p.ends = true → CodeOf b (compileFinally h parts.finally?) p.last p.copied
  pending : CodeOf b (compileFinally h parts.finally?) (L.pending + 1) L.copied
  result : L.result < code.maxLocals
  held : L.held < code.maxLocals

section Form

variable {h : Handlers} {b : CodeBuffer} {code : Code} {s t s₁ t₁ : FormState} {u : Unit} {d : Datum}
  {parts : TryParts} {kept : List Nat} {reachable : Bool} {base : List StackRecord} {result : Nat} {after : Label}

/-- The end of a `try`: all ways out of it meet, or there are none. -/
def endTry (base : List StackRecord) (result : Nat) (after : Label) (reachable : Bool) : FormM Unit := do
  FormM.modifyStack fun s => s.withRecords base
  if reachable then
    FormM.place after
    FormM.emit (.load result .any)
  else FormM.modifyStack TypeStack.pushUnreachable
  FormM.modifyCode fun code => code.freeSlot result

theorem compileTry_ok (hne : (view s).methods ≠ []) (hlive : (view s).reach ≠ none)
    (hparts : tryParts s.world d = .ok parts) (hrun : compileTry h d s = .ok u t) :
    ∃ result after reachable s₁ s₂ s₃, FormM.allocSlot s = .ok result s₁ ∧ FormM.newLabel s₁ = .ok after s₂ ∧
      withinTry (compileRegions h parts ⟨(view s).stack.records, (view s).stack.depth, result, after, parts.finally?⟩)
        s₂ = .ok reachable s₃ ∧ endTry (view s).stack.records result after reachable s₃ = .ok u t := by
  obtain ⟨w, s₁, h₁, hrun⟩ := State.ok_of_bind hrun
  cases h₁
  obtain ⟨parts', s₁, h₁, hrun⟩ := State.ok_of_bind hrun
  obtain ⟨hparts', rfl⟩ := ofExcept_ok h₁
  obtain rfl : parts' = parts := Except.ok.inj (hparts'.symm.trans hparts)
  obtain ⟨dead, s₁, h₁, hrun⟩ := State.ok_of_bind hrun
  obtain ⟨rfl, rfl⟩ := isUnreachable_ok h₁ hne
  rw [isUnreachable_of_reach_ne hlive] at hrun
  obtain ⟨stack, s₁, h₁, hrun⟩ := State.ok_of_bind hrun
  obtain ⟨rfl, rfl, -⟩ := stack_ok h₁
  obtain ⟨result, s₁, h₁, hrun⟩ := State.ok_of_bind hrun
  obtain ⟨after, s₂, h₂, hrun⟩ := State.ok_of_bind hrun
  obtain ⟨reachable, s₃, h₃, hrun⟩ := State.ok_of_bind hrun
  exact ⟨result, after, reachable, s₁, s₂, s₃, h₁, h₂, h₃, hrun⟩

/-- In a `try` no loop outside can be gone back to. -/
theorem Midway.withinTry {v w : View} (h : Midway kept v) (hw : Valid w) (hloops : w.loops = v.loops)
    (hlabels : v.code.labels ≤ w.code.labels) (hfree : w.code.freeSlots = v.code.freeSlots)
    (hslots : w.code.nextSlot = v.code.nextSlot) (hdepth : w.work.tryDepth = v.work.tryDepth + 1) :
    Midway kept w ∧ Sealed w := by
  have hle : ∀ head slots d rest, w.loops = .compiled head slots d :: rest → d < w.work.tryDepth := by
    intro head slots d rest heq
    rw [hdepth]
    exact Nat.lt_succ_of_le (h.loops head slots d rest (hloops ▸ heq))
  refine ⟨⟨hw, h.made.mono hloops hlabels, fun head slots d rest heq => Nat.le_of_lt (hle head slots d rest heq),
    hfree ▸ h.free, by rw [hfree, hslots]; exact h.used⟩, fun head slots d rest heq _ => ?_⟩
  exact Nat.ne_of_lt (hle head slots d rest heq)

/-- Where all ways out meet the value is loaded, and control goes on behind. -/
theorem endTry_placed (hbase : base.contains .unreachable = false) {a : CodeBuffer} (hafter : after < a.labels)
    (hrun : endTry base result after reachable s = .ok u t) (hcode : Finished b code) (hahead : Ahead (view t) b) :
    Retains a (view s).code (view t).code ∧ (view t).code.handlers = (view s).code.handlers ∧
      (reachable = true → ∃ q, Machine.jumpTarget code after = .ok q ∧
        code.instructions[q]? = some (.load result .any) ∧ positionIn b (view s) ≤ q ∧
        q + 1 = positionIn b (view t)) := by
  obtain ⟨⟨⟩, s₁, h₁, hrun⟩ := State.ok_of_bind hrun
  have hcode₁ : (view s₁).code = (view s).code := by rw [modifyStack_ok h₁]; rfl
  split at hrun
  · obtain ⟨⟨⟩, s₂, h₂, hrun⟩ := State.ok_of_bind hrun
    obtain ⟨⟨⟩, s₃, h₃, hrun⟩ := State.ok_of_bind hrun
    obtain ⟨hfreed, hhandlers, hend⟩ := freeSlot_placed (a := a) hrun
    have hview₂ := modifyCode_ok h₂
    have hlive₂ : (view s₂).stack.isUnreachable = false := by
      have hreach : (view s₂).reach = some (TypeStack.slots base) := by
        rw [hview₂, modifyStack_ok h₁]
        exact reach_of_live hbase
      exact (View.live_of_reach hreach).1
    have hplaced : Retains a (view s₁).code (view s₂).code := by
      rw [hview₂]
      exact (Retains.refl _ _).place fun hle => absurd hafter (Nat.not_lt.2 hle)
    obtain ⟨hload, hnext, hahead₂⟩ := emit_placed hcode h₃ hlive₂ (hfreed.items.trans hahead)
    obtain ⟨htarget, hsame, -⟩ := place_placed hcode h₂ hahead₂
    rw [hsame] at hnext hload
    refine ⟨hcode₁ ▸ hplaced.trans ((retains_emit h₃).ofEmpty.trans hfreed), ?_, fun _ => ⟨_, htarget, hload,
      Nat.le_of_eq (by rw [positionIn, positionIn, hcode₁]), by rw [hend, hnext]⟩⟩
    rw [hhandlers, handlers_emit h₃, hview₂, ← hcode₁]
    rfl
  · rename_i hreachable
    obtain ⟨⟨⟩, s₂, h₂, hrun⟩ := State.ok_of_bind hrun
    obtain ⟨hfreed, hhandlers, -⟩ := freeSlot_placed (a := a) hrun
    have hcode₂ : (view s₂).code = (view s).code := by rw [modifyStack_ok h₂, ← hcode₁]; rfl
    exact ⟨hcode₂ ▸ hfreed, by rw [hhandlers, hcode₂], fun heq => absurd heq hreachable⟩

/-- A `try` with a `finally` is laid out in every method that has it. -/
theorem compileTry_laid (hc : Compiles h) (hf : ∀ F, Confines F h) (hmid : Midway [] (view s))
    (hwatched : Watched (view s)) (hlive : (view s).reach ≠ none)
    (hparts : tryParts s.world d = .ok parts) (hfinal : parts.finally?.isSome = true)
    (hrun : compileTry h d s = .ok u t) (hcode : Finished b code) (hb : Retains (view s).code (view t).code b) :
    ∃ L, TryCode h b code parts L ∧ L.entry = positionIn b (view s) ∧ L.exit = positionIn b (view t) := by
  obtain ⟨_, gt, -⟩ := compileTry_leaves hc hmid.valid hrun
  obtain ⟨result, after, reachable, s₁, s₂, s₃, h₁, h₂, h₃, h₄⟩ := compileTry_ok hmid.valid.working hlive hparts hrun
  obtain ⟨g₁, hresult, hs₁⟩ := (Grown.ofValid hmid.valid).allocSlot h₁
  have hmid₁ := (hmid.allocSlot g₁.valid h₁).2
  have hview₁ := (onCode_ok h₁).2
  have hlive₁ : (view s₁).reach ≠ none := by rwa [View.reach, hs₁]
  rw [← hs₁] at h₃ h₄
  obtain ⟨rfl, hview₂⟩ := onCode_ok h₂
  obtain ⟨s₄, t₄, hview₄, h₅, hview₃⟩ := withinTry_ok h₃
  -- all ways out of the `try` meet at one label
  let T := (terms (view s₁)).label (view s₁).code.labels (some (view s₁).widths.sum)
  let frame : TryFrame := ⟨(view s₁).stack.records, (view s₁).stack.depth, result, (view s₁).code.labels,
    parts.finally?⟩
  have hground : Ground T.base (view s₁) frame.base :=
    (Grown.ofValid g₁.valid).ground (isUnreachable_of_reach_ne hlive₁)
  have g₂ : Grown T (view s₁) 0 (view s₂) := by
    rw [hview₂]
    exact (Grown.ofValid g₁.valid).newLabel _
  have g₄ : Grown T (view s₁) 0 (view s₄) := hview₄ ▸ g₂.setTryDepth _
  have hfounded : Founded frame T (view s₁) :=
    ⟨⟨fun p hp => hp.1, rfl, rfl, rfl, rfl⟩, g₁.valid.orderly, hground, rfl, hresult, fun p hp => hp.2⟩
  obtain ⟨g₅, -⟩ := g₄.compileRegions hc hfounded rfl h₅
  have hview₃ := hview₃ g₅.methods_ne
  have hcode₃ : (view s₃).code = (view t₄).code := by rw [hview₃]; rfl
  have hcode₄ : (view s₄).code = (view s₁).code.newLabel.2 := by rw [hview₄, hview₂]; rfl
  have hitems₄ : (view s₄).code.items = (view s).code.items := by
    rw [hcode₄, hview₁]
    exact allocSlot_items _
  have hhandlers₄ : (view s₄).code.handlers = (view s).code.handlers := by
    rw [hcode₄, hview₁]
    exact allocSlot_handlers _
  obtain ⟨hmid₄, hsealed₄⟩ := hmid₁.withinTry (w := view s₄) g₄.valid (by rw [hview₄, hview₂]; rfl)
    (by rw [hcode₄]; exact Nat.le_succ _) (by rw [hcode₄]; rfl) (by rw [hcode₄]; rfl)
    (by rw [hview₄, hview₂]; rfl)
  obtain ⟨hend, hhandlers, hmeet⟩ := endTry_placed hground.live (a := (view s₄).code)
    (by rw [hcode₄]; exact Nat.lt_succ_self _) h₄ hcode hb.items
  rw [hcode₃] at hend hhandlers
  have hstart : Retains {} (view s).code (view s₄).code := by
    rw [hcode₄, hview₁]
    exact ((Retains.refl _ _).allocSlot).newLabel
  have hb₄ : Retains (view s₄).code (view t₄).code b := hend.trans (hb.mono hstart.labels_le hstart.holes_le)
  obtain ⟨L, hL, hLresult, hLafter, hexit, hearlier, hlater⟩ := regions_of hc hf g₄ hfounded hmid₁.made hmid₄ hsealed₄
    (by rw [hview₄, hview₂]; exact hlive₁) hfinal h₅ hcode (.refl _ _) hb₄ (positionIn b (view t))
    (resolved code (view s).code.handlers.toList)
    (resolved code (b.handlers.toList.drop (view t).code.handlers.size))
  have hentry : L.entry = positionIn b (view s) := hL.entry.trans (positionIn_of_items hitems₄ b)
  have hslots : (view t₄).code.nextSlot ≤ code.maxLocals := by
    obtain ⟨room, hfinish⟩ := hcode.finish
    rw [(finish_ok hfinish).2.2.2.1]
    exact hb₄.slots_le
  refine ⟨L, ⟨?_, hL.body, hL.clauses, hL.copies, hL.pending, ?_, Nat.lt_of_lt_of_le hL.held hslots⟩, hentry, hexit⟩
  · have hclose : L.close ≤ L.exit := by
      obtain ⟨rest, hrest⟩ := hend.items
      rw [hL.close, hexit]
      exact Ahead.positionIn_le hrest.symm b
    refine ⟨by rw [hLresult, hLafter]; exact hL.laid, hL.ordered, hL.before, hL.hold, hL.copy, hL.rethrow, hclose,
      fun p hp hthrough => ?_, ?_, fun hd hmem => ?_, fun hd hmem => ?_⟩
    · obtain ⟨q, htarget, hload, hle, hnext⟩ := hmeet (hL.leave p hp hthrough)
      rw [positionIn_of_items (congrArg CodeBuffer.items hcode₃)] at hle
      rw [hLresult, hLafter, hL.close, hexit]
      exact ⟨q, htarget, hload, hle, hnext⟩
    · obtain ⟨hs, hsplit, -⟩ := hb.handlers
      have hbehind : b.handlers.toList.drop (view t).code.handlers.size = hs := by
        rw [hsplit, ← Array.length_toList, List.drop_left]
      rw [hcode.handlers, hearlier, hlater, hbehind, hsplit, hhandlers, hL.retains.handlers_eq, hhandlers₄,
        resolved_append, resolved_append, hL.handlers, List.append_assoc]
    · rw [hearlier] at hmem
      rw [hentry]
      exact hwatched.last_le hcode (hstart.items.trans (hL.retains.items.trans hb₄.items)) hmem
    · rw [hlater] at hmem
      rw [hexit]
      exact fun hinside => Nat.lt_irrefl _ (Nat.lt_of_le_of_lt (hb.target_ge gt.valid.orderly hcode hmem) hinside.2)
  · rw [hLresult]
    exact Nat.lt_of_lt_of_le hresult (Nat.le_trans (by rw [hcode₄]; exact Nat.le_refl _)
      (Nat.le_trans hL.retains.slots_le hslots))

/-- Every run that leaves the code of a `try` with a `finally`, with errors that can be caught, has run `finally`
once.  If the body comes to a value, or the clause for what it raises does, control goes on behind the form with the
value; if an error gets out of the body or of the clause, its exception is thrown again.  An error of `finally` leaves
the form at once. -/
theorem compileTry_runs [Libraries] (fuel : Nat) {body : Machine.Body} (hmid : Midway [] (view s))
    (hwatched : Watched (view s))
    (hlive : (view s).reach ≠ none) (hparts : tryParts s.world d = .ok parts) (hfinal : parts.finally?.isSome = true)
    (hrun : compileTry (handlers fuel) d s = .ok u t) (hcode : Finished b body.code)
    (hb : Retains (view s).code (view t).code b) :
    ∃ L, TryCode (handlers fuel) b body.code parts L ∧ L.entry = positionIn b (view s) ∧
      L.exit = positionIn b (view t) ∧ ∀ (call : Caller) (r r' : Machine.Running) (path : List Nat)
        (way : Machine.Departure), r.frame.pc = L.entry → r.frame.locals.size = body.code.maxLocals →
        Machine.Passes call body L.entry L.exit r path r' way →
        Machine.TryRun call body L r path r' way ∧ L.RunsOnce path := by
  obtain ⟨L, hL, hentry, hexit⟩ := compileTry_laid (compiles_handlers fuel) (fun F => respects_handlers F fuel) hmid
    hwatched hlive hparts hfinal hrun hcode hb
  refine ⟨L, hL, hentry, hexit, fun call r r' path way hpc hsize hpasses => ?_⟩
  have htry := hL.laid.run hpc (hsize ▸ hL.result) (hsize ▸ hL.held) hpasses
  exact ⟨htry, htry.runsOnce hL.laid⟩

end Form

/-! ### One form -/

section Text

open Machine (Passes TryRun)

/-- A text, and another in `finally`. -/
def guardedText : Datum :=
  .ofList [.symbol "try" default, .ofAtom (.str "a") default,
    .ofList [.symbol "finally" default, .ofAtom (.str "b") default] default] default

/-- The code of `guardedText`, with the label at which the ways out of it meet. -/
def guardedCode (l : Label) : List Instruction :=
  [.const (.str "a"), .store 0 .any, .const (.str "b"), .pop, .goto l, .store 1 .any, .const (.str "b"), .pop,
    .load 1 .any, .throwTop, .load 0 .any, .ret .any]

/-- Whether some code is that of `guardedText`. -/
def isGuarded (code : Code) : Bool :=
  match code.instructions.toList with
  | [.const (.str a), .store 0 .any, .const (.str b), .pop, .goto l, .store 1 .any, .const (.str c), .pop,
      .load 1 .any, .throwTop, .load 0 .any, .ret .any] =>
    a == "a" && b == "b" && c == "b" && code.position? l == some 10 && code.maxLocals == 2
  | _ => false

theorem isGuarded_iff {code : Code} (h : isGuarded code = true) :
    ∃ l, code.instructions.toList = guardedCode l ∧ code.position? l = some 10 ∧ code.maxLocals = 2 := by
  unfold isGuarded at h
  split at h
  · rename_i a b l c hcode
    simp only [Bool.and_eq_true, beq_iff_eq] at h
    obtain ⟨⟨⟨⟨rfl, rfl⟩, rfl⟩, hl⟩, hlocals⟩ := h
    exact ⟨l, hcode, hl, hlocals⟩
  · cases h

/-- A running method with two locals. -/
def guardedFrame (pc : Nat) (stack : List Value) (result : Value) : Machine.Running :=
  ⟨{ pc, stack, locals := #[result, .nil] }, {}⟩

theorem guardedFrame_goesOn [Libraries] {call : Caller} {code : Code} {i : Instruction} {pc : Nat}
    {stack stack' : List Value}
    {v v' : Value} (hi : code.instructions[pc]? = some i)
    (hs : Machine.step call ⟨code, [], 0⟩ i (guardedFrame pc stack v) = .ok .next (guardedFrame pc stack' v')) :
    Machine.GoesOn call ⟨code, [], 0⟩ (guardedFrame pc stack v) (guardedFrame (pc + 1) stack' v') := .next hi hs

/-- A run through the body and one copy of `finally`, and on behind the form with the value of the body. -/
theorem guardedText_passes [Libraries] {code : Code} {l : Label} (hcode : code.instructions.toList = guardedCode l)
    (hl : code.position? l = some 10) (call : Caller) :
    Passes call ⟨code, [], 0⟩ 0 11 (guardedFrame 0 [] .nil) [0, 1, 2, 3, 4] (guardedFrame 10 [] (.str "a"))
      (.goes (guardedFrame 11 [.str "a"] (.str "a"))) := by
  have hi (n : Nat) : code.instructions[n]? = (guardedCode l)[n]? := by rw [← Array.getElem?_toList, hcode]
  have hgoto : Machine.step call ⟨code, [], 0⟩ (.goto l) (guardedFrame 4 [] (.str "a"))
      = .ok (.jump l) (guardedFrame 4 [] (.str "a")) := rfl
  have hjump : Machine.GoesOn call ⟨code, [], 0⟩ (guardedFrame 4 [] (.str "a")) (guardedFrame 10 [] (.str "a")) :=
    .jump (hi 4) hgoto (Machine.jumpTarget_of_position hl)
  refine ⟨?_, by simp, by simp [guardedFrame], .goes (guardedFrame_goesOn (hi 10) rfl) (by simp [guardedFrame])⟩
  exact .move (.goes (guardedFrame_goesOn (hi 0) rfl)) <| .move (.goes (guardedFrame_goesOn (hi 1) rfl)) <|
    .move (.goes (guardedFrame_goesOn (hi 2) rfl)) <| .move (.goes (guardedFrame_goesOn (hi 3) rfl)) <|
    .move (.goes hjump) (.refl _)

theorem guardedText_runs : ∃ (t : FormState) (code : Code) (parts : TryParts) (L : TryLayout),
    compileTry (handlers 3) guardedText methodAlone = .ok () t ∧ tryParts {} guardedText = .ok parts ∧
      TryCode (handlers 3) ((view t).code.push (.ret .any)) code parts L ∧ ∀ call, ∃ path way,
        Passes call ⟨code, [], 0⟩ L.entry L.exit (guardedFrame 0 [] .nil) path (guardedFrame 10 [] (.str "a")) way ∧
        TryRun call ⟨code, [], 0⟩ L (guardedFrame 0 [] .nil) path (guardedFrame 10 [] (.str "a")) way ∧
        L.RunsOnce path := by
  obtain ⟨⟨⟩, t, hrun, hend⟩ := State.exists_answer (r := compileTry (handlers 3) guardedText methodAlone)
    (p := fun q => match ((view q.2).code.push (.ret .any)).finish 9 with
      | .ok code => isGuarded code
      | .error _ => false) (by decide +kernel)
  dsimp only at hend
  split at hend
  case h_2 => cases hend
  rename_i code hfinish
  obtain ⟨l, hlist, hl, hlocals⟩ := isGuarded_iff hend
  have hmid : Midway [] (view methodAlone) :=
    ⟨valid_methodAlone, by simp [LoopsMade, view, methodAlone], nofun, List.nodup_nil, by simp⟩
  obtain ⟨parts, hparts, hfinal⟩ : ∃ parts, tryParts methodAlone.world guardedText = .ok parts ∧
      parts.finally?.isSome = true := ⟨_, rfl, rfl⟩
  obtain ⟨_, g, -⟩ := compileTry_leaves (compiles_handlers 3) valid_methodAlone hrun
  let body : Machine.Body := ⟨code, [], 0⟩
  have hcode : Finished ((view t).code.push (.ret .any)) body.code := ⟨g.valid.orderly.push _, 9, hfinish⟩
  obtain ⟨L, hL, hentry, hexit, hruns⟩ := compileTry_runs 3 hmid
    (by simp [Watched, view, methodAlone, View.code, View.work]) (by decide) hparts hfinal hrun hcode
    ((Retains.refl _ _).push _)
  have hentry : L.entry = 0 := hentry
  have hexit : L.exit = 11 := by
    have hlength : code.instructions.toList.length = 12 := by rw [hlist]; rfl
    rw [hcode.instructions, CodeBuffer.push, Array.toList_push, flat_append, List.length_append] at hlength
    rw [hexit]
    exact Nat.succ.inj hlength
  refine ⟨t, code, parts, L, hrun, hparts, hL, fun call => ?_⟩
  have hpasses := guardedText_passes hlist hl call
  rw [← hexit] at hpasses
  rw [hentry] at hruns ⊢
  exact ⟨_, _, hpasses, hruns call _ _ _ _ rfl hlocals.symm hpasses⟩

end Text

end LispMachine.Emission
