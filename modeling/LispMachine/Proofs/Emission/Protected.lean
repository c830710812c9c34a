import Mathlib.Data.List.Forall2
import LispMachine.Proofs.Emission.FencedForms
import LispMachine.Proofs.Emission.Segments
import LispMachine.Proofs.Machine.Protection

/-! # Compiled `try`

The code of a `try` with a `finally` is laid out as `Machine.TryLayout` says.  Each part of it is emitted behind a
fence at its start, and so is a stretch of the finished method; the handlers are put up in the order of the parts,
each behind those of the part it watches over.  So every run that leaves the form has run `finally` once
(`compileTry_runs`). -/

namespace LispMachine.Emission

open Form
open CodeBuffer (Item PendingHandler)
open Machine (Stretch Part)

/-- The code of an action stands between two positions of a buffer. -/
def CodeOf (b : CodeBuffer) (x : FormM Unit) (first last : Nat) : Prop :=
  ∃ s t, x s = .ok () t ∧ Contains b (view s) (view t) ∧ positionIn b (view s) = first ∧
    positionIn b (view t) = last

/-! ### Parts -/

section Parts

variable {h : Handlers} {frame : TryFrame} {a b : CodeBuffer} {code : Code} {v e : View} {s s₁ s₂ s₃ t : FormState}
  {u : Unit} {through : Bool}

/-- A part of a `try` in a finished method: it starts at a view, its handlers get up to another, and it is left
at a third. -/
structure PartOf (h : Handlers) (frame : TryFrame) (b : CodeBuffer) (code : Code) (v e w : View) (p : Part) :
    Prop where
  laid : p.Laid code frame.result frame.after
  first : p.first = positionIn b v
  last : p.last = positionIn b e
  close : p.close = positionIn b w
  handlers : resolved code (added v w) = p.own ++ p.copyOwn
  copy : p.ends = true → CodeOf b (compileFinally h frame.finally?) p.last p.copied

theorem leaveTry_ok (hne : (view s).methods ≠ []) (hrun : leaveTry h frame s = .ok through t) :
    ((view s).reach = none ∧ s = t ∧ through = false) ∨
      (view s).reach ≠ none ∧ through = true ∧ ∃ s₁, compileFinally h frame.finally? s = .ok () s₁ ∧
        FormM.emit (.goto frame.after) s₁ = .ok () t := by
  obtain ⟨dead, s₁, h₁, hrun⟩ := State.ok_of_bind hrun
  obtain ⟨rfl, rfl⟩ := isUnreachable_ok h₁ hne
  split at hrun
  · rename_i hdead
    cases hrun
    exact .inl ⟨reach_of_dead hdead, rfl, rfl⟩
  · rename_i hlive
    rw [Bool.not_eq_true] at hlive
    obtain ⟨⟨⟩, s₁, h₁, hrun⟩ := State.ok_of_bind hrun
    obtain ⟨⟨⟩, s₂, h₂, hrun⟩ := State.ok_of_bind hrun
    cases hrun
    refine .inr ⟨?_, rfl, s₁, h₁, h₂⟩
    rw [View.reach_of_live hlive]
    nofun

/-- A `store` is emitted where control gets, and control goes on behind it. -/
theorem reach_store {slot : Nat} (hrun : FormM.emit (.store slot .any) s = .ok u t) :
    ((view t).reach = none ↔ (view s).reach = none) := by
  constructor
  · intro hdead
    by_contra hlive
    have hdead' := isUnreachable_of_reach hdead
    rw [live_emit hrun rfl (isUnreachable_of_reach_ne hlive)] at hdead'
    cases hdead'
  · intro hdead
    rw [view_emit_of_dead hrun hdead]
    exact hdead

/-- The copy of `finally` behind a part. -/
theorem finally_emitted (hc : Compiles h) (hf : ∀ F, Confines F h) {kept : List Nat} {body : Option (List Datum)}
    (hmid : Midway kept (view s)) (hsealed : Sealed (view s)) (hlive : (view s).reach ≠ none)
    (hrun : compileFinally h body s = .ok u t) : Emitted kept (view s) (view t) :=
  hmid.emitted hsealed hlive ((Grown.ofValid hmid.valid).compileFinally hc hrun) (holds_terms hmid.made)
    (respects_compileFinally (hf _) body) hrun

theorem part_of (hc : Compiles h) (hf : ∀ F, Confines F h) (hbody : Emitted [frame.result] v (view s₁))
    (hstore : FormM.emit (.store frame.result .any) s₁ = .ok u s₂) (hseam : Seam (view s₂) (view s₃))
    (hlater : Later [frame.result] (view s₂) (view s₃)) (hleave : leaveTry h frame s₃ = .ok through t)
    (hcode : Finished b code) (ha : Retains a a v.code) (hb : Retains a (view t).code b) :
    ∃ p, PartOf h frame b code v (view s₃) (view t) p ∧ p.stored = positionIn b (view s₁) ∧ through = p.ends := by
  have hmid := hlater.midway
  obtain ⟨-, hleaves⟩ := respects_leaveTry (hf _) (.inr (List.mem_singleton_self _))
    (hmid.gated hlater.isSealed [] [frame.after]) hleave
  have hout : Retains {} (view s₃).code (view t).code := hleaves.fenced.code.front
  have hbehind : Retains {} (view s₁).code (view t).code :=
    ((retains_emit hstore).trans hlater.retains).trans hout
  have hstretch := hbody.stretch b code hcode (ha.within hbehind hb)
  have hadded₃ : added v (view s₃) = added v (view s₁) := by
    rw [hbody.retains.added_trans ((retains_emit hstore).trans hlater.retains),
      added_of_same (hseam.handlers.trans (handlers_emit hstore)), List.append_nil]
  have hadded : added v (view t) = added v (view s₁) ++ added (view s₃) (view t) := by
    rw [← hadded₃]
    exact (hbody.retains.trans ((retains_emit hstore).trans hlater.retains)).added_trans hout
  have hdead : (view s₃).reach = none ↔ (view s₁).reach = none := by
    rw [hseam.reach]
    exact reach_store hstore
  rcases leaveTry_ok hmid.valid.working hleave with ⟨hnone, rfl, rfl⟩ | ⟨hlive, rfl, s₄, hcopy, hgoto⟩
  · -- nothing is stored where control does not get
    have hview : view s₂ = view s₁ := view_emit_of_dead hstore (hdead.1 hnone)
    have hlast : positionIn b (view s₃) = positionIn b (view s₁) := by rw [hseam.positionIn, hview]
    rw [hdead.1 hnone] at hstretch
    refine ⟨⟨positionIn b v, positionIn b (view s₁), false, positionIn b (view s₁), false,
      resolved code (added v (view s₁)), []⟩, ⟨⟨hstretch.mono (by simp), nofun, nofun, nofun, fun _ => ⟨rfl, rfl, rfl⟩⟩,
      rfl, hlast.symm, hlast.symm, ?_, nofun⟩, rfl, rfl⟩
    rw [hadded₃, List.append_nil]
  · have hlive₁ : (view s₁).reach ≠ none := fun hnone => hlive (hdead.2 hnone)
    have hends : (view s₁).reach.isSome = true := Option.isSome_iff_ne_none.2 hlive₁
    have hahead : Ahead (view t) b := hb.items
    obtain ⟨hput, hnext, -⟩ := emit_placed hcode hstore (isUnreachable_of_reach_ne hlive₁)
      ((hlater.retains.trans hout).items.trans hahead)
    have hlast : positionIn b (view s₃) = positionIn b (view s₁) + 1 := (hseam.positionIn b).trans hnext
    have hfinally := finally_emitted hc hf hmid hlater.isSealed hlive hcopy
    have ha₃ : Retains a a (view s₃).code :=
      ha.trans (hbody.retains.trans ((retains_emit hstore).trans hlater.retains)).ofEmpty
    have hcopied : Retains (view s₃).code (view s₄).code b := ha₃.within (retains_emit hgoto) hb
    have hcopyStretch := hfinally.stretch b code hcode hcopied
    have hgone : added (view s₃) (view t) = added (view s₃) (view s₄) := by
      rw [hfinally.retains.added_trans (retains_emit hgoto), added_of_same (handlers_emit hgoto), List.append_nil]
    rw [hends] at hstretch
    rw [hlast] at hcopyStretch
    refine ⟨⟨positionIn b v, positionIn b (view s₁), true, positionIn b (view s₄), (view s₄).reach.isSome,
      resolved code (added v (view s₁)), resolved code (added (view s₃) (view s₄))⟩,
      ⟨⟨hstretch.mono (by simp), fun _ => hput, fun _ => hcopyStretch, fun hthrough => ?_, nofun⟩, rfl,
        hlast.symm, ?_, ?_, fun _ => ⟨s₃, s₄, hcopy, hcopied.contains, hlast, rfl⟩⟩, rfl, rfl⟩
    · exact (emit_placed hcode hgoto (isUnreachable_of_reach_ne (Option.isSome_iff_ne_none.1 hthrough)) hahead).1
    · cases hreach : (view s₄).reach with
      | none => simp [Part.close, view_emit_of_dead hgoto hreach]
      | some depth =>
        have hlive₄ : (view s₄).stack.isUnreachable = false := (View.live_of_reach hreach).1
        simp [Part.close, (emit_placed hcode hgoto hlive₄ hahead).2.1]
    · rw [hadded, hgone, resolved_append]

end Parts

/-! ### Handlers -/

section Handlers

variable {h : Handlers} {frame : TryFrame} {T : Terms} {v₀ : View} {s s₁ s₂ t : FormState} {u u' : Unit} {l : Label}
  {ranges : List (Label × Label)} {catches : Option String} {kept : List Nat}

/-- What watching over some ranges puts up. -/
def watching (frame : TryFrame) (l : Label) (catches : Option String) (ranges : List (Label × Label)) :
    List PendingHandler := ranges.map fun r => ⟨r.1, r.2, l, catches, frame.depth⟩

theorem code_addHandlers
    (hrun : (ranges.forM fun range => FormM.modifyCode fun code =>
      code.addHandler range.1 range.2 l catches frame.depth) s = .ok u t) :
    (view t).code.items = (view s).code.items ∧
      (view t).code.handlers.toList = (view s).code.handlers.toList ++ watching frame l catches ranges := by
  induction ranges generalizing s with
  | nil =>
    cases hrun
    simp [watching]
  | cons r rest ih =>
    obtain ⟨⟨⟩, s₁, h₁, hrun⟩ := State.ok_of_bind hrun
    obtain ⟨hitems, hhandlers⟩ := ih hrun
    rw [hitems, hhandlers, modifyCode_ok h₁]
    simp [watching, CodeBuffer.addHandler]

/-- A handler for some ranges starts at a label behind all code in front of it. -/
theorem handler_opened {ty : Ty} (g : Grown T v₀ 0 (view s)) (hdead : (view s).reach = none)
    (hbase : Ground T.base v₀ frame.base) (hdepth : frame.depth = T.base.sum)
    (hranges : ∀ r ∈ ranges, ⟨r.1, r.2, T.base.sum⟩ ∈ T.regions) (hty : ty.width = 1)
    (hmid : Midway kept (view s)) (hsealed : Sealed (view s)) (h₁ : FormM.newLabel s = .ok l s₁)
    (h₂ : (ranges.forM fun range => FormM.modifyCode fun code =>
      code.addHandler range.1 range.2 l catches frame.depth) s₁ = .ok u s₂)
    (h₃ : startHandler frame ty l s₂ = .ok u' t) :
    Grown T v₀ 1 (view t) ∧ (view t).reach ≠ none ∧ Later kept (view s) (view t) ∧
      (view t).code.items.toList = (view s).code.items.toList ++ [Item.label l] ∧
      added (view s) (view t) = watching frame l catches ranges := by
  obtain ⟨g₁, hs₁, hfresh, hlabels, hpending⟩ := g.handlerLabel h₁
  have h₂' := h₂
  rw [hdepth] at h₂'
  obtain ⟨g₂, hs₂⟩ := g₁.addHandlers hbase.start hranges h₂'
  have hdead₂ : (view s₂).reach = none := by
    rw [← hdead, View.reach, hs₂, hs₁, ← View.reach]
  obtain ⟨g₃, hreach, hitems⟩ := g₂.startHandler hdead₂ hbase hty hfresh hlabels hpending h₃
  obtain ⟨hitems₂, hhandlers₂⟩ := code_addHandlers h₂
  have hview₁ := (onCode_ok h₁).2
  have hcode : (view t).code.handlers = (view s₂).code.handlers := by
    obtain ⟨⟨⟩, s', h', h₃⟩ := State.ok_of_bind h₃
    rw [modifyCode_ok h₃, modifyStack_ok h']
    rfl
  have hlater : Later kept (view s) (view t) := by
    have hfence := hmid.gated hsealed [] []
    obtain ⟨hl, hh₁⟩ := yields_newLabel hfence h₁
    obtain ⟨-, hh₂⟩ := (Respects.forM fun r _ => respects_modifyCode fun _ hc =>
      hc.addHandler r.1 r.2 hl catches frame.depth) hh₁.fenced h₂
    obtain ⟨-, hh₃⟩ := respects_startHandler ty hl hh₂.fenced h₃
    have hh := hh₁.trans (hh₂.trans hh₃)
    exact ⟨hmid.next hh g₃.valid, hsealed.next hh, hh.fenced.code.front⟩
  refine ⟨g₃, hreach ▸ Option.some_ne_none _, hlater, ?_, added_of_append ?_⟩
  · rw [hitems, hitems₂, hview₁]
    rfl
  · rw [hcode, hhandlers₂, hview₁]
    rfl

end Handlers

/-! ### Regions -/

/-- The body of a `try` or one of its clauses in a finished method: the code between two views.  The handlers that
start it come in front of its own. -/
structure RegionOf (h : Handlers) (frame : TryFrame) (b : CodeBuffer) (code : Code) (value : FormM Unit)
    (opening : List PendingHandler) (v w : View) (r : (Label × Label) × Bool) (p : Part) : Prop where
  retains : Retains {} v.code w.code
  laid : p.Laid code frame.result frame.after
  first : p.first = positionIn b v
  close : p.close = positionIn b w
  start : CodeBuffer.resolve code.labels r.1.1 = .ok p.first
  stop : CodeBuffer.resolve code.labels r.1.2 = .ok p.last
  ends : r.2 = p.ends
  handlers : resolved code (added v w) = resolved code opening ++ (p.own ++ p.copyOwn)
  value : CodeOf b value p.first p.stored
  copy : p.ends = true → CodeOf b (compileFinally h frame.finally?) p.last p.copied

section Regions

variable {h : Handlers} {frame : TryFrame} {a b : CodeBuffer} {code : Code} {s s' s₁ s₂ s₃ s₄ t : FormState}
  {u : Unit} {through : Bool} {first last : Label} {value : FormM Unit}

theorem positionIn_label {v w : View} (hitems : w.code.items.toList = v.code.items.toList ++ [Item.label first])
    (b : CodeBuffer) : positionIn b w = positionIn b v := by
  rw [positionIn, hitems, place_append]
  rfl

/-- A value that is compiled behind a label and stored, in front of another, makes a region. -/
theorem region_of (hc : Compiles h) (hf : ∀ F, Confines F h)
    (hitems : (view s').code.items.toList = (view s).code.items.toList ++ [Item.label first])
    (hopen : Retains {} (view s).code (view s').code) (hvalue : value s' = .ok () s₁)
    (hemitted : Emitted [frame.result] (view s') (view s₁))
    (hstore : FormM.emit (.store frame.result .any) s₁ = .ok u s₂) (hlast : FormM.here s₂ = .ok last s₃)
    (hseam : Seam (view s₃) (view s₄)) (hlater : Later [frame.result] (view s₂) (view s₄))
    (hleave : leaveTry h frame s₄ = .ok through t) (hcode : Finished b code) (ha : Retains a a (view s).code)
    (hb : Retains a (view t).code b) :
    ∃ p, RegionOf h frame b code value (added (view s) (view s')) (view s) (view t) ((first, last), through) p := by
  obtain ⟨hhere, hitems₃⟩ := seam_here hlast
  have ha' : Retains a a (view s').code := ha.trans hopen.ofEmpty
  obtain ⟨p, hp, hstored, hends⟩ := part_of hc hf hemitted hstore (hhere.trans hseam) hlater hleave hcode ha' hb
  have hout : Retains {} (view s₄).code (view t).code := by
    obtain ⟨-, hh⟩ := respects_leaveTry (hf _) (.inr (List.mem_singleton_self _))
      (hlater.midway.gated hlater.isSealed [] [frame.after]) hleave
    exact hh.fenced.code.front
  have hbehind : Retains {} (view s₁).code (view t).code := ((retains_emit hstore).trans hlater.retains).trans hout
  have hstart : positionIn b (view s') = positionIn b (view s) := positionIn_label hitems b
  refine ⟨p, hopen.trans (hemitted.retains.trans hbehind), hp.laid, hp.first.trans hstart, hp.close, ?_, ?_, hends, ?_,
    ?_, hp.copy⟩
  · rw [hp.first, hstart]
    exact hcode.resolve_end hitems ((hemitted.retains.trans hbehind).items.trans hb.items)
  · have hstop : positionIn b (view s₄) = positionIn b (view s₂) := (hhere.trans hseam).positionIn b
    rw [hp.last, hstop]
    refine hcode.resolve_end hitems₃ ?_
    obtain ⟨ls, hls⟩ := hseam.items
    exact Ahead.of_append (hout.items.trans hb.items) hls
  · rw [hopen.added_trans (hemitted.retains.trans hbehind), resolved_append, hp.handlers]
  · exact ⟨s', s₁, hvalue, (ha'.within hbehind hb).contains, hp.first.symm, hstored.symm⟩

end Regions

/-! ### Clauses -/

section Clauses

variable {h : Handlers} {frame : TryFrame} {T : Terms} {v₀ v w : View} {a b : CodeBuffer} {code : Code}
  {s t : FormState} {range : Label × Label} {c : CatchClause} {r : (Label × Label) × Bool} {kept : List Nat}

/-- Scopes do not matter to what is emitted. -/
theorem Midway.scoped (h : Midway kept v) {scopes : Scopes} (hv : Valid { v with scopes }) :
    Midway kept { v with scopes } := ⟨hv, h.made, h.loops, h.free, h.used⟩

/-- A change of free slots only. -/
theorem Retains.slots (c : CodeBuffer) (slots : List Nat) (log : List CodeBuffer.Transfer) :
    Retains a c { c with freeSlots := slots, transfers := log } :=
  { Retains.refl a c with }

theorem catch_of (hc : Compiles h) (hf : ∀ F, Confines F h) (g : Grown T v₀ 0 (view s)) (hdead : (view s).reach = none)
    (hfounded : Founded frame T v₀) (hmade : LoopsMade v₀) (hrange : ⟨range.1, range.2, T.base.sum⟩ ∈ T.regions)
    (hmid : Midway [frame.result] (view s)) (hsealed : Sealed (view s))
    (hrun : compileCatch h frame range c s = .ok r t) (hcode : Finished b code) (ha : Retains a a (view s).code)
    (hb : Retains a (view t).code b) :
    ∃ p, RegionOf h frame b code (clauseValue h c) (watching frame r.1.1 (some c.cls) [range]) (view s) (view t) r
      p := by
  obtain ⟨s₁, s₂, s₃, s₄, h₁, h₂, h₃, h₄, h₅⟩ := compileCatch_ok hrun
  have hforM : ([range].forM fun range => FormM.modifyCode fun code =>
      code.addHandler range.1 range.2 r.1.1 (some c.cls) frame.depth) s₁ = .ok ⟨⟩ s₂ := State.bind_of_ok h₂
  obtain ⟨g₃, hlive₃, hlater₃, hitems₃, hadded₃⟩ := handler_opened g hdead hfounded.ground hfounded.depth
    (fun r hr => List.mem_singleton.1 hr ▸ hrange) rfl hmid hsealed h₁ hforM h₃
  have hroot := hfounded.root
  have hground : Ground v₀.widths v₀ frame.base := hroot.base ▸ hfounded.ground
  have c₃ : Grown (terms v₀) (view s₃) 1 (view s₃) := by
    refine .start g₃.valid ?_ (g₃.scopes.trans hroot.scopes) (g₃.loops.trans hroot.loops)
      (g₃.tail.trans hroot.tail) rfl rfl rfl rfl
    have hover := g₃.based
    rwa [hroot.base] at hover
  obtain ⟨c₄, -⟩ := c₃.storedClause hc hground (Nat.lt_of_lt_of_le hfounded.result g₃.since.slots_le) h₄
  obtain ⟨s₅, t₅, hclause, c₅, hs₅, hstack, ⟨slots, log, hslots⟩, -⟩ := c₃.withScope h₄
  obtain ⟨s₆, s₇, s₈, l, h₆, h₇, h₈, h₉⟩ := storedClause_ok hclause
  have hcode₅ : (view s₅).code = (view s₃).code := by rw [hs₅]; rfl
  have hlive₅ : (view s₅).reach ≠ none := by rw [hs₅]; exact hlive₃
  have hmid₅ : Midway [frame.result] (view s₅) := by
    have hvalid := c₅.valid
    rw [hs₅] at hvalid ⊢
    exact hlater₃.midway.scoped hvalid
  have hsealed₅ : Sealed (view s₅) := by
    rw [hs₅]
    exact hlater₃.isSealed
  -- the value is a stretch behind the start of the handler
  obtain ⟨f, c₆⟩ := Grown.clauseValue hc (v := view s₅)
    (.start c₅.valid c₅.based c₅.scopes c₅.loops c₅.tail rfl rfl rfl rfl) hground h₆
  have hlabels : v₀.code.labels ≤ (view s₅).code.labels := hcode₅ ▸ g₃.since.labels_le
  have hholds : ∀ p : Blueprint, (∀ l < (view s₅).code.labels, p.depthOf l = v₀.reach) →
      ((terms v₀).inside f).holds p :=
    fun p hp => holds_terms hmade p fun l hl => hp l (Nat.lt_of_lt_of_le hl hlabels)
  have hemitted : Emitted [frame.result] (view s₅) (view s₆) :=
    hmid₅.emitted hsealed₅ hlive₅ c₆ hholds (respects_clauseValue (hf _) c) h₆
  have hdescribed := modifyCode_ok h₉
  have hlater : Later [frame.result] (view s₇) (view s₄) := by
    have hrespects : Respects ((view s₃).gate [frame.result] [frame.result] []) (storedClause h frame c) :=
      respects_storedClause (hf _) (fun hspares => hspares.2 (List.mem_singleton_self _)) c
    have hwhole := hlater₃.midway.later hlater₃.isSealed (hrespects.withScope .methodLet) h₄ c₄.valid
    refine ⟨hwhole.midway, hwhole.isSealed, ?_⟩
    rw [hslots, hdescribed, (onCode_ok h₈).2]
    exact ((Retains.refl _ _).here.describeLocal _ _ _ _ _).trans (.slots _ _ _)
  have hseam : Seam (view s₈) (view s₄) := by
    refine ⟨⟨[], ?_⟩, ?_, ?_⟩
    · rw [hslots, hdescribed]
      simp [CodeBuffer.describeLocal]
    · rw [hslots, hdescribed]
      rfl
    · rw [View.reach, hstack, hdescribed]
      rfl
  have hopen : added (view s) (view s₅) = watching frame r.1.1 (some c.cls) [range] := by
    rw [added, hcode₅, ← added, hadded₃]
  rw [← hopen]
  exact region_of hc hf (hcode₅ ▸ hitems₃) (hcode₅ ▸ hlater₃.retains) h₆ hemitted h₇ h₈ hseam hlater h₅ hcode ha hb

/-- Clauses that have been compiled one behind the other, between two views. -/
inductive ClausesOf (h : Handlers) (frame : TryFrame) (b : CodeBuffer) (code : Code) (range : Label × Label) :
    View → View → List CatchClause → List ((Label × Label) × Bool) → List (String × Part) → Prop where
  | nil (v : View) : ClausesOf h frame b code range v v [] [] []
  | cons {u v w : View} {c : CatchClause} {cs : List CatchClause} {r : (Label × Label) × Bool}
      {rs : List ((Label × Label) × Bool)} {p : Part} {ps : List (String × Part)}
      (head : RegionOf h frame b code (clauseValue h c) (watching frame r.1.1 (some c.cls) [range]) u v r p)
      (rest : ClausesOf h frame b code range v w cs rs ps) :
      ClausesOf h frame b code range u w (c :: cs) (r :: rs) ((c.cls, p) :: ps)

theorem catches_of (hc : Compiles h) (hf : ∀ F, Confines F h) {catches : List CatchClause}
    {caught : List ((Label × Label) × Bool)} (g : Grown T v₀ 0 (view s)) (hdead : (view s).reach = none)
    (hfounded : Founded frame T v₀) (hmade : LoopsMade v₀) (hrange : ⟨range.1, range.2, T.base.sum⟩ ∈ T.regions)
    (hmid : Midway [frame.result] (view s)) (hsealed : Sealed (view s))
    (hrun : catches.mapM (compileCatch h frame range) s = .ok caught t) (hcode : Finished b code)
    (ha : Retains a a (view s).code) (hb : Retains a (view t).code b) :
    ∃ ps, ClausesOf h frame b code range (view s) (view t) catches caught ps := by
  have hrespects (v : View) (c : CatchClause) :
      Respects (v.gate [frame.result] [frame.result] [frame.after]) (compileCatch h frame range c) :=
    respects_compileCatch (hf _) (fun hspares => hspares.2 (List.mem_singleton_self _))
      (.inr (List.mem_singleton_self _)) range c
  induction catches generalizing T s caught with
  | nil =>
    cases hrun
    exact ⟨[], .nil _⟩
  | cons c rest ih =>
    rw [List.mapM_cons] at hrun
    obtain ⟨r, s₁, h₁, hrun⟩ := State.ok_of_bind hrun
    obtain ⟨rs, s₂, h₂, hrun⟩ := State.ok_of_bind hrun
    cases hrun
    obtain ⟨g₁, hdead₁⟩ := g.compileCatch hc hdead hfounded hrange h₁
    have hlater₁ := hmid.later hsealed (hrespects _ c) h₁ g₁.valid
    have hfounded₁ := hfounded.withRegions (⟨r.1.1, r.1.2, T.base.sum⟩ :: T.regions)
    obtain ⟨regions, g₂, -⟩ := g₁.compileCatches hc hdead₁ hfounded₁ (List.mem_cons_of_mem _ hrange) h₂
    have hlater₂ := hlater₁.midway.later hlater₁.isSealed (Yields.mapM fun c _ => hrespects _ c).respects h₂ g₂.valid
    obtain ⟨ps, hps⟩ := ih g₁ hdead₁ hfounded₁ (List.mem_cons_of_mem _ hrange) hlater₁.midway hlater₁.isSealed h₂
      (ha.trans hlater₁.retains.ofEmpty)
    obtain ⟨p, hp⟩ := catch_of hc hf g hdead hfounded hmade hrange hmid hsealed h₁ hcode ha
      (hlater₂.retains.ofEmpty.trans hb)
    exact ⟨(c.cls, p) :: ps, .cons hp hps⟩

/-- The labels of a range stand where a part starts, and where it ends. -/
def Spans (code : Code) (range : Label × Label) (p : Part) : Prop :=
  CodeBuffer.resolve code.labels range.1 = .ok p.first ∧ CodeBuffer.resolve code.labels range.2 = .ok p.last

theorem resolved_watching {l : Label} {target : Nat} {catches : Option String} {ranges : List (Label × Label)}
    {ps : List Part} (hl : CodeBuffer.resolve code.labels l = .ok target)
    (hspans : List.Forall₂ (Spans code) ranges ps) :
    resolved code (watching frame l catches ranges) = ps.map fun p => p.handler target catches frame.depth := by
  induction hspans with
  | nil => rfl
  | @cons range p ranges ps hp _ ih =>
    have hresolve : CodeBuffer.resolveHandler code.labels ⟨range.1, range.2, l, catches, frame.depth⟩
        = .ok (p.handler target catches frame.depth) := by
      simp only [CodeBuffer.resolveHandler, hp.1, hp.2, hl]
      rfl
    have hsplit : watching frame l catches (range :: ranges)
        = [⟨range.1, range.2, l, catches, frame.depth⟩] ++ watching frame l catches ranges := rfl
    rw [hsplit, resolved_append, resolved_singleton hresolve, ih]
    rfl

namespace ClausesOf

variable {cs : List CatchClause} {rs : List ((Label × Label) × Bool)} {ps : List (String × Part)} {p : Part}

theorem retains (h' : ClausesOf h frame b code range v w cs rs ps) : Retains {} v.code w.code := by
  induction h' with
  | nil => exact .refl _ _
  | cons head _ ih => exact head.retains.trans ih

theorem laid (h' : ClausesOf h frame b code range v w cs rs ps) :
    ∀ q ∈ ps, q.2.Laid code frame.result frame.after := by
  induction h' with
  | nil => simp
  | cons head _ ih => exact List.forall_mem_cons.2 ⟨head.laid, ih⟩

/-- The clauses stand one behind the other. -/
theorem ordered (h' : ClausesOf h frame b code range v w cs rs ps) :
    positionIn b v ≤ positionIn b w ∧ (∀ q ∈ ps.map Prod.snd, positionIn b v ≤ q.first ∧ q.close ≤ positionIn b w) ∧
      (ps.map Prod.snd).Pairwise fun p q => p.close ≤ q.first := by
  induction h' with
  | nil => simp
  | @cons u v w c cs r rs p ps head _ ih =>
    obtain ⟨hle, hbetween, hpairwise⟩ := ih
    have hfirst := head.first
    have hclose := head.close
    have hlast := head.laid.last_le
    have hstored := head.laid.first_le
    have hend := p.stored_le_last
    have hcopied := p.copied_le_close
    refine ⟨by omega, List.forall_mem_cons.2 ⟨by dsimp only; omega, fun q hq => ?_⟩,
      List.pairwise_cons.2 ⟨fun q hq => ?_, hpairwise⟩⟩
    · obtain ⟨hq₁, hq₂⟩ := hbetween q hq
      omega
    · obtain ⟨hq₁, hq₂⟩ := hbetween q hq
      dsimp only
      omega

/-- The handlers of the clauses, in order: each starts its clause, and those inside the clause follow. -/
theorem handlers (h' : ClausesOf h frame b code range v w cs rs ps) (hspans : Spans code range p) :
    resolved code (added v w)
      = ps.flatMap fun q => p.handler q.2.first (some q.1) frame.depth :: (q.2.own ++ q.2.copyOwn) := by
  induction h' with
  | nil => simp [added_self]
  | @cons u v w c cs r rs q ps head rest ih =>
    rw [head.retains.added_trans rest.retains, resolved_append, head.handlers, ih,
      resolved_watching head.start (.cons hspans .nil)]
    rfl

theorem spans (h' : ClausesOf h frame b code range v w cs rs ps) :
    List.Forall₂ (Spans code) (rs.map Prod.fst) (ps.map Prod.snd) := by
  induction h' with
  | nil => exact .nil
  | cons head _ ih => exact .cons ⟨head.start, head.stop⟩ ih

/-- Where one of the clauses comes to its end, control gets behind the form. -/
theorem ends (h' : ClausesOf h frame b code range v w cs rs ps) :
    ∀ q ∈ ps, q.2.ends = true → rs.any Prod.snd = true := by
  induction h' with
  | nil => simp
  | cons head _ ih =>
    refine List.forall_mem_cons.2 ⟨fun hends => ?_, fun q hq hends => ?_⟩
    · rw [List.any_cons, head.ends, hends, Bool.true_or]
    · rw [List.any_cons, ih q hq hends, Bool.or_true]

theorem values (h' : ClausesOf h frame b code range v w cs rs ps) :
    List.Forall₂ (fun c q => q.1 = c.cls ∧ CodeOf b (clauseValue h c) q.2.first q.2.stored) cs ps := by
  induction h' with
  | nil => exact .nil
  | cons head _ ih => exact .cons ⟨rfl, head.value⟩ ih

theorem copies (h' : ClausesOf h frame b code range v w cs rs ps) :
    ∀ q ∈ ps, q.2.ends = true → CodeOf b (compileFinally h frame.finally?) q.2.last q.2.copied := by
  induction h' with
  | nil => simp
  | cons head _ ih => exact List.forall_mem_cons.2 ⟨head.copy, ih⟩

end ClausesOf

end Clauses

/-! ### Pending exceptions -/

/-- The handler of pending exceptions in a finished method: the exception is held in a slot, `finally` is run, and
the exception is thrown again. -/
structure PendingOf (h : Handlers) (frame : TryFrame) (b : CodeBuffer) (code : Code) (ranges : List (Label × Label))
    (v w : View) (l : Label) (held copied : Nat) (through : Bool) (own : List Handler) : Prop where
  start : CodeBuffer.resolve code.labels l = .ok (positionIn b v)
  hold : code.instructions[positionIn b v]? = some (.store held .any)
  copy : Stretch code [held] own (positionIn b v + 1) copied through
  rethrow : through = true → code.instructions[copied]? = some (.load held .any) ∧
    code.instructions[copied + 1]? = some .throwTop
  close : positionIn b w = if through then copied + 2 else copied
  handlers : resolved code (added v w) = resolved code (watching frame l none ranges) ++ own
  value : CodeOf b (compileFinally h frame.finally?) (positionIn b v + 1) copied
  slot : held < w.code.nextSlot

section Pending

variable {h : Handlers} {frame : TryFrame} {T : Terms} {v₀ : View} {a b : CodeBuffer} {code : Code}
  {s t : FormState} {u : Unit} {ranges : List (Label × Label)} {kept : List Nat} {n : Nat}

/-- A slot that is given out was not in use, and is so from there on. -/
theorem Midway.allocSlot (h : Midway kept (view s)) (hv : Valid (view t)) (hrun : FormM.allocSlot s = .ok n t) :
    n ∉ kept ∧ Midway (n :: kept) (view t) := by
  obtain ⟨rfl, hview⟩ := onCode_ok hrun
  rw [hview] at hv ⊢
  obtain ⟨hnew, hadmits⟩ := (h.admits [] []).allocSlot
  have hfree := h.free
  have hslot : (view s).code.allocSlot.1 < (view s).code.allocSlot.2.nextSlot ∧
      (view s).code.allocSlot.1 ∉ (view s).code.allocSlot.2.freeSlots := by
    have hlt := h.valid.free
    unfold CodeBuffer.allocSlot
    cases hslots : (view s).code.freeSlots with
    | nil => simp
    | cons slot rest =>
      rw [hslots, List.nodup_cons] at hfree
      rw [hslots] at hlt
      exact ⟨hlt slot (List.mem_cons_self ..), hfree.1⟩
  exact ⟨hnew, hv, h.made.mono rfl hadmits.front.labels_le, h.loops, hadmits.free,
    List.forall_mem_cons.2 ⟨hslot, hadmits.used⟩⟩

theorem pending_of (hc : Compiles h) (hf : ∀ F, Confines F h) (g : Grown T v₀ 0 (view s))
    (hdead : (view s).reach = none) (hfounded : Founded frame T v₀)
    (hranges : ∀ r ∈ ranges, ⟨r.1, r.2, T.base.sum⟩ ∈ T.regions) (hmid : Midway [] (view s))
    (hsealed : Sealed (view s)) (hfinal : frame.finally?.isSome = true)
    (hrun : compilePending h frame ranges s = .ok u t) (hcode : Finished b code) (ha : Retains a a (view s).code)
    (hb : Retains a (view t).code b) :
    ∃ l held copied through own,
      PendingOf h frame b code ranges (view s) (view t) l held copied through own := by
  rw [compilePending, if_pos hfinal] at hrun
  obtain ⟨l, s₁, h₁, hrun⟩ := State.ok_of_bind hrun
  obtain ⟨⟨⟩, s₂, h₂, hrun⟩ := State.ok_of_bind hrun
  obtain ⟨⟨⟩, s₃, h₃, hrun⟩ := State.ok_of_bind hrun
  obtain ⟨held, s₅, h₄, hrun⟩ := State.ok_of_bind hrun
  obtain ⟨⟨⟩, s₆, h₆, hrun⟩ := State.ok_of_bind hrun
  obtain ⟨⟨⟩, s₇, h₇, hrun⟩ := State.ok_of_bind hrun
  obtain ⟨⟨⟩, s₈, h₈, hrun⟩ := State.ok_of_bind hrun
  obtain ⟨g₃, hlive₃, hlater₃, hitems₃, hadded₃⟩ := handler_opened g hdead hfounded.ground hfounded.depth hranges rfl
    hmid hsealed h₁ h₂ h₃
  have g₃ : Grown T v₀ (0 + Ty.any.width) (view s₃) := g₃
  obtain ⟨g₅, hslot₅⟩ := g₃.storeLocal h₄
  obtain ⟨held, s₄, h₄, hstore⟩ := State.ok_of_bind h₄
  obtain ⟨⟨⟩, s₅, h₅, hstore⟩ := State.ok_of_bind hstore
  cases hstore
  obtain ⟨g₄, -, hstack₄⟩ := g₃.allocSlot h₄
  have hview₄ := (onCode_ok h₄).2
  obtain ⟨hfreed, hhandlers, hlast⟩ := freeSlot_placed (a := {}) hrun
  -- the exception is stored in a slot that is in use from here on
  have hlater₄ := hlater₃.midway.later hlater₃.isSealed (yields_allocSlot (F := (view s₃).fence [])).respects h₄
    g₄.valid
  have hmid₄ : Midway [held] (view s₄) := (hlater₃.midway.allocSlot g₄.valid h₄).2
  have hspares : ¬((view s₄).gate [held] [held] []).Spares held := fun hspares =>
    hspares.2 (List.mem_singleton_self _)
  have hlater₅ := hmid₄.later hlater₄.isSealed (respects_emit (.rewrite hspares .any)) h₅ g₅.valid
  have hlive₄ : (view s₄).stack.isUnreachable = false := hstack₄ ▸ isUnreachable_of_reach_ne hlive₃
  have hlive₅ : (view s₅).reach ≠ none := fun hnone =>
    absurd (isUnreachable_of_reach ((reach_store h₅).1 hnone)) (by simp [hlive₄])
  have hfinally := finally_emitted hc hf hlater₅.midway hlater₅.isSealed hlive₅ h₆
  have hthrown : Retains {} (view s₆).code (view s₈).code := (retains_emit h₇).trans (retains_emit h₈)
  have hbefore : Retains {} (view s).code (view s₅).code :=
    hlater₃.retains.trans (hlater₄.retains.trans hlater₅.retains)
  have hcopied : Retains (view s₅).code (view s₆).code b :=
    (ha.trans hbefore.ofEmpty).within (hthrown.trans hfreed) hb
  have hahead₈ : Ahead (view s₈) b := hfreed.items.trans hb.items
  have hahead₅ : Ahead (view s₅) b := (hfinally.retains.items.trans hthrown.items).trans hahead₈
  obtain ⟨hput, hnext, -⟩ := emit_placed hcode h₅ hlive₄ hahead₅
  have hfirst : positionIn b (view s₄) = positionIn b (view s) := by
    rw [← positionIn_label hitems₃ b]
    exact positionIn_of_items (by rw [hview₄, View.code_update, allocSlot_items]) b
  rw [hfirst] at hput hnext
  have hstretch := hfinally.stretch b code hcode hcopied
  rw [hnext] at hstretch
  have hadded : added (view s) (view t) = watching frame l none ranges ++ added (view s₅) (view s₆) := by
    have halloc : added (view s₃) (view s₅) = [] :=
      added_of_same (by rw [handlers_emit h₅, hview₄, View.code_update, allocSlot_handlers])
    have hthrow : added (view s₆) (view t) = [] :=
      added_of_same (by rw [hhandlers, handlers_emit h₈, handlers_emit h₇])
    rw [hbefore.added_trans (hfinally.retains.trans (hthrown.trans hfreed)),
      hlater₃.retains.added_trans (hlater₄.retains.trans hlater₅.retains), hadded₃, halloc, List.append_nil,
      hfinally.retains.added_trans (hthrown.trans hfreed), hthrow, List.append_nil]
  have hslot : held < (view t).code.nextSlot :=
    Nat.lt_of_lt_of_le hslot₅ (hfinally.retains.trans (hthrown.trans hfreed)).slots_le
  have hresolve : CodeBuffer.resolve code.labels l = .ok (positionIn b (view s)) :=
    hcode.resolve_end hitems₃ ((hlater₄.retains.trans hlater₅.retains).items.trans hahead₅)
  refine ⟨l, held, positionIn b (view s₆), (view s₆).reach.isSome, resolved code (added (view s₅) (view s₆)),
    hresolve, hput, hstretch, fun hthrough => ?_, ?_, by rw [hadded, resolved_append],
    ⟨s₅, s₆, h₆, hcopied.contains, hnext, rfl⟩, hslot⟩
  · have hlive₆ := isUnreachable_of_reach_ne (Option.isSome_iff_ne_none.1 hthrough)
    obtain ⟨hthrow, -, hahead₇⟩ := emit_placed hcode h₈ (live_emit h₇ rfl hlive₆) hahead₈
    obtain ⟨hload, hnext₇, -⟩ := emit_placed hcode h₇ hlive₆ hahead₇
    exact ⟨hload, hnext₇ ▸ hthrow⟩
  · rw [hlast]
    cases hreach : (view s₆).reach with
    | none =>
      have hview₇ := view_emit_of_dead h₇ hreach
      rw [view_emit_of_dead h₈ (hview₇ ▸ hreach), hview₇]
      rfl
    | some depth =>
      have hlive₆ : (view s₆).stack.isUnreachable = false := (View.live_of_reach hreach).1
      obtain ⟨-, hnext₈, hahead₇⟩ := emit_placed hcode h₈ (live_emit h₇ rfl hlive₆) hahead₈
      obtain ⟨-, hnext₇, -⟩ := emit_placed hcode h₇ hlive₆ hahead₇
      rw [hnext₈, hnext₇]
      rfl

end Pending

end LispMachine.Emission
