import LispMachine.Proofs.Emission.LoopEntry
import LispMachine.Proofs.Emission.Dispatch
import LispMachine.Proofs.Machine.Rebinding

/-! # Compiled `recur`

A compiled `recur` is laid out as `Machine.RecurLayout` says: the code of each argument is a stretch of the finished
method that keeps the depths the compiler has followed (`Piece.floored`), its conversion stands behind it, and the
stores and the jump come last.  So the arguments are computed from left to right while the locals of the loop are as
they were, and then all locals have their new values at the head of the loop (`compileRecur_runs`).  What that takes of
the locals holds where the body of a loop is compiled (`Entered`). -/

namespace LispMachine.Emission

open Form
open CodeBuffer (Item PendingHandler)
open Machine (Argument Chained Floored Placed RecurLayout)

/-! ### Depths in a piece -/

namespace Piece

variable {p : Blueprint} {lo : Nat} {v w : View} {seg : List Item} {hs : List PendingHandler} {b : CodeBuffer}
  {code : Code}

/-- At the end of a piece the depth is that of the view there. -/
theorem meets_end (h : Piece p lo v w seg hs) (hb : Contains b v w) {depth : Nat}
    (hm : Meets p lo v w seg b (positionIn b w) depth) : w.reach = some depth := by
  obtain ⟨front, back, hsplit, hpc, -, hback⟩ := hm
  rw [h.positionIn_eq hb, flat, hsplit, instructionsOf_append, List.length_append] at hpc
  exact hback.eq_of_empty (List.length_eq_zero_iff.mp (by omega))

/-- In front of its end there is an instruction, which fits the depth. -/
theorem meets_instruction (h : Piece p lo v w seg hs) (hb : Contains b v w) {pc depth : Nat}
    (hm : Meets p lo v w seg b pc depth) (hpc : pc < positionIn b w) :
    ∃ front i e back, p.expand seg = front ++ .instruction i :: back ∧
      pc = positionIn b v + (instructionsOf front).length ∧ FlowAlong p lo v.reach front (some depth) ∧
      Fitting p lo depth i e ∧ FlowAlong p lo (exitOf i depth e) back w.reach := by
  obtain ⟨front, back, hsplit, rfl, hfront, hback⟩ := hm
  rw [h.positionIn_eq hb, flat, hsplit, instructionsOf_append, List.length_append] at hpc
  obtain ⟨labels, i, rest, depth', e, rfl, hempty, hlabels, hfit, hrest⟩ := hback.exists_split (n := 0) (by omega)
  obtain rfl : depth' = depth := Option.some.inj (hlabels.eq_of_empty (List.length_eq_zero_iff.mp hempty))
  refine ⟨front ++ labels, i, e, rest, by rw [hsplit, List.append_assoc], ?_,
    flowAlong_append.mpr ⟨_, hfront, hlabels⟩, hfit, hrest⟩
  rw [instructionsOf_append, List.length_append, hempty, Nat.add_zero]

/-- Where a handler of the piece covers an instruction, its operands are above what the handler keeps. -/
theorem covered (h : Piece p lo v w seg hs) (hcode : Finished b code) (hb : Contains b v w) {front back : List Item}
    {i : Instruction} {depth : Nat} {e : Effect} (hsplit : p.expand seg = front ++ .instruction i :: back)
    (hfront : FlowAlong p lo v.reach front (some depth)) (heffect : i.effect p.sites = .ok e) {hd : PendingHandler}
    {r : Handler} (hmem : hd ∈ hs) (hr : CodeBuffer.resolveHandler code.labels hd = .ok r)
    (hcovers : r.covers (positionIn b v + (instructionsOf front).length) = true) :
    hd.stackDepth + e.popped ≤ depth := by
  obtain ⟨hfirst, hlast, -, -⟩ := resolveHandler_ok hr
  obtain ⟨⟨before, inner, behind, d, hrange, hinner⟩, -, -⟩ := (h.guarded hd hmem).1
  obtain ⟨hfirst, -⟩ := h.position_eq hcode hb hrange hfirst
  have hrange' : seg = (before ++ .label hd.first :: inner) ++ .label hd.last :: behind := by simp [hrange]
  obtain ⟨hlast, -⟩ := h.position_eq hcode hb hrange' hlast
  simp only [Handler.covers, Bool.and_eq_true, decide_eq_true_eq, hfirst, hlast, flat_append, List.length_append]
    at hcovers
  obtain ⟨n, hn⟩ := Nat.exists_eq_add_of_le (Nat.le_of_add_le_add_left hcovers.1)
  have hinside : n < (instructionsOf (p.expand inner)).length := by
    have hlt := hcovers.2
    simp only [flat, expand_label, instructionsOf_label] at hlt hn
    omega
  -- the depth at the position, seen from the start of the piece and from the start of the range
  have hat : entry p v.reach (p.expand seg) (instructionsOf front).length = some depth := by
    have hentry := entry_append hfront (.instruction i :: back) 0
    rwa [Nat.add_zero, ← hsplit] at hentry
  have hflow := h.flow
  rw [hrange, expand_append, expand_label, flowAlong_append] at hflow
  obtain ⟨c, hbefore, -, -⟩ := hflow
  rw [hrange, expand_append, expand_label, hn, flat, entry_append hbefore, entry, expand_append,
    entry_of_lt hinside] at hat
  obtain ⟨front', i', back', e', hsplit', hlength, -, hfit, -⟩ := exists_split_of_entry hinner hat
  have hsame : (instructionsOf (p.expand seg))[(instructionsOf front).length]? = some i := by
    rw [hsplit]
    simp
  have hsame' : (instructionsOf (p.expand seg))[(instructionsOf front).length]? = some i' := by
    rw [hrange, hn, expand_append, expand_label, expand_append, hsplit', ← hlength]
    simp [flat]
  obtain rfl := Option.some.inj (hsame.symm.trans hsame')
  obtain rfl := Except.ok.inj (heffect.symm.trans hfit.effect)
  exact hfit.floor

/-- What is emitted behind a fence takes nothing from under its floor. -/
theorem floored {body : Machine.Body} (h : Piece p lo v w seg hs) (hcode : Finished b body.code)
    (hb : Retains v.code w.code b) {kept : List Nat} (hF : (v.fence kept).Admits w.code)
    (hsites : p.sites <+: body.sites) :
    Floored body (resolved body.code hs) lo (positionIn b w) (Meets p lo v w seg b) := by
  intro pc depth hm hpc
  obtain ⟨front, i, e, back, hsplit, rfl, hfront, hfit, hback⟩ := h.meets_instruction hb.contains hm hpc
  have hn : (flat p seg)[(instructionsOf front).length]? = some i := by
    rw [flat, hsplit]
    simp
  refine ⟨i, e, h.instruction hcode hb.contains hn, effect_mono hsites hfit.effect, hfit.needs, hfit.floor,
    fun hends => meets_next hsplit hfront hfit hends hback,
    fun l hl => h.meets_target hcode hb hF hn hl (hfit.targets l hl), fun r hr hcovers => ?_⟩
  obtain ⟨hd, hhd, hresolve⟩ := mem_resolved hr
  obtain ⟨-, -, -, hdepth⟩ := resolveHandler_ok hresolve
  rw [hdepth]
  exact ⟨(h.guarded hd hhd).2, h.covered hcode hb.contains hsplit hfront hfit.effect hhd hresolve hcovers,
    h.meets_handler hcode hb hF hhd hresolve⟩

end Piece

/-! ### Arguments -/

/-- An argument of a layout is the code of a form in a buffer; if control gets to its end, the static type of the
value is the one the compiler has for it, by the classes it knows there. -/
def ArgumentOf (h : Handlers) (b : CodeBuffer) (arg : Datum) (a : Argument) : Prop :=
  ∃ s t, h.compile arg s = .ok () t ∧ Contains b (view s) (view t) ∧ positionIn b (view s) = a.first ∧
    positionIn b (view t) = a.done ∧
    (a.ends = true → (view t).stack.topType? = some a.source ∧ t.world.registry = a.registry)

section Arguments

variable {T : Terms} {v : View} {k w floor : Nat} {h : Handlers} {kept : List Nat} {b a : CodeBuffer}
  {body : Machine.Body} {s t : FormState} {u : Unit} {ty : Ty} {arg : Datum} {slot : Nat}

/-- The conversion of an argument to the type of its local. -/
def convertTop (ty : Ty) : FormM Unit := if ty = .any then FormM.boxTop else FormM.coerceTop ty

theorem respects_convertTop {F : Fence} (ty : Ty) : Respects F (convertTop ty) :=
  .ite respects_boxTop (respects_coerceTop ty)

/-- Where control gets, the conversion is emitted as it is. -/
theorem convertTop_ok (g : Grown T v k (view s)) (htop : Top w (view s)) (hrun : convertTop ty s = .ok u t) :
    ((view s).reach = none ∧ s = t) ∨ ∃ source code, (view s).stack.topType? = some source ∧ source.width = w ∧
      Machine.Converts s.world.registry source ty code ∧ Conversion source.width code ty.width ∧
      FormM.emitAll code s = .ok u t := by
  unfold convertTop at hrun
  split at hrun
  · rename_i hany
    obtain ⟨top, s₁, h₁, hrun⟩ := State.ok_of_bind hrun
    obtain ⟨rfl, rfl⟩ := topType_ok h₁
    rcases g.topType htop with ⟨hnone, hdead⟩ | ⟨source, hsource, hwidth⟩
    · rw [hnone] at hrun
      cases hrun
      exact .inl ⟨hdead, rfl⟩
    · rw [hsource] at hrun
      refine .inr ⟨source, _, hsource, hwidth, by rw [Machine.Converts, if_pos hany], ?_, hrun⟩
      rw [hany]
      exact toBoxed_conversion source
  · rename_i hany
    obtain ⟨top, s₁, h₁, hrun⟩ := State.ok_of_bind hrun
    obtain ⟨rfl, rfl⟩ := topType_ok h₁
    rcases g.topType htop with ⟨hnone, hdead⟩ | ⟨source, hsource, hwidth⟩
    · rw [hnone] at hrun
      cases hrun
      exact .inl ⟨hdead, rfl⟩
    · rw [hsource] at hrun
      obtain ⟨r, s₂, h₂, hrun⟩ := State.ok_of_bind hrun
      cases h₂
      obtain ⟨code, s₃, h₃, hrun⟩ := State.ok_of_bind hrun
      obtain ⟨hcode, rfl⟩ := ofExcept_ok h₃
      exact .inr ⟨source, code, hsource, hwidth, by rw [Machine.Converts, if_neg hany]; exact hcode,
        coerce_conversion hcode, hrun⟩

/-- Instructions stand where they were emitted. -/
theorem placed_of_items {v w : View} {code : List Instruction} (hcode : Finished b body.code)
    (hitems : w.code.items.toList = v.code.items.toList ++ code.map .instruction) (hahead : Ahead w b) :
    Placed body.code (positionIn b v) code ∧ positionIn b w = positionIn b v + code.length := by
  obtain ⟨back, hback⟩ := hahead
  have hsplit : b.items.toList = v.code.items.toList ++ (code.map .instruction ++ back) := by
    rw [← hback, hitems, List.append_assoc]
  refine ⟨fun n i hn => hcode.instruction_at hsplit hn, ?_⟩
  rw [positionIn, hitems, place_map]
  rfl

theorem sites_emit {i : Instruction} (hrun : FormM.emit i s = .ok u t) : (view t).sites = (view s).sites := by
  rcases emit_run hrun with ⟨-, hview⟩ | ⟨-, e, stack, -, -, hview⟩ <;> rw [hview]
  rfl

/-- Instructions that are emitted add no call sites, and leave what has been emitted. -/
theorem emitAll_kept {code : List Instruction} (hrun : FormM.emitAll code s = .ok u t) :
    (view t).sites = (view s).sites ∧ Retains {} (view s).code (view t).code := by
  induction code generalizing s with
  | nil =>
    cases hrun
    exact ⟨rfl, .refl _ _⟩
  | cons i rest ih =>
    obtain ⟨⟨⟩, s₁, h₁, hrun⟩ := State.ok_of_bind hrun
    obtain ⟨hsites, hretains⟩ := ih hrun
    exact ⟨hsites.trans (sites_emit h₁), (retains_emit h₁).trans hretains⟩

/-- What is compiled behind a fence takes nothing from the stack below, and is at its end at the depth of the view
there. -/
theorem Midway.floored (hmid : Midway kept (view s)) (hsealed : Sealed (view s)) {x : FormM Unit}
    (hx : Respects ((view s).fence kept) x) (hrun : x s = .ok u t) (g : Grown (terms (view s)) (view s) k (view t))
    (hlive : (view s).reach = some floor) (hcode : Finished b body.code) (hb : Retains (view s).code (view t).code b)
    (hsites : (view t).sites <+: body.sites) :
    ∃ D, Floored body (resolved body.code (added (view s) (view t))) floor (positionIn b (view t)) D ∧
      D (positionIn b (view s)) floor ∧ ∀ d, D (positionIn b (view t)) d → (view t).reach = some d := by
  obtain ⟨-, hh⟩ := hx (hmid.fenced hsealed) hrun
  obtain ⟨p, seg, hs, hsame, hpiece⟩ := g.piece hmid.valid.orderly (holds_terms hmid.made)
  have hbase : (terms (view s)).base.sum = floor := (View.live_of_reach hlive).2
  rw [hbase] at hpiece
  rw [hpiece.added]
  exact ⟨_, hpiece.floored hcode hb hh.fenced.code (hsame ▸ hsites), hpiece.meets_start hlive,
    fun d hd => hpiece.meets_end hb.contains hd⟩

/-- The layout of an argument in a finished method, between two views. -/
structure Laying (h : Handlers) (b : CodeBuffer) (body : Machine.Body) (kept : List Nat) (floor : Nat) (v w : View)
    (arg : Datum) (slot : Nat) (ty : Ty) (a : Argument) : Prop where
  laid : a.Laid body kept floor
  value : ArgumentOf h b arg a
  slot : a.slot = slot
  target : a.target = ty
  first : a.first = positionIn b v
  close : a.close = positionIn b w
  reach : w.reach = if a.ends then some (floor + ty.width) else none

theorem argument_of (hc : Compiles h) (hf : ∀ F, Confines F h) (hmid : Midway kept (view s)) (hsealed : Sealed (view s))
    (hlive : (view s).reach = some floor) (hrun : compileRecurArg h arg ty s = .ok u t) (hcode : Finished b body.code)
    (ha : Retains a a (view s).code) (hb : Retains a (view t).code b) (hsites : (view t).sites <+: body.sites)
    (slot : Nat) :
    ∃ p, Laying h b body kept floor (view s) (view t) arg slot ty p := by
  obtain ⟨⟨⟩, s₁, h₁, hconvert⟩ := State.ok_of_bind hrun
  obtain ⟨w, g₁, hpushed⟩ := hc hmid.valid h₁
  have hne : (view s).reach ≠ none := hlive ▸ Option.some_ne_none floor
  have hemitted : Emitted kept (view s) (view s₁) :=
    hmid.emitted hsealed hne g₁ (holds_terms hmid.made) (hf _ arg) h₁
  rcases convertTop_ok g₁ hpushed.top hconvert with
    ⟨hdead, rfl⟩ | ⟨source, code, hsource, rfl, hconverts, hconversion, hemit⟩
  · -- control does not get to the end of the argument
    have hpart : Retains (view s).code (view s₁).code b := ha.within (.refl _ _) hb
    obtain ⟨D, hfloored, hstart, hend⟩ := hmid.floored hsealed (hf _ arg) h₁ g₁ hlive hcode hpart hsites
    have hstretch := hemitted.stretch b body.code hcode hpart
    rw [hdead] at hstretch
    exact ⟨⟨positionIn b (view s), positionIn b (view s₁), false, resolved body.code (added (view s) (view s₁)), {},
      .void, [], slot, ty⟩, ⟨hstretch, ⟨D, hfloored, hstart, fun d hd => by cases hdead.symm.trans (hend d hd)⟩, nofun,
      nofun, nofun⟩, ⟨s, s₁, h₁, hpart.contains, rfl, rfl, nofun⟩, rfl, rfl, rfl, rfl, hdead⟩
  · have hlive₁ : (view s₁).stack.isUnreachable = false := by
      by_contra hdead
      rw [Bool.not_eq_false] at hdead
      cases hsource.symm.trans (g₁.valid.steady.dead hdead)
    have hbase : (terms (view s)).base.sum = floor := (View.live_of_reach hlive).2
    have hreach₁ := hbase ▸ g₁.reach_eq hlive₁
    rw [← Nat.zero_add source.width] at g₁
    obtain ⟨g₂, -⟩ := g₁.emitAll hconversion (fun _ => hpushed.top) hemit
    have hreach := g₂.reach_eq (live_emitAll hconversion.ends hemit hlive₁)
    rw [hbase, Nat.zero_add] at hreach
    have hlater := hemitted.midway.later hemitted.isSealed (respects_convertTop (F := (view s₁).fence kept) ty) hconvert
      g₂.valid
    have hpart : Retains (view s).code (view s₁).code b := ha.within hlater.retains hb
    obtain ⟨D, hfloored, hstart, hend⟩ := hmid.floored hsealed (hf _ arg) h₁ g₁ hlive hcode hpart
      ((emitAll_kept hemit).1 ▸ hsites)
    obtain ⟨hplaced, hclose⟩ := placed_of_items hcode (emitAll_items hconversion.ends hlive₁ hemit) hb.items
    have hplain : ∀ i ∈ code, Machine.Plain i := fun i hi =>
      have hquiet := hconversion.quiet i hi
      ⟨hquiet.targets, hquiet.store, hquiet.ret⟩
    have hstretch := hemitted.stretch b body.code hcode hpart
    rw [hreach₁] at hstretch
    exact ⟨⟨positionIn b (view s), positionIn b (view s₁), true, resolved body.code (added (view s) (view s₁)),
      s₁.world.registry, source, code, slot, ty⟩, ⟨hstretch, ⟨D, hfloored, hstart, fun d hd =>
        Option.some.inj ((hend d hd).symm.trans hreach₁)⟩, hplaced, hplain, fun _ => hconverts⟩,
      ⟨s, s₁, h₁, hpart.contains, rfl, rfl, fun _ => ⟨hsource, rfl⟩⟩, rfl, rfl, rfl,
      hclose.symm, hreach⟩

/-- The arguments of a layout are those of a `recur` in their order, up to one whose end control does not get to. -/
structure ArgumentsOf (h : Handlers) (b : CodeBuffer) (args : List Datum) (slots : List (Nat × Ty)) (ps : List Argument)
    (ends : Bool) : Prop where
  values : List.Forall₂ (fun q p => p.slot = q.2.1 ∧ p.target = q.2.2 ∧ ArgumentOf h b q.1 p)
    ((args.zip slots).take ps.length) ps
  all : ends = true → ps.length = slots.length

theorem arguments_of (hc : Compiles h) (hf : ∀ F, Confines F h) {args : List Datum} {slots : List (Nat × Ty)}
    (hlength : args.length = slots.length) (hmid : Midway kept (view s)) (htail : (view s).tail = false)
    (hlive : (view s).reach = some floor)
    (hrun : ((args.zip slots).forM fun (arg, _, ty) => compileRecurArg h arg ty) s = .ok u t)
    (hcode : Finished b body.code) (ha : Retains a a (view s).code) (hb : Retains a (view t).code b)
    (hsites : (view t).sites <+: body.sites) :
    ∃ ps last ends, Chained body kept (positionIn b (view s)) floor ps last ends ∧ ArgumentsOf h b args slots ps ends ∧
      (view t).reach = (if ends then some (floor + slotWidths slots) else none) ∧
      (ends = true → last = positionIn b (view t)) := by
  induction args generalizing s slots floor with
  | nil =>
    obtain rfl := List.length_eq_zero_iff.1 hlength.symm
    cases hrun
    exact ⟨[], _, true, .nil _ _, ⟨.nil, fun _ => rfl⟩, hlive, fun _ => rfl⟩
  | cons arg args ih =>
    cases slots with
    | nil => cases hlength
    | cons q slots =>
      have hlength := Nat.succ.inj hlength
      obtain ⟨⟨⟩, s₁, h₁, hrun⟩ := State.ok_of_bind hrun
      have hsealed := sealed_of_tail htail
      have g₁ := (Grown.ofValid hmid.valid).compileRecurArg hc htail h₁
      have htail₁ : (view s₁).tail = false := g₁.tail.trans htail
      have hlater₁ := hmid.later hsealed (respects_compileRecurArg (F := (view s).fence kept) (hf _) arg q.2) h₁
        g₁.valid
      have g₂ := (Grown.ofValid g₁.valid).compileRecurArgs hc htail₁ hlength hrun
      have hrest : Respects ((view s₁).fence kept)
          ((args.zip slots).forM fun (arg, _, ty) => compileRecurArg h arg ty) :=
        .forM fun p _ => respects_compileRecurArg (hf _) p.1 p.2.2
      have hlater₂ := hlater₁.midway.later hlater₁.isSealed hrest hrun g₂.valid
      obtain ⟨p, hp⟩ := argument_of hc hf hmid hsealed hlive h₁ hcode ha (hlater₂.retains.ofEmpty.trans hb)
        (g₂.since.sites.trans hsites) q.1
      have hvalue := And.intro hp.slot (And.intro hp.target hp.value)
      rw [← hp.first]
      cases hends : p.ends with
      | false =>
        have hreach := hp.reach
        rw [hends] at hreach
        exact ⟨[p], _, false, .stuck hp.laid hends, ⟨.cons hvalue .nil, nofun⟩, g₂.since.dead hreach, nofun⟩
      | true =>
        have hreach := hp.reach
        rw [hends] at hreach
        obtain ⟨ps, last, ends, hchained, hps, hreach', hlast⟩ := ih hlength hlater₁.midway htail₁ hreach hrun
          (ha.trans hlater₁.retains.ofEmpty)
        rw [← hp.close, ← hp.target] at hchained
        refine ⟨p :: ps, last, ends, .cons hp.laid hends hchained, ⟨.cons hvalue hps.values, fun h => ?_⟩, ?_, hlast⟩
        · rw [List.length_cons, List.length_cons, hps.all h]
        · rw [hreach', slotWidths, slotWidths, List.map_cons, List.sum_cons, Nat.add_assoc]

end Arguments

/-! ### The form -/

/-- The code of a `recur` in a finished method: how it is laid out, and what its arguments are the code of. -/
structure RecurCode (h : Handlers) (b : CodeBuffer) (body : Machine.Body) (args : List Datum) (slots : List (Nat × Ty))
    (depth : Nat) (L : RecurLayout) : Prop where
  laid : L.Laid body depth
  kept : L.kept = slots.map Prod.fst
  arguments : ArgumentsOf h b args slots L.arguments L.ends

section Form

variable {h : Handlers} {kept : List Nat} {b : CodeBuffer} {body : Machine.Body} {s t : FormState} {u : Unit}
  {d : Datum} {args : List Datum} {slots : List (Nat × Ty)} {ps : List Argument} {ends : Bool}

theorem map_eq_of_forall₂ {α β γ : Type} {f : β → γ} {g : α → γ} {xs : List α} {ys : List β}
    (h : List.Forall₂ (fun x y => f y = g x) xs ys) : ys.map f = xs.map g := by
  induction h with
  | nil => rfl
  | cons h _ ih => rw [List.map_cons, List.map_cons, h, ih]

/-- The arguments are for the locals of the loop, in their order. -/
theorem ArgumentsOf.locals (h : ArgumentsOf h b args slots ps ends) (hlength : args.length = slots.length) :
    ps.map (fun p => (p.slot, p.target)) = slots.take ps.length := by
  have hall : (args.zip slots).map Prod.snd = slots := List.map_snd_zip (Nat.le_of_eq hlength.symm)
  conv_rhs => rw [← hall, ← List.map_take]
  exact map_eq_of_forall₂ (h.values.imp fun q p hp => Prod.ext hp.1 hp.2.1)

theorem ArgumentsOf.map_slot (h : ArgumentsOf h b args slots ps ends) (hlength : args.length = slots.length) :
    ps.map Argument.slot = (slots.map Prod.fst).take ps.length := by
  rw [← List.map_take, ← h.locals hlength, List.map_map]
  rfl

theorem ArgumentsOf.stores (h : ArgumentsOf h b args slots ps true) (hlength : args.length = slots.length) :
    ps.reverse.map Argument.store = slots.reverse.map fun q => .store q.1 q.2 := by
  have hall : ps.map (fun p => (p.slot, p.target)) = slots := by
    rw [h.locals hlength, h.all rfl, List.take_length]
  rw [← hall, ← List.map_reverse, List.map_map]
  rfl

theorem compileRecur_ok (hrun : compileRecur h d s = .ok u t) :
    ∃ head slots depth rest s₁ s₂, (view s).loops = .compiled head slots depth :: rest ∧ (view s).tail = true ∧
      slots.length = (argsOf d).length ∧ ((view s).methods ≠ [] → depth = (view s).work.tryDepth) ∧
      FormM.withTail false (((argsOf d).zip slots).forM fun (arg, _, ty) => compileRecurArg h arg ty) s = .ok () s₁ ∧
      FormM.emitAll (slots.reverse.map fun q => .store q.1 q.2) s₁ = .ok () s₂ ∧
      FormM.emit (.goto head) s₂ = .ok u t := by
  obtain ⟨target, s₁, h₁, hrun⟩ := State.ok_of_bind hrun
  obtain ⟨rfl, htail, harity, ⟨rest, hloops⟩, hdepth⟩ := recurTarget_ok h₁
  cases target with
  | evaluated arity depth => cases hrun
  | compiled head slots depth =>
    obtain ⟨⟨⟩, s₁, h₁, hrun⟩ := State.ok_of_bind hrun
    obtain ⟨⟨⟩, s₂, h₂, hrun⟩ := State.ok_of_bind hrun
    refine ⟨head, slots, depth, rest, s₁, s₂, hloops, htail, harity, hdepth, h₁, ?_, hrun⟩
    rw [FormM.emitAll, List.forM_eq_forM, List.forM_map]
    exact h₂

/-- A `recur` is laid out in every method that has it. -/
theorem compileRecur_laid (hc : Compiles h) (hf : ∀ F, Confines F h) {head : Label} {depth floor : Nat}
    {rest : List LoopTarget} (hmid : Midway (slots.map Prod.fst) (view s))
    (hloops : (view s).loops = .compiled head slots depth :: rest) (hlive : (view s).reach = some floor)
    (hrun : compileRecur h d s = .ok u t) (hcode : Finished b body.code)
    (hb : Retains (view s).code (view t).code b) (hsites : (view t).sites <+: body.sites) :
    ∃ L, RecurCode h b body (argsOf d) slots floor L ∧ L.entry = positionIn b (view s) ∧ L.head = head := by
  obtain ⟨head', slots', depth', rest', s₁, s₂, hloops', -, hlength, -, h₁, h₂, h₃⟩ := compileRecur_ok hrun
  cases hloops.symm.trans hloops'
  obtain ⟨s₀, t₀, hs₀, hargs, hs₁⟩ := withTail_ok h₁
  have hmid₀ : Midway (slots.map Prod.fst) (view s₀) := hs₀ ▸ hmid.inTail false
  have hcode₁ : (view s₁).code = (view t₀).code := by
    rw [hs₁]
    rfl
  have hstart : (view s₀).code = (view s).code := by
    rw [hs₀]
    rfl
  obtain ⟨hsites₂, hretains₂⟩ := emitAll_kept h₂
  have hbehind : Retains {} (view t₀).code (view t).code := hcode₁ ▸ hretains₂.trans (retains_emit h₃)
  have hb₀ : Retains (view s₀).code (view t₀).code b := hstart ▸ hbehind.ofEmpty.trans hb
  have hsites₀ : (view t₀).sites <+: body.sites := by
    have hsame : (view t₀).sites = (view s₁).sites := by
      rw [hs₁]
      rfl
    rw [hsame, ← hsites₂, ← sites_emit h₃]
    exact hsites
  obtain ⟨ps, last, ends, hchained, hps, hreach, hlast⟩ := arguments_of hc hf hlength.symm hmid₀ (by rw [hs₀])
    (by rw [hs₀]; exact hlive) hargs hcode (.refl _ _) hb₀ hsites₀
  have hentry : positionIn b (view s₀) = positionIn b (view s) :=
    positionIn_of_items (congrArg CodeBuffer.items hstart) b
  rw [hentry] at hchained
  -- where control gets the stores and the jump stand behind the arguments
  have hback : ends = true → Placed body.code last (ps.reverse.map Argument.store ++ [Instruction.goto head]) := by
    rintro rfl
    have hlive₁ : (view s₁).stack.isUnreachable = false := by
      have hreach₁ : (view s₁).reach = some (floor + slotWidths slots) := by
        rw [hs₁]
        exact hreach
      exact (View.live_of_reach hreach₁).1
    have hstores : ∀ i ∈ slots.reverse.map fun q => Instruction.store q.1 q.2, i.endsBlock = false := by
      intro i hi
      obtain ⟨q, -, rfl⟩ := List.mem_map.mp hi
      rfl
    have hitems := items_emit h₃ (live_emitAll hstores h₂ hlive₁)
    rw [emitAll_items hstores hlive₁ h₂, List.append_assoc, ← List.map_singleton, ← List.map_append,
      ← hps.stores hlength.symm] at hitems
    obtain ⟨hplaced, -⟩ := placed_of_items hcode hitems hb.items
    rwa [hlast rfl, ← positionIn_of_items (congrArg CodeBuffer.items hcode₁)]
  refine ⟨⟨ps, slots.map Prod.fst, positionIn b (view s), last, ends, head⟩, ⟨⟨hchained, hback, fun hends => ?_⟩, rfl,
    hps⟩, rfl, rfl⟩
  obtain ⟨front, back, hsplit⟩ := hcode.split_of_target (hback hends).right.head (List.mem_singleton_self head)
  exact ⟨_, hcode.jumpTarget hsplit⟩

/-- A `recur` that is compiled has a loop to go back to, with as many locals as there are arguments, and is in tail
position with no `try` between.  Every run of its code computes the arguments from left to right, while the locals of
the loop are as they were, unless an error gets out of one; once all arguments have been computed the run goes on to
the head of the loop, where every local has its own value, converted to its type, and the stack is as it was. -/
theorem compileRecur_runs [Libraries] (fuel : Nat) (hentered : Entered (view s))
    (hrun : compileRecur (handlers fuel) d s = .ok u t)
    (hcode : Finished b body.code) (hb : Retains (view s).code (view t).code b)
    (hsites : (view t).sites <+: body.sites) :
    ∃ head slots depth rest, (view s).loops = .compiled head slots depth :: rest ∧ (view s).tail = true ∧
      slots.length = (argsOf d).length ∧ depth = (view s).work.tryDepth ∧
      ∀ floor, (view s).reach = some floor → ∃ L, RecurCode (handlers fuel) b body (argsOf d) slots floor L ∧
        L.entry = positionIn b (view s) ∧ L.head = head ∧ ∀ (call : Caller) (r : Machine.Running),
          r.frame.pc = L.entry → r.frame.stack.length = floor → r.frame.locals.size = body.code.maxLocals →
          (∀ path x, Machine.Travels call body r path x →
            Machine.ArgumentsRun call body L.kept L.arguments L.entry L.stores r path x) ∧
          ∀ path vs x, Machine.Computed call body L.arguments r path vs x →
            L.ends = true ∧ Machine.Stays call body L.kept L.entry L.stores r path x ∧
              ∃ path' x', Machine.Travels call body x path' x' ∧ L.Rebinds body vs r x x' := by
  obtain ⟨head, slots, depth, rest, s₁, s₂, hloops, htail, hlength, hdepth, -⟩ := compileRecur_ok hrun
  obtain ⟨hmid, hnodup⟩ := hentered
  rw [loopSlots_of_loops hloops] at hmid hnodup
  refine ⟨head, slots, depth, rest, hloops, htail, hlength, hdepth hmid.valid.working, fun floor hlive => ?_⟩
  obtain ⟨L, hL, hentry, hhead⟩ := compileRecur_laid (compiles_handlers fuel) (fun F => respects_handlers F fuel) hmid
    hloops hlive hrun hcode hb hsites
  refine ⟨L, hL, hentry, hhead, fun call r hpc hfloor hsize => ⟨fun path x => hL.laid.run hpc hfloor, ?_⟩⟩
  have hslots := hL.arguments.map_slot hlength.symm
  have hmaximal : (view t).code.nextSlot ≤ body.code.maxLocals := by
    obtain ⟨room, hfinish⟩ := hcode.finish
    rw [(finish_ok hfinish).2.2.2.1]
    exact hb.slots_le
  obtain ⟨_, g, -⟩ := compileRecur_leaves (compiles_handlers fuel) hmid.valid hrun
  refine fun path vs x hcomputed => hL.laid.rebinds ?_ (fun a ha => ?_) hpc hfloor hcomputed
  · rw [hslots]
    exact hnodup.sublist (List.take_sublist _ _)
  · have hmem : a.slot ∈ slots.map Prod.fst :=
      List.mem_of_mem_take (hslots ▸ List.mem_map_of_mem ha)
    rw [hsize]
    exact Nat.lt_of_lt_of_le (hmid.used _ hmem).1 (Nat.le_trans g.since.slots_le hmaximal)

end Form

/-! ### One form -/

section Numbers

open Machine (Computed Running Travels)

/-- A method inside a loop with a local of any type and one for a number. -/
def loopAlone : FormState where
  world := {}
  classes := #[{ file := { name := "T", superclass := Names.object }, mode := .closure }]
  methods := [{
    owner := 0
    code := { items := #[.label 0, .instruction (.load 0 .any), .instruction .pop], labels := 1, nextSlot := 2 } }]
  loops := [.compiled 0 [(0, .any), (1, .prim .long)] 0]
  tail := true

/-- Two numbers for the two locals. -/
def twoNumbers : Datum :=
  .ofList [.symbol "recur" default, .ofAtom (.int 1) default, .ofAtom (.int 2) default] default

/-- The code of `twoNumbers`, behind the start of the loop. -/
def numbersCode : List Instruction :=
  [.load 0 .any, .pop, .const (.long 1), .box .long, .const (.long 2), .store 1 .long, .store 0 .any, .goto 0]

/-- Whether some code is that of `twoNumbers`. -/
def isNumbers (code : Code) : Bool :=
  match code.instructions.toList with
  | [.load 0 .any, .pop, .const (.long a), .box .long, .const (.long b), .store 1 (.prim .long), .store 0 .any,
      .goto 0] =>
    a == 1 && b == 2 && code.position? 0 == some 0 && code.maxLocals == 2 && code.handlers.isEmpty
  | _ => false

theorem isNumbers_iff {code : Code} (h : isNumbers code = true) :
    code.instructions.toList = numbersCode ∧ code.position? 0 = some 0 ∧ code.maxLocals = 2 ∧ code.handlers = [] := by
  unfold isNumbers at h
  split at h
  · rename_i a b hcode
    simp only [Bool.and_eq_true, beq_iff_eq, List.isEmpty_iff] at h
    obtain ⟨⟨⟨⟨rfl, rfl⟩, hl⟩, hlocals⟩, hhandlers⟩ := h
    exact ⟨hcode, hl, hlocals, hhandlers⟩
  · cases h

/-- A running method with two locals. -/
def numbersFrame (pc : Nat) (stack : List Value) (first second : Value) : Running :=
  ⟨{ pc, stack, locals := #[first, second] }, {}⟩

theorem numbersFrame_goesOn [Libraries] {call : Caller} {code : Code} {i : Instruction} {pc : Nat}
    {stack stack' : List Value}
    {v v' w w' : Value} (hi : code.instructions[pc]? = some i)
    (hs : Machine.step call ⟨code, [], 0⟩ i (numbersFrame pc stack v w) = .ok .next (numbersFrame pc stack' v' w')) :
    Machine.GoesOn call ⟨code, [], 0⟩ (numbersFrame pc stack v w) (numbersFrame (pc + 1) stack' v' w') := .next hi hs

/-- A run through the arguments and the stores, back to the start of the loop. -/
theorem twoNumbers_travels [Libraries] {code : Code} (hcode : code.instructions.toList = numbersCode)
    (hl : code.position? 0 = some 0) (call : Caller) :
    Travels call ⟨code, [], 0⟩ (numbersFrame 2 [] .nil .nil) [2, 3, 4, 5, 6, 7]
      (numbersFrame 0 [] (.int 1) (.int 2)) := by
  have hi (n : Nat) : code.instructions[n]? = numbersCode[n]? := by rw [← Array.getElem?_toList, hcode]
  have hgoto : Machine.step call ⟨code, [], 0⟩ (.goto 0) (numbersFrame 7 [] (.int 1) (.int 2))
      = .ok (.jump 0) (numbersFrame 7 [] (.int 1) (.int 2)) := rfl
  have hjump : Machine.GoesOn call ⟨code, [], 0⟩ (numbersFrame 7 [] (.int 1) (.int 2))
      (numbersFrame 0 [] (.int 1) (.int 2)) := .jump (hi 7) hgoto (Machine.jumpTarget_of_position hl)
  exact .move (.goes (numbersFrame_goesOn (hi 2) rfl)) <| .move (.goes (numbersFrame_goesOn (hi 3) rfl)) <|
    .move (.goes (numbersFrame_goesOn (hi 4) rfl)) <| .move (.goes (numbersFrame_goesOn (hi 5) rfl)) <|
    .move (.goes (numbersFrame_goesOn (hi 6) rfl)) <| .move (.goes hjump) (.refl _)

theorem valid_loopAlone : Valid (view loopAlone) := by
  refine ⟨by simp [view, loopAlone], ⟨Nat.le_refl _, fun h => by cases h⟩, ?_, ?_, ?_, ?_, ?_⟩
  · exact ⟨by decide, by decide, by decide⟩
  case refine_5 =>
    intro head slots d hmem
    cases List.mem_singleton.mp hmem
    decide
  all_goals simp [view, loopAlone, View.code, View.work]

theorem entered_loopAlone : Entered (view loopAlone) := by
  refine ⟨⟨valid_loopAlone, fun head slots d hmem => ?_, fun head slots d rest hloops => ?_, List.nodup_nil, by decide⟩,
    by decide⟩
  · cases List.mem_singleton.mp hmem
    decide
  · cases hloops
    exact Nat.le_refl _

theorem twoNumbers_runs : ∃ (t : FormState) (code : Code) (L : RecurLayout),
    compileRecur (handlers 3) twoNumbers loopAlone = .ok () t ∧
      RecurCode (handlers 3) (view t).code ⟨code, [], 0⟩ (argsOf twoNumbers) [(0, .any), (1, .long)] 0 L ∧
      ∀ call, ∃ path vs x path' x', Computed call ⟨code, [], 0⟩ L.arguments (numbersFrame 2 [] .nil .nil) path vs x ∧
        Travels call ⟨code, [], 0⟩ x path' x' ∧ L.Rebinds ⟨code, [], 0⟩ vs (numbersFrame 2 [] .nil .nil) x x' := by
  obtain ⟨⟨⟩, t, hrun, hend⟩ := State.exists_answer (r := compileRecur (handlers 3) twoNumbers loopAlone)
    (p := fun q => match (view q.2).code.finish 9 with
      | .ok code => isNumbers code && (view q.2).sites.isEmpty
      | .error _ => false) (by decide +kernel)
  dsimp only at hend
  split at hend
  case h_2 => cases hend
  rename_i code hfinish
  rw [Bool.and_eq_true] at hend
  obtain ⟨hlist, hl, hlocals, hhandlers⟩ := isNumbers_iff hend.1
  obtain ⟨_, g, -⟩ := compileRecur_leaves (compiles_handlers 3) valid_loopAlone hrun
  let body : Machine.Body := ⟨code, [], 0⟩
  have hcode : Finished (view t).code body.code := ⟨g.valid.orderly, 9, hfinish⟩
  have hsites : (view t).sites <+: body.sites := by simpa [body] using hend.2
  obtain ⟨head, slots, depth, rest, hloops, -, -, -, hruns⟩ :=
    compileRecur_runs 3 entered_loopAlone hrun hcode (.refl _ _) hsites
  cases hloops
  obtain ⟨L, hL, hentry, -, hruns⟩ := hruns 0 rfl
  have hentry : L.entry = 2 := hentry
  refine ⟨t, code, L, hrun, hL, fun call => ?_⟩
  obtain ⟨hall, hback⟩ := hruns call (numbersFrame 2 [] .nil .nil) hentry.symm rfl hlocals.symm
  have htravels := twoNumbers_travels hlist hl call
  generalize [2, 3, 4, 5, 6, 7] = path at htravels
  cases hall _ _ htravels with
  | computing _ _ hin =>
    -- the head of the loop is in front of the arguments
    rw [hentry] at hin
    exact absurd hin.1 (by decide)
  | escapes _ hout hfound _ =>
    obtain ⟨hmem, -⟩ := hout.raises.handler_covers hfound
    rw [hhandlers] at hmem
    cases hmem
  | computed hcomputed _ _ =>
    obtain ⟨-, -, path', x', hon, hrebinds⟩ := hback _ _ _ hcomputed
    exact ⟨_, _, _, path', x', hcomputed, hon, hrebinds⟩

end Numbers

end LispMachine.Emission
