import LispMachine.Proofs.Emission.Fences
import LispMachine.Proofs.Emission.Placement
import LispMachine.Proofs.Machine.Stretches

/-! # Emitted code in finished methods

What is emitted between two views is a piece of the finished method, with a depth of the operand stack at every
position (`Grown.piece`).  If nothing in it gets over the fence at its start, and nothing is put into it later,
the piece is a stretch: runs leave it at its end, or by an error that none of its own handlers takes
(`Piece.stretch`). -/

namespace LispMachine.Emission

open CodeBuffer (Item PendingHandler)
open Machine (Stretch Reaches)

/-! ### Handlers with positions -/

/-- Handlers whose labels have been replaced by positions. -/
def resolved (code : Code) (hs : List PendingHandler) : List Handler :=
  hs.filterMap fun h => (CodeBuffer.resolveHandler code.labels h).toOption

/-- The handlers that were put up between two views. -/
def added (v w : View) : List PendingHandler := w.code.handlers.toList.drop v.code.handlers.size

section Handlers

variable {b : CodeBuffer} {code : Code} {h : PendingHandler} {r : Handler} {u v w : View}

@[simp] theorem resolved_nil (code : Code) : resolved code [] = [] := rfl

@[simp] theorem resolved_append (code : Code) (xs ys : List PendingHandler) :
    resolved code (xs ++ ys) = resolved code xs ++ resolved code ys := List.filterMap_append

theorem resolved_singleton (hr : CodeBuffer.resolveHandler code.labels h = .ok r) : resolved code [h] = [r] := by
  simp [resolved, hr, Except.toOption]

theorem mem_resolved {hs : List PendingHandler} (hr : r ∈ resolved code hs) :
    ∃ h ∈ hs, CodeBuffer.resolveHandler code.labels h = .ok r := by
  obtain ⟨h, hh, hr⟩ := List.mem_filterMap.mp hr
  refine ⟨h, hh, ?_⟩
  cases hresolve : CodeBuffer.resolveHandler code.labels h with
  | ok r' =>
    rw [hresolve] at hr
    rw [Option.some.inj hr]
  | error e =>
    rw [hresolve] at hr
    cases hr

theorem resolved_of_mapM {labels : Array (Option Nat)} {hs : List PendingHandler} {rs : List Handler}
    (h : hs.mapM (CodeBuffer.resolveHandler labels) = .ok rs) :
    hs.filterMap (fun h => (CodeBuffer.resolveHandler labels h).toOption) = rs := by
  induction hs generalizing rs with
  | nil =>
    cases h
    rfl
  | cons x xs ih =>
    rw [List.mapM_cons] at h
    obtain ⟨r, hr, h⟩ := bind_ok h
    obtain ⟨rest, hrest, h⟩ := bind_ok h
    cases h
    rw [List.filterMap_cons, hr, ih hrest]
    rfl

/-- All handlers of a finished method have positions. -/
theorem Finished.handlers (hb : Finished b code) : code.handlers = resolved code b.handlers.toList := by
  obtain ⟨room, hfinish⟩ := hb.finish
  obtain ⟨-, hlabels, -, -, -, hhandlers⟩ := finish_ok hfinish
  rw [resolved, hlabels, resolved_of_mapM hhandlers]

theorem added_self (v : View) : added v v = [] := by simp [added]

theorem added_of_append {hs : List PendingHandler} (h : w.code.handlers.toList = v.code.handlers.toList ++ hs) :
    added v w = hs := by
  rw [added, h, ← Array.length_toList, List.drop_left]

/-- What is put up on the way from one view to another by way of a third. -/
theorem added_trans {hs hs' : List PendingHandler} (h : v.code.handlers.toList = u.code.handlers.toList ++ hs)
    (h' : w.code.handlers.toList = v.code.handlers.toList ++ hs') : added u w = added u v ++ added v w := by
  have hboth : w.code.handlers.toList = u.code.handlers.toList ++ (hs ++ hs') := by
    rw [h', h, List.append_assoc]
  rw [added_of_append h, added_of_append h', added_of_append hboth]

end Handlers

/-! ### Labels with positions -/

section Labels

variable {b : CodeBuffer} {code : Code} {front back : List Item} {l : Label} {pc : Nat}

theorem Finished.resolve (hb : Finished b code) (hsplit : b.items.toList = front ++ .label l :: back) :
    CodeBuffer.resolve code.labels l = .ok (place b front) := by
  rw [CodeBuffer.resolve, hb.labels, position_eq hb.orderly (fills_ofBuffer b) hsplit]
  rfl

/-- A label that has a position stands there. -/
theorem Finished.split_of_resolve (hb : Finished b code) (hl : CodeBuffer.resolve code.labels l = .ok pc) :
    ∃ front back, b.items.toList = front ++ .label l :: back ∧ pc = place b front := by
  rw [hb.labels] at hl
  exact resolve_eq hb.orderly (fills_ofBuffer b) hl

/-- All labels that instructions of a finished method branch to stand somewhere. -/
theorem Finished.split_of_target (hb : Finished b code) {i : Instruction} (hi : code.instructions[pc]? = some i)
    (hl : l ∈ i.targets) : ∃ front back, b.items.toList = front ++ .label l :: back := by
  obtain ⟨room, hfinish⟩ := hb.finish
  obtain ⟨hinstructions, -, -, -, hlabels, -⟩ := finish_ok hfinish
  have hmem : l ∈ b.layout.instructions.toList.flatMap Instruction.targets := by
    rw [← hinstructions]
    exact List.mem_flatMap.mpr ⟨i, Array.mem_toList_iff.mpr (Array.mem_of_getElem? hi), hl⟩
  obtain ⟨q, hq⟩ := resolve_of_checkLabels hlabels hmem
  exact exists_split_of_mem (mem_of_resolve hq)

end Labels

/-! ### Depths along a piece -/

theorem flat_append (p : Blueprint) (xs ys : List Item) : flat p (xs ++ ys) = flat p xs ++ flat p ys := by
  simp [flat]

section Along

variable {p : Blueprint} {lo : Nat} {d d' : Option Nat} {xs : List Item}

theorem flat_labels (p : Blueprint) (ls : List Label) : flat p (ls.map .label) = [] := by
  induction ls with
  | nil => rfl
  | cons l rest ih => simpa [flat] using ih

/-- Without instructions control goes on as it came. -/
theorem FlowAlong.eq_of_empty {depth : Nat} (h : FlowAlong p lo (some depth) xs d')
    (hempty : instructionsOf xs = []) : d' = some depth := by
  induction xs generalizing depth with
  | nil => exact h.symm
  | cons item rest ih =>
    cases item with
    | instruction i => cases hempty
    | label l =>
      obtain ⟨hl, hrest⟩ := h
      obtain hl : some depth = p.depthOf l := hl.resolve_left (by simp)
      exact ih (hl ▸ hrest) hempty
    | hole h' => exact h.elim

/-- Control gets to every instruction. -/
theorem FlowAlong.exists_split (h : FlowAlong p lo d xs d') {n : Nat} (hn : n < (instructionsOf xs).length) :
    ∃ front i back depth e, xs = front ++ .instruction i :: back ∧ (instructionsOf front).length = n ∧
      FlowAlong p lo d front (some depth) ∧ Fitting p lo depth i e ∧
      FlowAlong p lo (exitOf i depth e) back d' := by
  obtain ⟨depth, hdepth⟩ : ∃ depth, entry p d xs n = some depth := by
    induction xs generalizing d n with
    | nil => cases hn
    | cons item rest ih =>
      cases item with
      | instruction i =>
        obtain ⟨depth, e, rfl, hfit, hrest⟩ := h
        cases n with
        | zero => exact ⟨depth, rfl⟩
        | succ n =>
          rw [entry, stepOf_eq hfit]
          exact ih hrest (Nat.lt_of_succ_lt_succ hn)
      | label l => exact ih h.2 hn
      | hole h' => exact h.elim
  obtain ⟨front, i, back, e, hsplit, hlength, hfront, hfit, hback⟩ := exists_split_of_entry h hdepth
  exact ⟨front, i, back, depth, e, hsplit, hlength, hfront, hfit, hback⟩

end Along

/-! ### Pieces -/

theorem Retains.contains {v w : View} {b : CodeBuffer} (h : Retains v.code w.code b) : Contains b v w where
  ahead := h.items
  filled := h.holes

/-- What was emitted between two views, with the depths along it; nothing in it goes below `lo`, and nothing in it
knows of labels made later. -/
structure Piece (p : Blueprint) (lo : Nat) (v w : View) (seg : List Item) (hs : List PendingHandler) : Prop where
  before : Orderly v.code
  after : Orderly w.code
  items : w.code.items.toList = v.code.items.toList ++ seg
  handlers : w.code.handlers.toList = v.code.handlers.toList ++ hs
  filling : ∀ h, p.filling h = (w.code.holes[h]?).getD []
  unmade : ∀ l, w.code.labels ≤ l → p.depthOf l = none
  flow : FlowAlong p lo v.reach (p.expand seg) w.reach
  guarded : ∀ h ∈ hs, Guarded p seg h ∧ lo ≤ h.stackDepth

theorem Grown.piece {T : Terms} {v w : View} {k : Nat} {outer : Option Nat} (g : Grown T v k w)
    (hv : Orderly v.code) (hholds : ∀ p : Blueprint, (∀ l < v.code.labels, p.depthOf l = outer) → T.holds p) :
    ∃ p seg hs, p.sites = w.sites ∧ Piece p T.base.sum v w seg hs := by
  obtain ⟨p, hfilling, hsites, hunmade, seg, hs, hitems, hhandlers, hflow, hguarded, -⟩ := g.flows hholds
  exact ⟨p, seg, hs, hsites, hv, g.valid.orderly, hitems, hhandlers, hfilling, hunmade,
    hflow _ fun _ => Nat.le_refl _, fun h hh => ⟨(hguarded h hh).1, (hguarded h hh).2.2⟩⟩

namespace Piece

variable {p : Blueprint} {lo : Nat} {v w : View} {seg : List Item} {hs : List PendingHandler} {b : CodeBuffer}
  {code : Code}

theorem added (h : Piece p lo v w seg hs) : Emission.added v w = hs := added_of_append h.handlers

theorem flat_eq (h : Piece p lo v w seg hs) (hb : Contains b v w) {front back : List Item}
    (hsplit : seg = front ++ back) : flat (.ofBuffer b) front = flat p front := by
  refine flat_congr fun i hi => ?_
  obtain ⟨hle, hlt⟩ := holes_between h.before h.after h.items (h := i) (by simp [hsplit, hi])
  rw [h.filling, ← hb.filled i hle hlt]
  rfl

/-- The end of a part of the piece. -/
theorem place_eq (h : Piece p lo v w seg hs) (hb : Contains b v w) {front back : List Item}
    (hsplit : seg = front ++ back) :
    place b (v.code.items.toList ++ front) = positionIn b v + (flat p front).length := by
  rw [place_append, h.flat_eq hb hsplit]
  rfl

theorem positionIn_eq (h : Piece p lo v w seg hs) (hb : Contains b v w) :
    positionIn b w = positionIn b v + (flat p seg).length := by
  rw [← h.place_eq hb (List.append_nil seg).symm, ← h.items]
  rfl

/-- Control gets to a position at a depth. -/
def Meets (p : Blueprint) (lo : Nat) (v w : View) (seg : List Item) (b : CodeBuffer) (pc depth : Nat) : Prop :=
  ∃ front back, p.expand seg = front ++ back ∧ pc = positionIn b v + (instructionsOf front).length ∧
    FlowAlong p lo v.reach front (some depth) ∧ FlowAlong p lo (some depth) back w.reach

/-- Where control gets in a piece, it stays inside or is at the end. -/
theorem reaches (h : Piece p lo v w seg hs) (hb : Contains b v w) {pc depth : Nat}
    (hm : Meets p lo v w seg b pc depth) : Reaches (positionIn b v) (positionIn b w) w.reach.isSome pc := by
  obtain ⟨front, back, hsplit, rfl, -, hflow⟩ := hm
  have hend : positionIn b w
      = positionIn b v + ((instructionsOf front).length + (instructionsOf back).length) := by
    rw [h.positionIn_eq hb, flat, hsplit, instructionsOf_append, List.length_append]
  refine ⟨Nat.le_add_right _ _, ?_⟩
  cases hempty : instructionsOf back with
  | nil =>
    rw [hempty] at hend
    exact .inr ⟨hend.symm, by rw [hflow.eq_of_empty hempty]; rfl⟩
  | cons i rest =>
    rw [hempty, List.length_cons] at hend
    exact .inl (by omega)

theorem meets_start (h : Piece p lo v w seg hs) {depth : Nat} (hlive : v.reach = some depth) :
    Meets p lo v w seg b (positionIn b v) depth :=
  ⟨[], p.expand seg, rfl, rfl, hlive, hlive ▸ h.flow⟩

/-- Behind an instruction that goes on. -/
theorem meets_next {front back : List Item} {i : Instruction} {depth : Nat} {e : Effect}
    (hsplit : p.expand seg = front ++ .instruction i :: back) (hfront : FlowAlong p lo v.reach front (some depth))
    (hfit : Fitting p lo depth i e) (hends : i.endsBlock = false)
    (hback : FlowAlong p lo (exitOf i depth e) back w.reach) :
    Meets p lo v w seg b (positionIn b v + (instructionsOf front).length + 1) (depth - e.popped + e.pushed) := by
  rw [exitOf, if_neg (by simp [hends])] at hback
  have hlast : FlowAlong p lo (some depth) [.instruction i] (some (depth - e.popped + e.pushed)) :=
    ⟨depth, e, rfl, hfit, by rw [exitOf, if_neg (by simp [hends])]; rfl⟩
  refine ⟨front ++ [Item.instruction i], back, by simp [hsplit], ?_, flowAlong_append.mpr ⟨_, hfront, hlast⟩, hback⟩
  rw [instructionsOf_append, List.length_append]
  rfl

/-- The instructions of a piece stand in the finished code. -/
theorem instruction (h : Piece p lo v w seg hs) (hcode : Finished b code) (hb : Contains b v w) {n : Nat}
    {i : Instruction} (hn : (flat p seg)[n]? = some i) : code.instructions[positionIn b v + n]? = some i := by
  obtain ⟨rest, hrest⟩ := hb.ahead
  have hflat : flat (.ofBuffer b) b.items.toList
      = flat (.ofBuffer b) v.code.items.toList ++ (flat p seg ++ flat (.ofBuffer b) rest) := by
    rw [← hrest, h.items, flat_append, flat_append, h.flat_eq hb (List.append_nil seg).symm, List.append_assoc]
  rw [← Array.getElem?_toList, hcode.instructions, hflat, positionIn, place,
    List.getElem?_append_right (Nat.le_add_right _ _), Nat.add_sub_cancel_left,
    List.getElem?_append_left (List.getElem?_eq_some_iff.1 hn).1, hn]

/-- A label with a depth, if it was made for the piece, stands in it, and control gets there at that depth. -/
theorem meets_label (h : Piece p lo v w seg hs) (hcode : Finished b code) (hb : Retains v.code w.code b) {l : Label}
    {depth : Nat} (hl : p.depthOf l = some depth) (hle : v.code.labels ≤ l)
    (hplaced : l ∈ labelsOf b.items.toList) :
    ∃ q, CodeBuffer.resolve code.labels l = .ok q ∧ Machine.jumpTarget code l = .ok q ∧
      Meets p lo v w seg b q depth := by
  have hlt : l < w.code.labels := by
    by_contra hnot
    rw [h.unmade l (Nat.not_lt.1 hnot)] at hl
    cases hl
  have hmem := hb.placed l hle hlt hplaced
  have hnew : l ∉ labelsOf v.code.items.toList := fun hmem =>
    Nat.lt_irrefl _ (Nat.lt_of_lt_of_le (h.before.labels_lt l hmem) hle)
  rw [h.items, labelsOf_append, List.mem_append] at hmem
  obtain ⟨front, back, hsplit⟩ := exists_split_of_mem (hmem.resolve_left hnew)
  obtain ⟨rest, hrest⟩ := hb.items
  have hitems : b.items.toList = (v.code.items.toList ++ front) ++ .label l :: (back ++ rest) := by
    rw [← hrest, h.items, hsplit]
    simp
  have hflow := h.flow
  rw [hsplit, expand_append, expand_label, flowAlong_append] at hflow
  obtain ⟨c, hfront, hmeet, hback⟩ := hflow
  have hlabel : FlowAlong p lo c [.label l] (some depth) := ⟨hmeet, hl⟩
  refine ⟨_, hcode.resolve hitems, hcode.jumpTarget hitems, p.expand front ++ [Item.label l], p.expand back, ?_, ?_,
    flowAlong_append.mpr ⟨c, hfront, hlabel⟩, hl ▸ hback⟩
  · simp [hsplit]
  · rw [h.place_eq hb.contains hsplit, instructionsOf_append, List.length_append]
    rfl

theorem position_eq (h : Piece p lo v w seg hs) (hcode : Finished b code) (hb : Contains b v w) {l : Label}
    {front back : List Item} {pc : Nat} (hsplit : seg = front ++ .label l :: back)
    (hl : CodeBuffer.resolve code.labels l = .ok pc) :
    pc = positionIn b v + (flat p front).length ∧ pc ≤ positionIn b w := by
  obtain ⟨rest, hrest⟩ := hb.ahead
  have hitems : b.items.toList = (v.code.items.toList ++ front) ++ .label l :: (back ++ rest) := by
    rw [← hrest, h.items, hsplit]
    simp
  rw [hcode.resolve hitems, h.place_eq hb hsplit] at hl
  obtain rfl := Except.ok.inj hl
  refine ⟨rfl, ?_⟩
  rw [h.positionIn_eq hb, hsplit, flat_append, List.length_append]
  omega

/-- The instructions of the piece do not get over a fence at its start. -/
theorem permits (h : Piece p lo v w seg hs) {kept : List Nat} (hF : (v.fence kept).Admits w.code)
    {i : Instruction} (hi : i ∈ flat p seg) : (v.fence kept).Permits i := by
  have hdrop : w.code.items.toList.drop v.code.items.size = seg := by
    rw [h.items, ← Array.length_toList, List.drop_left]
  obtain ⟨item, hitem, hi⟩ := List.mem_filterMap.1 hi
  obtain ⟨item', hitem', hexpand⟩ := List.mem_flatMap.1 hitem
  cases item' with
  | instruction i' =>
    obtain rfl := List.mem_singleton.1 hexpand
    obtain rfl : i' = i := Option.some.inj hi
    exact hF.items i' (by rw [View.fence]; exact hdrop.symm ▸ hitem')
  | label l =>
    obtain rfl := List.mem_singleton.1 hexpand
    cases hi
  | hole n =>
    obtain ⟨i', hi', rfl⟩ := List.mem_map.1 hexpand
    obtain rfl : i' = i := Option.some.inj hi
    obtain ⟨hle, hlt⟩ := holes_between h.before h.after h.items (h := n)
      (List.mem_filterMap.2 ⟨_, hitem', rfl⟩)
    rw [h.filling] at hi'
    obtain ⟨filling, hfilling⟩ : ∃ filling, w.code.holes[n]? = some filling :=
      ⟨_, Array.getElem?_eq_getElem hlt⟩
    rw [hfilling] at hi'
    exact hF.holes n filling hle hfilling i' hi'

/-- A jump from behind a fence leads into the piece. -/
theorem meets_target (h : Piece p lo v w seg hs) (hcode : Finished b code) (hb : Retains v.code w.code b)
    {kept : List Nat} (hF : (v.fence kept).Admits w.code) {n : Nat} {i : Instruction}
    (hn : (flat p seg)[n]? = some i) {l : Label} (hl : l ∈ i.targets) {depth : Nat}
    (hdepth : p.depthOf l = some depth) :
    ∃ q, Machine.jumpTarget code l = .ok q ∧ Meets p lo v w seg b q depth := by
  have hpermits := h.permits hF (List.mem_of_getElem? hn)
  have hmade : v.code.labels ≤ l := (hpermits.targets l hl).resolve_right List.not_mem_nil
  obtain ⟨front, back, hlabel⟩ := hcode.split_of_target (h.instruction hcode hb.contains hn) hl
  obtain ⟨q, -, hq, hm⟩ := h.meets_label hcode hb hdepth hmade (by simp [hlabel])
  exact ⟨q, hq, hm⟩

/-- A handler that was put up behind a fence leads into the piece. -/
theorem meets_handler (h : Piece p lo v w seg hs) (hcode : Finished b code) (hb : Retains v.code w.code b)
    {kept : List Nat} (hF : (v.fence kept).Admits w.code) {hd : PendingHandler} (hhd : hd ∈ hs) {r : Handler}
    (hr : CodeBuffer.resolveHandler code.labels hd = .ok r) :
    Meets p lo v w seg b r.target (hd.stackDepth + 1) := by
  obtain ⟨-, -, htarget, -⟩ := resolveHandler_ok hr
  obtain ⟨front, back, hitems, -⟩ := hcode.split_of_resolve htarget
  have hmade : v.code.labels ≤ hd.target := by
    obtain ⟨hs', hsplit, htargets⟩ := hF.front.handlers
    obtain rfl := List.append_cancel_left (h.handlers.symm.trans hsplit)
    exact htargets hd hhd
  obtain ⟨q, hq, -, hm⟩ := h.meets_label hcode hb (h.guarded hd hhd).1.target hmade (by simp [hitems])
  obtain rfl := Except.ok.inj (hq.symm.trans htarget)
  exact hm

/-- What is emitted behind a fence is a stretch of the finished code. -/
theorem stretch (h : Piece p lo v w seg hs) (hcode : Finished b code) (hb : Retains v.code w.code b) {kept : List Nat}
    (hF : (v.fence kept).Admits w.code) (hlive : v.reach ≠ none) :
    Stretch code kept (resolved code hs) (positionIn b v) (positionIn b w) w.reach.isSome := by
  have hflow := h.flow
  have hle : positionIn b w = positionIn b v + (instructionsOf (p.expand seg)).length :=
    h.positionIn_eq hb.contains
  refine ⟨?_, ?_, ?_⟩
  · obtain ⟨depth, hdepth⟩ := Option.ne_none_iff_exists'.1 hlive
    exact h.reaches hb.contains (h.meets_start hdepth)
  · intro pc hfirst hlast
    obtain ⟨n, rfl⟩ := Nat.exists_eq_add_of_le hfirst
    obtain ⟨front, i, back, depth, e, hsplit, hlength, hfront, hfit, hback⟩ :=
      hflow.exists_split (n := n) (by omega)
    have hn : (flat p seg)[n]? = some i := by
      rw [flat, hsplit, ← hlength]
      simp
    have hi := h.instruction hcode hb.contains hn
    have hpermits := h.permits hF (List.mem_of_getElem? hn)
    refine ⟨i, hi, hpermits.stays, fun slot hslot => hpermits.spares slot ⟨hslot, List.not_mem_nil⟩,
      fun hend hends => ?_, fun l hl => ?_⟩
    · have hreaches := h.reaches hb.contains (meets_next hsplit hfront hfit hends hback)
      rw [hlength] at hreaches
      rcases hreaches.2 with hlt | ⟨-, hlive'⟩
      · exact absurd hend (Nat.ne_of_lt hlt)
      · exact hlive'
    · obtain ⟨q, hq, hm⟩ := h.meets_target hcode hb hF hn hl (hfit.targets l hl)
      exact ⟨q, hq, h.reaches hb.contains hm⟩
  · intro r hr
    obtain ⟨hd, hhd, hresolve⟩ := mem_resolved hr
    obtain ⟨hfirst, hlast, -, -⟩ := resolveHandler_ok hresolve
    obtain ⟨⟨front, body, back, d, hsplit, -⟩, -, -⟩ := (h.guarded hd hhd).1
    obtain ⟨hfirst', -⟩ := h.position_eq hcode hb.contains hsplit hfirst
    have hsplit' : seg = (front ++ .label hd.first :: body) ++ .label hd.last :: back := by simp [hsplit]
    obtain ⟨-, hlast'⟩ := h.position_eq hcode hb.contains hsplit' hlast
    exact ⟨by omega, hlast', h.reaches hb.contains (h.meets_handler hcode hb hF hhd hresolve)⟩

end Piece

/-! ### Where forms are compiled -/

/-- What holds of a method under construction wherever a form is compiled; some slots are in use. -/
structure Midway (kept : List Nat) (v : View) : Prop where
  valid : Valid v
  made : LoopsMade v
  loops : ∀ head slots d rest, v.loops = .compiled head slots d :: rest → d ≤ v.work.tryDepth
  free : v.code.freeSlots.Nodup
  used : ∀ slot ∈ kept, slot < v.code.nextSlot ∧ slot ∉ v.code.freeSlots

/-- No loop can be gone back to: it was entered outside of a `try`, or there is no tail position. -/
def Sealed (v : View) : Prop :=
  ∀ head slots d rest, v.loops = .compiled head slots d :: rest → v.tail = true → d ≠ v.work.tryDepth

namespace Midway

variable {kept kept' : List Nat} {v w : View}

theorem mono (h : Midway kept v) (hsub : ∀ slot ∈ kept', slot ∈ kept) : Midway kept' v :=
  { h with used := fun slot hslot => h.used slot (hsub slot hslot) }

/-- A fence is put up where nothing is behind it yet. -/
theorem admits (h : Midway kept v) (written : List Nat) (exits : List Label) :
    (v.gate kept written exits).Admits v.code where
  front := .refl _ _
  items := fun i hi => by
    have hnone : v.code.items.toList.drop v.code.items.size = [] := by simp
    cases hnone ▸ hi
  holes := fun n code hn hcode => by
    have hnone : v.code.holes[n]? = none := Array.getElem?_eq_none hn
    cases hnone.symm.trans hcode
  free := h.free
  used := h.used

/-- A loop that can be gone back to is let through. -/
theorem fencedOff (h : Midway kept v) (written : List Nat) (exits : List Label)
    (hloop : ∀ head slots d rest, v.loops = .compiled head slots d :: rest → v.tail = true → d = v.work.tryDepth →
      head ∈ exits ∧ ∀ q ∈ slots, q.1 ∉ kept) : Fenced (v.gate kept written exits) v where
  working := h.valid.working
  levels := h.valid.levels
  code := h.admits written exits
  frames := Nat.le_refl _
  bound := by simp [View.gate]
  loop := fun head slots d rest hloops =>
    ⟨h.loops head slots d rest hloops, fun htail heq =>
      (hloop head slots d rest hloops htail heq).imp_left .inr⟩

theorem gated (h : Midway kept v) (hsealed : Sealed v) (written : List Nat) (exits : List Label) :
    Fenced (v.gate kept written exits) v :=
  h.fencedOff written exits fun head slots d rest hloops htail heq =>
    absurd heq (hsealed head slots d rest hloops htail)

theorem fenced (h : Midway kept v) (hsealed : Sealed v) : Fenced (v.fence kept) v := h.gated hsealed [] []

theorem next {written : List Nat} {exits : List Label} (h : Midway kept v)
    (hh : Heeds (v.gate kept written exits) v w) (hw : Valid w) : Midway kept w where
  valid := hw
  made := h.made.mono hh.loops hh.fenced.code.front.labels_le
  loops := fun head slots d rest hloops => by
    rw [hh.tryDepth]
    exact h.loops head slots d rest (hh.loops ▸ hloops)
  free := hh.fenced.code.free
  used := hh.fenced.code.used

end Midway

theorem Sealed.next {F : Fence} {v w : View} (h : Sealed v) (hh : Heeds F v w) : Sealed w := by
  intro head slots d rest hloops htail
  rw [hh.tryDepth]
  exact h head slots d rest (hh.loops ▸ hloops) (hh.tail ▸ htail)

/-- A later view of a method under construction, where the same slots are in use. -/
structure Later (kept : List Nat) (v w : View) : Prop where
  midway : Midway kept w
  isSealed : Sealed w
  retains : Retains {} v.code w.code

/-- What is emitted between two views is a stretch of every finished method that has it. -/
structure Emitted (kept : List Nat) (v w : View) : Prop extends Later kept v w where
  stretch : ∀ b code, Finished b code → Retains v.code w.code b →
    Stretch code kept (resolved code (added v w)) (positionIn b v) (positionIn b w) w.reach.isSome

section Later

variable {α : Type} {kept : List Nat} {u v w : View} {s t : FormState} {x : FormM α} {r : α}

theorem Later.trans (h : Later kept u v) (h' : Later kept v w) : Later kept u w :=
  ⟨h'.midway, h'.isSealed, h.retains.trans h'.retains⟩

theorem Midway.later {written : List Nat} {exits : List Label} (h : Midway kept (view s)) (hsealed : Sealed (view s))
    (hx : Respects ((view s).gate kept written exits) x) (hrun : x s = .ok r t) (hv : Valid (view t)) :
    Later kept (view s) (view t) := by
  obtain ⟨-, hh⟩ := hx (h.gated hsealed written exits) hrun
  exact ⟨h.next hh hv, hsealed.next hh, hh.fenced.code.front⟩

/-- What is compiled without going back to a loop outside is a stretch. -/
theorem Midway.emitted {T : Terms} {k : Nat} {outer : Option Nat} (h : Midway kept (view s))
    (hsealed : Sealed (view s)) (hlive : (view s).reach ≠ none) (g : Grown T (view s) k (view t))
    (hholds : ∀ p : Blueprint, (∀ l < (view s).code.labels, p.depthOf l = outer) → T.holds p)
    (hx : Respects ((view s).fence kept) x) (hrun : x s = .ok r t) : Emitted kept (view s) (view t) := by
  refine ⟨h.later hsealed hx hrun g.valid, fun b code hcode hb => ?_⟩
  obtain ⟨-, hh⟩ := hx (h.fenced hsealed) hrun
  obtain ⟨p, seg, hs, -, hpiece⟩ := g.piece h.valid.orderly hholds
  rw [hpiece.added]
  exact hpiece.stretch hcode hb hh.fenced.code hlive

end Later

/-! ### Parts of what a buffer has -/

section Within

variable {a b : CodeBuffer} {u v w : View}

theorem Retains.ofEmpty {c d : CodeBuffer} (h : Retains {} c d) : Retains a c d :=
  h.mono (Nat.zero_le _) (Nat.zero_le _)

/-- What has been emitted between two views of those that a buffer has is in it as well. -/
theorem Retains.within (ha : Retains a a v.code) (h : Retains {} w.code u.code) (hb : Retains a u.code b) :
    Retains v.code w.code b := (h.ofEmpty.trans hb).mono ha.labels_le ha.holes_le

theorem Retains.handlers_eq (h : Retains a v.code w.code) :
    w.code.handlers.toList = v.code.handlers.toList ++ added v w := by
  obtain ⟨hs, hsplit, -⟩ := h.handlers
  rw [added_of_append hsplit, hsplit]

theorem Retains.added_trans (h : Retains a u.code v.code) (h' : Retains a v.code w.code) :
    added u w = added u v ++ added v w := Emission.added_trans h.handlers_eq h'.handlers_eq

theorem added_of_same (h : w.code.handlers = v.code.handlers) : added v w = [] :=
  added_of_append (by rw [h, List.append_nil])

/-- Only labels have been placed between two views. -/
structure Seam (v w : View) : Prop where
  items : ∃ ls : List Label, w.code.items.toList = v.code.items.toList ++ ls.map .label
  handlers : w.code.handlers = v.code.handlers
  reach : w.reach = v.reach

theorem Seam.refl (v : View) : Seam v v := ⟨⟨[], by simp⟩, rfl, rfl⟩

theorem Seam.trans (h : Seam u v) (h' : Seam v w) : Seam u w := by
  obtain ⟨ls, hls⟩ := h.items
  obtain ⟨ls', hls'⟩ := h'.items
  exact ⟨⟨ls ++ ls', by simp [hls', hls]⟩, h'.handlers.trans h.handlers, h'.reach.trans h.reach⟩

theorem Seam.positionIn (h : Seam v w) (b : CodeBuffer) : positionIn b w = positionIn b v := by
  obtain ⟨ls, hls⟩ := h.items
  rw [Emission.positionIn, hls, place_append, flat_labels]
  rfl

end Within

/-! ### Slots are no code -/

section Slots

variable (b : CodeBuffer) (slot : Nat)

@[simp] theorem allocSlot_items : b.allocSlot.2.items = b.items := by
  unfold CodeBuffer.allocSlot
  split <;> rfl

@[simp] theorem allocSlot_handlers : b.allocSlot.2.handlers = b.handlers := by
  unfold CodeBuffer.allocSlot
  split <;> rfl

@[simp] theorem freeSlot_items : (b.freeSlot slot).items = b.items := by
  unfold CodeBuffer.freeSlot
  split <;> rfl

@[simp] theorem freeSlot_handlers : (b.freeSlot slot).handlers = b.handlers := by
  unfold CodeBuffer.freeSlot
  split <;> rfl

end Slots

/-! ### Steps of emission -/

section Emitting

variable {s t : FormState} {u : Unit} {i : Instruction} {l : Label}

theorem seam_here (hrun : FormM.here s = .ok l t) :
    Seam (view s) (view t) ∧ (view t).code.items.toList = (view s).code.items.toList ++ [Item.label l] := by
  obtain ⟨rfl, hview⟩ := onCode_ok hrun
  have hitems : (view t).code.items.toList
      = (view s).code.items.toList ++ [Item.label ((view s).code.here.1)] := by
    rw [hview]
    simp [CodeBuffer.here, CodeBuffer.newLabel, CodeBuffer.place]
  exact ⟨⟨⟨[_], hitems⟩, by rw [hview]; rfl, by rw [hview]; rfl⟩, hitems⟩

theorem retains_emit (hrun : FormM.emit i s = .ok u t) : Retains {} (view s).code (view t).code := by
  rcases emit_run hrun with ⟨-, hview⟩ | ⟨-, e, stack, -, -, hview⟩ <;> rw [hview]
  · exact .refl _ _
  · exact (Retains.refl _ _).push i

theorem handlers_emit (hrun : FormM.emit i s = .ok u t) : (view t).code.handlers = (view s).code.handlers := by
  rcases emit_run hrun with ⟨-, hview⟩ | ⟨-, e, stack, -, -, hview⟩ <;> rw [hview]
  rfl

/-- Giving a slot back is no code. -/
theorem freeSlot_placed {a : CodeBuffer} {slot : Nat}
    (hrun : FormM.modifyCode (fun code => code.freeSlot slot) s = .ok u t) :
    Retains a (view s).code (view t).code ∧ (view t).code.handlers = (view s).code.handlers ∧
      ∀ b, positionIn b (view t) = positionIn b (view s) := by
  rw [modifyCode_ok hrun]
  exact ⟨(Retains.refl _ _).freeSlot slot, freeSlot_handlers _ _, positionIn_of_items (freeSlot_items _ _)⟩

theorem isUnreachable_of_reach {v : View} (h : v.reach = none) : v.stack.isUnreachable = true := by
  by_contra hlive
  rw [Bool.not_eq_true] at hlive
  rw [View.reach_of_live hlive] at h
  cases h

theorem isUnreachable_of_reach_ne {v : View} (h : v.reach ≠ none) : v.stack.isUnreachable = false := by
  by_contra hdead
  rw [Bool.not_eq_false] at hdead
  exact h (reach_of_dead hdead)

/-- Nothing is emitted where control does not get. -/
theorem view_emit_of_dead (hrun : FormM.emit i s = .ok u t) (hdead : (view s).reach = none) : view t = view s := by
  rcases emit_run hrun with ⟨-, hview⟩ | ⟨hlive, -⟩
  · exact hview
  · cases (isUnreachable_of_reach hdead).symm.trans hlive

/-- A label at the end of a view stands there in the finished code. -/
theorem Finished.resolve_end {b : CodeBuffer} {code : Code} {v w : View} (hb : Finished b code)
    (hitems : w.code.items.toList = v.code.items.toList ++ [Item.label l]) (hahead : Ahead w b) :
    CodeBuffer.resolve code.labels l = .ok (positionIn b v) := by
  obtain ⟨back, hback⟩ := hahead
  have hsplit : b.items.toList = v.code.items.toList ++ .label l :: back := by simp [← hback, hitems]
  exact hb.resolve hsplit

end Emitting

end LispMachine.Emission
