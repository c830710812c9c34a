import LispMachine.Proofs.Emission.Growth
import LispMachine.Proofs.Machine.Safety

/-! # Where emitted code comes to stand

Code is emitted item by item, and laid out when its method is finished.  What a view holds is in front of
all that is emitted later, so that its end has a position in the finished code (`positionIn`): the next
instruction stands there (`emit_placed`), and so does a label that is placed there (`place_placed`). -/

namespace LispMachine.Emission

open CodeBuffer (Item)

/-- A blueprint that tells how the holes of a buffer are filled, and nothing else. -/
def Blueprint.ofBuffer (b : CodeBuffer) : Blueprint where
  depthOf := fun _ => none
  filling := fun h => (b.holes[h]?).getD []
  sites := []
  room := 0
  locals := 0

theorem fills_ofBuffer (b : CodeBuffer) : Fills (.ofBuffer b) b := fun _ _ => rfl

/-- The position behind some items. -/
def place (b : CodeBuffer) (items : List Item) : Nat := (flat (.ofBuffer b) items).length

/-- Where the code of a view ends in the finished code, and what comes next starts. -/
def positionIn (b : CodeBuffer) (v : View) : Nat := place b v.code.items.toList

/-- What a view holds is in front of all other code of a buffer. -/
def Ahead (v : View) (b : CodeBuffer) : Prop := v.code.items.toList <+: b.items.toList

/-- Code that a buffer has been finished to. -/
structure Finished (b : CodeBuffer) (code : Code) : Prop where
  orderly : Orderly b
  finish : ∃ room, b.finish room = .ok code

section Finished

variable {b : CodeBuffer} {code : Code} {front back xs : List Item} {i : Instruction} {l : Label}

theorem place_append (b : CodeBuffer) (front xs : List Item) :
    place b (front ++ xs) = place b front + (flat (.ofBuffer b) xs).length := by
  simp [place, flat]

theorem Finished.instructions (h : Finished b code) :
    code.instructions.toList = flat (.ofBuffer b) b.items.toList := by
  obtain ⟨room, hfinish⟩ := h.finish
  rw [(finish_ok hfinish).1, instructions_eq h.orderly (fills_ofBuffer b)]

@[simp] theorem expand_map (p : Blueprint) (xs : List Instruction) :
    p.expand (xs.map .instruction) = xs.map .instruction := by
  induction xs with
  | nil => rfl
  | cons i rest ih => rw [List.map_cons, expand_instruction, ih]

/-- The instructions of a piece of code stand one behind the other. -/
theorem Finished.instruction_at (h : Finished b code) {code' : List Instruction}
    (hsplit : b.items.toList = front ++ (code'.map .instruction ++ back)) {n : Nat}
    (hn : code'[n]? = some i) : code.instructions[place b front + n]? = some i := by
  have hflat : flat (.ofBuffer b) b.items.toList
      = flat (.ofBuffer b) front ++ (code' ++ flat (.ofBuffer b) back) := by
    rw [hsplit]
    simp [flat]
  have hlt := (List.getElem?_eq_some_iff.mp hn).1
  rw [← Array.getElem?_toList, h.instructions, hflat, place, List.getElem?_append_right (Nat.le_add_right _ _),
    Nat.add_sub_cancel_left, List.getElem?_append_left hlt, hn]

theorem place_map (b : CodeBuffer) (front : List Item) (xs : List Instruction) :
    place b (front ++ xs.map .instruction) = place b front + xs.length := by
  rw [place_append, flat, expand_map, instructionsOf_map]

theorem Finished.labels (h : Finished b code) : code.labels = b.layout.labels := by
  obtain ⟨room, hfinish⟩ := h.finish
  exact (finish_ok hfinish).2.1

/-- An instruction stands behind what is in front of it. -/
theorem Finished.instruction (h : Finished b code)
    (hsplit : b.items.toList = front ++ .instruction i :: back) :
    code.instructions[place b front]? = some i := by
  rw [← Array.getElem?_toList, h.instructions, hsplit]
  simp [place, flat]

/-- A jump goes to where its label stands. -/
theorem Finished.jumpTarget (h : Finished b code) (hsplit : b.items.toList = front ++ .label l :: back) :
    Machine.jumpTarget code l = .ok (place b front) := by
  refine Machine.jumpTarget_of_position ?_
  rw [Code.position?, h.labels, position_eq h.orderly (fills_ofBuffer b) hsplit]
  rfl

end Finished

section Emitted

variable {b : CodeBuffer} {code : Code} {s t : FormState} {u : Unit}

theorem items_emit {i : Instruction} (hrun : FormM.emit i s = .ok u t)
    (hlive : (view s).stack.isUnreachable = false) :
    (view t).code.items.toList = (view s).code.items.toList ++ [Item.instruction i] := by
  rcases emit_ok hrun with ⟨hdead, -⟩ | ⟨-, e, stack, -, -, hview⟩
  · rw [hlive] at hdead
    cases hdead
  · rw [hview]
    simp [View.emitted, CodeBuffer.push]

theorem items_place {l : Label} (hrun : FormM.place l s = .ok u t) :
    (view t).code.items.toList = (view s).code.items.toList ++ [Item.label l] := by
  rw [modifyCode_ok hrun]
  simp [CodeBuffer.place]

theorem Ahead.of_append {v w : View} {xs : List Item} (h : Ahead w b)
    (hitems : w.code.items.toList = v.code.items.toList ++ xs) : Ahead v b :=
  (hitems ▸ List.prefix_append _ _).trans h

/-- Where control gets, an instruction stands where it was emitted. -/
theorem emit_placed {i : Instruction} (hb : Finished b code) (hrun : FormM.emit i s = .ok u t)
    (hlive : (view s).stack.isUnreachable = false) (hahead : Ahead (view t) b) :
    code.instructions[positionIn b (view s)]? = some i ∧
      positionIn b (view t) = positionIn b (view s) + 1 ∧ Ahead (view s) b := by
  have hitems := items_emit hrun hlive
  obtain ⟨back, hback⟩ := hahead
  have hsplit : b.items.toList = (view s).code.items.toList ++ .instruction i :: back := by simp [← hback, hitems]
  refine ⟨hb.instruction hsplit, ?_, Ahead.of_append ⟨back, hback⟩ hitems⟩
  rw [positionIn, hitems, place_append]
  rfl

/-- A label stands where it was placed. -/
theorem place_placed {l : Label} (hb : Finished b code) (hrun : FormM.place l s = .ok u t)
    (hahead : Ahead (view t) b) :
    Machine.jumpTarget code l = .ok (positionIn b (view s)) ∧
      positionIn b (view t) = positionIn b (view s) ∧ Ahead (view s) b := by
  have hitems := items_place hrun
  obtain ⟨back, hback⟩ := hahead
  have hsplit : b.items.toList = (view s).code.items.toList ++ .label l :: back := by simp [← hback, hitems]
  refine ⟨hb.jumpTarget hsplit, ?_, Ahead.of_append ⟨back, hback⟩ hitems⟩
  rw [positionIn, hitems, place_append]
  rfl

/-- A label at the end of a view stands where what comes next starts. -/
theorem label_placed {l : Label} {v : View} {front : List Item} (hb : Finished b code)
    (hitems : v.code.items.toList = front ++ [Item.label l]) (hahead : Ahead v b) :
    Machine.jumpTarget code l = .ok (positionIn b v) := by
  obtain ⟨back, hback⟩ := hahead
  have hsplit : b.items.toList = front ++ .label l :: back := by simp [← hback, hitems]
  rw [hb.jumpTarget hsplit, positionIn, hitems, place_append]
  rfl

theorem Ahead.positionIn_le {v w : View} {xs : List Item} (hitems : w.code.items.toList = v.code.items.toList ++ xs)
    (b : CodeBuffer) : positionIn b v ≤ positionIn b w := by
  rw [positionIn, positionIn, hitems, place_append]
  exact Nat.le_add_right _ _

theorem positionIn_of_items {v w : View} (h : w.code.items = v.code.items) (b : CodeBuffer) :
    positionIn b w = positionIn b v := by
  rw [positionIn, h]
  rfl

end Emitted

/-! ### Code that is not empty -/

/-- The code between two views is in a buffer as it was emitted, its holes filled as they were. -/
structure Contains (b : CodeBuffer) (v w : View) : Prop where
  ahead : Ahead w b
  filled : ∀ h, v.code.holes.size ≤ h → h < w.code.holes.size → b.holes[h]? = w.code.holes[h]?

/-- The labels of the loops around a form have been made. -/
def LoopsMade (v : View) : Prop := ∀ head slots d, .compiled head slots d ∈ v.loops → head < v.code.labels

theorem LoopsMade.mono {v w : View} (h : LoopsMade v) (hloops : w.loops = v.loops)
    (hlabels : v.code.labels ≤ w.code.labels) : LoopsMade w :=
  fun head slots d hmem => Nat.lt_of_lt_of_le (h head slots d (hloops ▸ hmem)) hlabels

section Flowing

variable {b : CodeBuffer} {v w : View} {k : Nat}

theorem flat_congr {p q : Blueprint} {xs : List Item} (h : ∀ i ∈ holesOf xs, p.filling i = q.filling i) :
    flat p xs = flat q xs := by
  induction xs with
  | nil => rfl
  | cons item rest ih =>
    cases item with
    | instruction i =>
      have hrest := ih h
      simpa [flat] using hrest
    | label l =>
      have hrest := ih h
      simpa [flat] using hrest
    | hole i =>
      have hrest := ih fun j hj => h j (List.mem_cons_of_mem _ hj)
      simpa [flat, h i (List.mem_cons_self ..)] using hrest

/-- A `recur` meets the head of its loop as it was met, if all labels made before are. -/
theorem holds_terms (hloops : LoopsMade v) (p : Blueprint) (hp : ∀ l < v.code.labels, p.depthOf l = v.reach) :
    (terms v).holds p := by
  intro _ head slots d rest hmem x hx
  exact (hp head (hloops head slots d (hmem ▸ List.mem_cons_self ..))).trans hx

/-- The depths at the labels made meanwhile make a blueprint that the code flows by; labels made later have no
depth in it. -/
theorem Grown.flows {T : Terms} {outer : Option Nat} (g : Grown T v k w)
    (hholds : ∀ p : Blueprint, (∀ l < v.code.labels, p.depthOf l = outer) → T.holds p) :
    ∃ p : Blueprint, (∀ h, p.filling h = (w.code.holes[h]?).getD []) ∧ p.sites = w.sites ∧
      (∀ l, w.code.labels ≤ l → p.depthOf l = none) ∧ Flows p T v w := by
  obtain ⟨depths, hdepths⟩ := g.plan
  have hle := g.since.labels_le
  let p : Blueprint :=
    { depthOf := fun l => if l < v.code.labels then outer else if l < w.code.labels then depths l else none
      filling := fun h => (w.code.holes[h]?).getD []
      sites := w.sites
      room := w.stack.max
      locals := w.code.nextSlot }
  refine ⟨p, fun _ => rfl, rfl, fun l hl => ?_, hdepths p (fun l hl hlt _ => ?_) ?_ ?_⟩
  · exact (if_neg (Nat.not_lt.2 (Nat.le_trans hle hl))).trans (if_neg (Nat.not_lt.2 hl))
  · exact (if_neg (Nat.not_lt.2 hl)).trans (if_pos hlt)
  · exact ⟨List.prefix_refl _, Nat.le_refl _, Nat.le_refl _, fun _ _ _ _ => rfl⟩
  · exact hholds p fun l hl => if_pos hl

/-- The holes among new items have been made meanwhile. -/
theorem holes_between {seg : List Item} (hv : Orderly v.code) (hw : Orderly w.code)
    (hitems : w.code.items.toList = v.code.items.toList ++ seg) {h : Hole} (hh : h ∈ holesOf seg) :
    v.code.holes.size ≤ h ∧ h < w.code.holes.size := by
  have hrange : holesOf v.code.items.toList ++ holesOf seg = List.range w.code.holes.size := by
    rw [← holesOf_append, ← hitems, hw.holes]
  rw [hv.holes] at hrange
  refine ⟨?_, List.mem_range.1 (hrange ▸ List.mem_append_right _ hh)⟩
  have hnodup : (List.range v.code.holes.size ++ holesOf seg).Nodup := hrange ▸ List.nodup_range
  by_contra hnot
  exact (List.nodup_append.1 hnodup).2.2 h (List.mem_range.2 (Nat.not_le.1 hnot)) h hh rfl

/-- New items come to the same instructions in the finished code. -/
theorem Contains.flat_eq {p : Blueprint} {seg : List Item} (hb : Contains b v w) (hv : Orderly v.code)
    (hw : Orderly w.code) (hitems : w.code.items.toList = v.code.items.toList ++ seg)
    (hfilling : ∀ h, p.filling h = (w.code.holes[h]?).getD []) : flat (.ofBuffer b) seg = flat p seg := by
  refine flat_congr fun h hh => ?_
  obtain ⟨hle, hlt⟩ := holes_between hv hw hitems hh
  rw [hfilling, ← hb.filled h hle hlt]
  rfl

/-- Between a point that control gets to and one that it does not, there is an instruction. -/
theorem Grown.advances (g : Grown (terms v) v k w) (hv : Valid v) (hloops : LoopsMade v) (hb : Contains b v w)
    (hlive : v.stack.isUnreachable = false) (hdead : w.reach = none) : positionIn b v < positionIn b w := by
  obtain ⟨p, hfilling, -, -, seg, -, hitems, -, hflow, -, -⟩ := g.flows (holds_terms hloops)
  have hflow : FlowAlong p 0 (some v.widths.sum) (p.expand seg) none := by
    rw [← hdead, ← View.reach_of_live hlive]
    exact hflow 0 fun _ => Nat.zero_le _
  obtain ⟨front, i, back, e, hsplit, -⟩ := exists_split_of_entry hflow (entry_zero hflow)
  have hlength : 0 < (flat (.ofBuffer b) seg).length := by
    rw [hb.flat_eq hv.orderly g.valid.orderly hitems hfilling, flat, hsplit, instructionsOf_append,
      List.length_append]
    exact Nat.lt_of_lt_of_le (Nat.succ_pos _) (Nat.le_add_left _ _)
  rw [positionIn, positionIn, hitems, place_append]
  omega

end Flowing

end LispMachine.Emission
