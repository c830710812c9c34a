import LispMachine.Bytecode.CodeBuffer
import LispMachine.Proofs.Verifier.Depths

/-! # Laying code out

Code under construction is a list of items: instructions, labels, and holes whose instructions come
later.  A `Blueprint` holds what is known once all of a method is emitted: the depth at every label, the
filling of every hole, the call sites, and the room for operands and locals.  `Flow` follows the depth of
the operand stack along items, from one that is known to the next; where control does not get, there is
no depth.  Nothing along the way may reach below a floor.

`CodeBuffer.layout` puts the items of a buffer one after the other: instructions in order, fillings in
place of holes, and for each label the number of instructions in front of it.  When the items flow from
the empty stack to where control does not get, the depth in front of each instruction is consistent in the
sense of the verifier, which then accepts the code (`Sound.checkMethod`). -/

namespace LispMachine.Emission

open CodeBuffer (Item PendingHandler Layout)

/-! ### The flow of code under construction -/

section Flowing

/-- What is known of a method once all of it is emitted. -/
structure Blueprint where
  /-- The depth at a label; control does not get to labels without one. -/
  depthOf : Label → Option Nat
  filling : Hole → List Instruction
  sites : List SiteSpec
  room : Nat
  locals : Nat

variable {p : Blueprint} {lo : Nat}

/-- The depth behind an instruction that does not end a block. -/
def afterEffect (depth : Nat) (e : Effect) : Nat := depth - e.popped + e.pushed

/-- An instruction at a depth has its operands above the floor, stays inside the room of the method, and
branches only to labels with the depth it leaves. -/
structure Fitting (p : Blueprint) (lo depth : Nat) (i : Instruction) (e : Effect) : Prop where
  effect : i.effect p.sites = .ok e
  needs : e.needs ≤ depth
  floor : lo + e.popped ≤ depth
  depth_le : depth ≤ p.room
  after_le : afterEffect depth e ≤ p.room
  slot : ∀ slot, i.slot? = some slot → slot < p.locals
  targets : ∀ l ∈ i.targets, p.depthOf l = some (afterEffect depth e)

/-- The depth behind an instruction, if control gets there. -/
def exitOf (i : Instruction) (depth : Nat) (e : Effect) : Option Nat :=
  if i.endsBlock then none else some (afterEffect depth e)

/-- The depth goes along items without holes, from one end to the other. -/
def FlowAlong (p : Blueprint) (lo : Nat) : Option Nat → List Item → Option Nat → Prop
  | d, [], d' => d = d'
  | d, .instruction i :: rest, d' =>
    ∃ depth e, d = some depth ∧ Fitting p lo depth i e ∧ FlowAlong p lo (exitOf i depth e) rest d'
  | d, .label l :: rest, d' => (d = none ∨ d = p.depthOf l) ∧ FlowAlong p lo (p.depthOf l) rest d'
  | _, .hole _ :: _, _ => False

/-- Items with the holes replaced by what fills them. -/
def Blueprint.expand (p : Blueprint) (items : List Item) : List Item :=
  items.flatMap fun
    | .hole h => (p.filling h).map .instruction
    | item => [item]

@[simp] theorem expand_nil : p.expand [] = [] := rfl

@[simp] theorem expand_append (xs ys : List Item) : p.expand (xs ++ ys) = p.expand xs ++ p.expand ys := by
  simp [Blueprint.expand]

@[simp] theorem expand_instruction (i : Instruction) (rest : List Item) :
    p.expand (.instruction i :: rest) = .instruction i :: p.expand rest := rfl

@[simp] theorem expand_label (l : Label) (rest : List Item) :
    p.expand (.label l :: rest) = .label l :: p.expand rest := rfl

@[simp] theorem expand_hole (h : Hole) (rest : List Item) :
    p.expand (.hole h :: rest) = (p.filling h).map .instruction ++ p.expand rest := rfl

/-- The depth goes along items from one end to the other, never below the floor. -/
def Flow (p : Blueprint) (lo : Nat) (d : Option Nat) (items : List Item) (d' : Option Nat) : Prop :=
  FlowAlong p lo d (p.expand items) d'

theorem flowAlong_append {d d' : Option Nat} {xs ys : List Item} :
    FlowAlong p lo d (xs ++ ys) d' ↔ ∃ c, FlowAlong p lo d xs c ∧ FlowAlong p lo c ys d' := by
  induction xs generalizing d with
  | nil => simp [FlowAlong]
  | cons item rest ih =>
      cases item with
      | instruction i =>
          simp only [List.cons_append, FlowAlong, ih]
          constructor
          · rintro ⟨depth, e, hd, hfit, c, hxs, hys⟩
            exact ⟨c, ⟨depth, e, hd, hfit, hxs⟩, hys⟩
          · rintro ⟨c, ⟨depth, e, hd, hfit, hxs⟩, hys⟩
            exact ⟨depth, e, hd, hfit, c, hxs, hys⟩
      | label l =>
          simp only [List.cons_append, FlowAlong, ih]
          constructor
          · rintro ⟨hl, c, hxs, hys⟩
            exact ⟨c, ⟨hl, hxs⟩, hys⟩
          · rintro ⟨c, ⟨hl, hxs⟩, hys⟩
            exact ⟨hl, c, hxs, hys⟩
      | hole h => simp [FlowAlong]

theorem FlowAlong.lower {lo' : Nat} (hlo : lo' ≤ lo) {d d' : Option Nat} {xs : List Item}
    (h : FlowAlong p lo d xs d') : FlowAlong p lo' d xs d' := by
  induction xs generalizing d with
  | nil => exact h
  | cons item rest ih =>
      cases item with
      | instruction i =>
          obtain ⟨depth, e, hd, hfit, hrest⟩ := h
          have hfloor := hfit.floor
          exact ⟨depth, e, hd, { hfit with floor := by omega }, ih hrest⟩
      | label l => exact ⟨h.1, ih h.2⟩
      | hole h' => exact h.elim

namespace Flow

variable {d d' c : Option Nat} {xs ys : List Item}

theorem nil : Flow p lo d [] d := rfl

theorem append (hx : Flow p lo d xs c) (hy : Flow p lo c ys d') : Flow p lo d (xs ++ ys) d' := by
  unfold Flow
  rw [expand_append]
  exact flowAlong_append.2 ⟨c, hx, hy⟩

theorem split (h : Flow p lo d (xs ++ ys) d') : ∃ c, Flow p lo d xs c ∧ Flow p lo c ys d' := by
  unfold Flow at h
  rw [expand_append] at h
  exact flowAlong_append.1 h

theorem lower {lo' : Nat} (h : Flow p lo d xs d') (hlo : lo' ≤ lo) : Flow p lo' d xs d' :=
  FlowAlong.lower hlo h

theorem instruction {depth : Nat} {i : Instruction} {e : Effect} (h : Fitting p lo depth i e) :
    Flow p lo (some depth) [.instruction i] (exitOf i depth e) := ⟨depth, e, rfl, h, rfl⟩

theorem label {l : Label} (h : d = none ∨ d = p.depthOf l) : Flow p lo d [.label l] (p.depthOf l) :=
  ⟨h, rfl⟩

theorem hole {h : Hole} (hfill : Flow p lo d ((p.filling h).map .instruction) d') :
    Flow p lo d [.hole h] d' := by
  unfold Flow at hfill ⊢
  have hsame : p.expand ((p.filling h).map .instruction) = (p.filling h).map .instruction := by
    induction p.filling h with
    | nil => rfl
    | cons i rest ih => simp [ih]
  rw [hsame] at hfill
  simpa using hfill

end Flow

end Flowing

/-! ### Laid out items -/

/-- The labels among items. -/
def labelsOf (items : List Item) : List Label :=
  items.filterMap fun
    | .label l => some l
    | _ => none

/-- The holes among items. -/
def holesOf (items : List Item) : List Hole :=
  items.filterMap fun
    | .hole h => some h
    | _ => none

/-- The instructions among items. -/
def instructionsOf (items : List Item) : List Instruction :=
  items.filterMap fun
    | .instruction i => some i
    | _ => none

section Items

variable (xs ys : List Item)

@[simp] theorem labelsOf_append : labelsOf (xs ++ ys) = labelsOf xs ++ labelsOf ys := by
  simp [labelsOf]

@[simp] theorem holesOf_append : holesOf (xs ++ ys) = holesOf xs ++ holesOf ys := by
  simp [holesOf]

@[simp] theorem instructionsOf_append :
    instructionsOf (xs ++ ys) = instructionsOf xs ++ instructionsOf ys := by
  simp [instructionsOf]

@[simp] theorem instructionsOf_map (code : List Instruction) :
    instructionsOf (code.map .instruction) = code := by
  induction code with
  | nil => rfl
  | cons i rest ih =>
      rw [List.map_cons]
      exact congrArg (i :: ·) ih

end Items

@[simp] theorem labelsOf_nil : labelsOf [] = [] := rfl
@[simp] theorem holesOf_nil : holesOf [] = [] := rfl
@[simp] theorem instructionsOf_nil : instructionsOf [] = [] := rfl

@[simp] theorem labelsOf_label (l : Label) (xs : List Item) :
    labelsOf (.label l :: xs) = l :: labelsOf xs := rfl
@[simp] theorem labelsOf_instruction (i : Instruction) (xs : List Item) :
    labelsOf (.instruction i :: xs) = labelsOf xs := rfl
@[simp] theorem labelsOf_hole (h : Hole) (xs : List Item) : labelsOf (.hole h :: xs) = labelsOf xs := rfl

@[simp] theorem holesOf_label (l : Label) (xs : List Item) : holesOf (.label l :: xs) = holesOf xs := rfl
@[simp] theorem holesOf_instruction (i : Instruction) (xs : List Item) :
    holesOf (.instruction i :: xs) = holesOf xs := rfl
@[simp] theorem holesOf_hole (h : Hole) (xs : List Item) :
    holesOf (.hole h :: xs) = h :: holesOf xs := rfl

@[simp] theorem instructionsOf_label (l : Label) (xs : List Item) :
    instructionsOf (.label l :: xs) = instructionsOf xs := rfl
@[simp] theorem instructionsOf_instruction (i : Instruction) (xs : List Item) :
    instructionsOf (.instruction i :: xs) = i :: instructionsOf xs := rfl
@[simp] theorem instructionsOf_hole (h : Hole) (xs : List Item) :
    instructionsOf (.hole h :: xs) = instructionsOf xs := rfl

/-- The instructions that items come to. -/
def flat (p : Blueprint) (items : List Item) : List Instruction := instructionsOf (p.expand items)

section Layout

variable {p : Blueprint} {out : Layout} {xs : List Item}

/-- Laid out in order, items come to the instructions among them, each hole to its filling. -/
theorem layout_instructions (hfill : ∀ h ∈ holesOf xs, (out.holes[h]?).getD [] = p.filling h)
    (hnodup : (holesOf xs).Nodup) :
    (xs.foldl Layout.add out).instructions.toList = out.instructions.toList ++ flat p xs := by
  induction xs generalizing out with
  | nil => simp [flat]
  | cons item rest ih =>
      cases item with
      | instruction i =>
          rw [List.foldl_cons, ih (by simpa [Layout.add] using hfill) (by simpa using hnodup)]
          simp [Layout.add, flat]
      | label l =>
          rw [List.foldl_cons, ih (by simpa [Layout.add] using hfill) (by simpa using hnodup)]
          simp [Layout.add, flat]
      | hole h =>
          rw [holesOf_hole, List.nodup_cons] at hnodup
          have hrest : ∀ h' ∈ holesOf rest,
              ((Layout.add out (.hole h)).holes[h']?).getD [] = p.filling h' := by
            intro h' hh'
            have hne : h ≠ h' := by
              rintro rfl
              exact hnodup.1 hh'
            simp only [Layout.add, Array.getElem?_setIfInBounds, if_neg hne]
            exact hfill h' (by simp [hh'])
          rw [List.foldl_cons, ih hrest hnodup.2]
          have hh := hfill h (by simp)
          simp [Layout.add, flat, hh]

theorem layout_labels_size (xs : List Item) (out : Layout) :
    (xs.foldl Layout.add out).labels.size = out.labels.size := by
  induction xs generalizing out with
  | nil => rfl
  | cons item rest ih =>
      rw [List.foldl_cons, ih]
      cases item <;> simp [Layout.add]

/-- Items without a label leave the position of that label alone. -/
theorem layout_labels_of_not_mem {l : Label} (h : l ∉ labelsOf xs) (out : Layout) :
    (xs.foldl Layout.add out).labels[l]? = out.labels[l]? := by
  induction xs generalizing out with
  | nil => rfl
  | cons item rest ih =>
      rw [List.foldl_cons]
      cases item with
      | instruction i => exact ih (by simpa using h) _
      | hole h' => exact ih (by simpa using h) _
      | label l' =>
          simp only [labelsOf_label, List.mem_cons, not_or] at h
          rw [ih h.2]
          simp [Layout.add, Ne.symm h.1]

end Layout

/-- No label stands twice, and holes stand in the order they were made. -/
structure Orderly (b : CodeBuffer) : Prop where
  labels_nodup : (labelsOf b.items.toList).Nodup
  labels_lt : ∀ l ∈ labelsOf b.items.toList, l < b.labels
  holes : holesOf b.items.toList = List.range b.holes.size

section Buffer

variable {b : CodeBuffer} {p : Blueprint}

/-- The blueprint fills the holes as the buffer does. -/
def Fills (p : Blueprint) (b : CodeBuffer) : Prop :=
  ∀ h < b.holes.size, p.filling h = (b.holes[h]?).getD []

theorem layout_eq (b : CodeBuffer) :
    b.layout = b.items.toList.foldl Layout.add ⟨#[], b.holes, Array.replicate b.labels none⟩ := by
  rw [CodeBuffer.layout, ← Array.foldl_toList]

theorem instructions_eq (hb : Orderly b) (hfill : Fills p b) :
    b.layout.instructions.toList = flat p b.items.toList := by
  rw [layout_eq, layout_instructions (p := p)]
  · rfl
  · intro h hh
    rw [hb.holes, List.mem_range] at hh
    exact (hfill h hh).symm
  · rw [hb.holes]
    exact List.nodup_range

/-- Where a label stands last, there are as many instructions in front of it as its position says. -/
theorem position_of_last (hfill : ∀ h ∈ holesOf b.items.toList, (b.holes[h]?).getD [] = p.filling h)
    (hnodup : (holesOf b.items.toList).Nodup) {l : Label} {front back : List Item}
    (hsplit : b.items.toList = front ++ .label l :: back) (hlt : l < b.labels) (hback : l ∉ labelsOf back) :
    b.layout.labels[l]? = some (some (flat p front).length) := by
  rw [hsplit, holesOf_append] at hfill hnodup
  have hfront : (front.foldl Layout.add
      ⟨#[], b.holes, Array.replicate b.labels none⟩).instructions.toList = flat p front := by
    rw [layout_instructions (p := p)]
    · rfl
    · exact fun h hh => hfill h (List.mem_append_left _ hh)
    · exact (List.nodup_append.1 hnodup).1
  rw [layout_eq, hsplit, List.foldl_append, List.foldl_cons, layout_labels_of_not_mem hback]
  simp only [Layout.add, Array.getElem?_setIfInBounds, layout_labels_size, Array.size_replicate]
  rw [if_pos trivial, if_pos hlt, ← hfront, Array.length_toList]

/-- A label stands behind as many instructions as there are in front of it. -/
theorem position_eq (hb : Orderly b) (hfill : Fills p b) {l : Label} {front back : List Item}
    (hsplit : b.items.toList = front ++ .label l :: back) :
    b.layout.labels[l]? = some (some (flat p front).length) := by
  have hnodup := hb.labels_nodup
  rw [hsplit, labelsOf_append, labelsOf_label] at hnodup
  refine position_of_last (fun h hh => ?_) (hb.holes ▸ List.nodup_range) hsplit (hb.labels_lt l (by simp [hsplit]))
    (List.nodup_cons.1 (List.nodup_append.1 hnodup).2.1).1
  rw [hb.holes, List.mem_range] at hh
  exact (hfill h hh).symm

/-- A label that has a position stands among the items. -/
theorem mem_of_resolve {l : Label} {pc : Nat}
    (h : CodeBuffer.resolve b.layout.labels l = .ok pc) : l ∈ labelsOf b.items.toList := by
  refine Decidable.byContradiction fun hmem => ?_
  have hnone : (b.layout.labels[l]?).join = none := by
    rw [layout_eq, layout_labels_of_not_mem hmem, Array.getElem?_replicate]
    split <;> rfl
  simp [CodeBuffer.resolve, hnone] at h

theorem exists_split_of_mem {l : Label} {items : List Item} (h : l ∈ labelsOf items) :
    ∃ front back, items = front ++ .label l :: back := by
  obtain ⟨item, hitem, hl⟩ := List.mem_filterMap.1 h
  obtain ⟨front, back, rfl⟩ := List.append_of_mem hitem
  refine ⟨front, back, ?_⟩
  cases item with
  | label l' =>
      obtain rfl : l' = l := by simpa using hl
      rfl
  | _ => simp at hl

theorem resolve_eq (hb : Orderly b) (hfill : Fills p b) {l : Label} {pc : Nat}
    (h : CodeBuffer.resolve b.layout.labels l = .ok pc) :
    ∃ front back, b.items.toList = front ++ .label l :: back ∧ pc = (flat p front).length := by
  obtain ⟨front, back, hsplit⟩ := exists_split_of_mem (mem_of_resolve h)
  refine ⟨front, back, hsplit, ?_⟩
  simp only [CodeBuffer.resolve, position_eq hb hfill hsplit, Option.join_some] at h
  exact (Except.ok.inj h).symm

end Buffer

/-! ### Depths by position -/

section Entry

variable {p : Blueprint} {lo : Nat} {d d' : Option Nat} {xs ys : List Item}

/-- The depth behind an instruction that control gets to at a depth. -/
def stepOf (p : Blueprint) (d : Option Nat) (i : Instruction) : Option Nat :=
  match d, i.effect p.sites with
  | some depth, .ok e => exitOf i depth e
  | _, _ => none

/-- The depth in front of the instruction at a position. -/
def entry (p : Blueprint) : Option Nat → List Item → Nat → Option Nat
  | _, [], _ => none
  | d, .instruction _ :: _, 0 => d
  | d, .instruction i :: rest, n + 1 => entry p (stepOf p d i) rest n
  | _, .label l :: rest, n => entry p (p.depthOf l) rest n
  | d, .hole _ :: rest, n => entry p d rest n

theorem stepOf_eq {depth : Nat} {i : Instruction} {e : Effect} (h : Fitting p lo depth i e) :
    stepOf p (some depth) i = exitOf i depth e := by
  simp [stepOf, h.effect]

/-- The depth at a position behind some items is found from where these end. -/
theorem entry_append (h : FlowAlong p lo d xs d') (ys : List Item) (n : Nat) :
    entry p d (xs ++ ys) ((instructionsOf xs).length + n) = entry p d' ys n := by
  induction xs generalizing d with
  | nil =>
      obtain rfl := h
      simp
  | cons item rest ih =>
      cases item with
      | instruction i =>
          obtain ⟨depth, e, rfl, hfit, hrest⟩ := h
          have hlength : (instructionsOf (.instruction i :: rest)).length + n
              = (instructionsOf rest).length + n + 1 := by
            simp
            omega
          rw [List.cons_append, hlength, entry, stepOf_eq hfit]
          exact ih hrest
      | label l =>
          rw [List.cons_append, entry, instructionsOf_label]
          exact ih h.2
      | hole h' => exact h.elim

/-- Where control gets and goes on to a point it does not get to, there is an instruction. -/
theorem entry_zero {depth : Nat} (h : FlowAlong p lo (some depth) xs none) :
    entry p (some depth) xs 0 = some depth := by
  induction xs with
  | nil => cases h
  | cons item rest ih =>
      cases item with
      | instruction i => rfl
      | label l =>
          obtain ⟨hl, hrest⟩ := h
          obtain hl : some depth = p.depthOf l := hl.resolve_left (by simp)
          rw [entry, ← hl]
          exact ih (hl ▸ hrest)
      | hole h' => exact h.elim

/-- A position with a depth is that of an instruction that fits there. -/
theorem exists_split_of_entry {depth n : Nat} (h : FlowAlong p lo d xs d')
    (hn : entry p d xs n = some depth) :
    ∃ front i back e, xs = front ++ .instruction i :: back ∧ (instructionsOf front).length = n ∧
      FlowAlong p lo d front (some depth) ∧ Fitting p lo depth i e ∧
      FlowAlong p lo (exitOf i depth e) back d' := by
  induction xs generalizing d n with
  | nil => simp [entry] at hn
  | cons item rest ih =>
      cases item with
      | instruction i =>
          obtain ⟨depth', e, rfl, hfit, hrest⟩ := h
          cases n with
          | zero =>
              obtain rfl : depth' = depth := by simpa [entry] using hn
              exact ⟨[], i, rest, e, rfl, rfl, rfl, hfit, hrest⟩
          | succ n =>
              rw [entry, stepOf_eq hfit] at hn
              obtain ⟨front, i', back, e', rfl, hlen, hfront, hfit', hback⟩ := ih hrest hn
              exact ⟨.instruction i :: front, i', back, e', rfl, by simp [hlen],
                ⟨depth', e, rfl, hfit, hfront⟩, hfit', hback⟩
      | label l =>
          rw [entry] at hn
          obtain ⟨front, i', back, e', rfl, hlen, hfront, hfit', hback⟩ := ih h.2 hn
          exact ⟨.label l :: front, i', back, e', rfl, by simpa using hlen, ⟨h.1, hfront⟩, hfit', hback⟩
      | hole h' => exact h.elim

/-- Items further on do not change the depths in front of the earlier ones. -/
theorem entry_of_lt {n : Nat} (h : n < (instructionsOf xs).length) :
    entry p d (xs ++ ys) n = entry p d xs n := by
  induction xs generalizing d n with
  | nil => simp at h
  | cons item rest ih =>
      cases item with
      | instruction i =>
          cases n with
          | zero => rfl
          | succ n => exact ih (by simpa using h)
      | label l => exact ih (by simpa using h)
      | hole h' => exact ih (by simpa using h)

/-- Nothing along the way is below the floor. -/
theorem le_of_entry {depth n : Nat} (h : FlowAlong p lo d xs d') (hn : entry p d xs n = some depth) :
    lo ≤ depth := by
  obtain ⟨_, _, _, e, _, _, _, hfit, _⟩ := exists_split_of_entry h hn
  have hfloor := hfit.floor
  omega

end Entry

/-! ### The finished code -/

section Finished

variable {b : CodeBuffer} {p : Blueprint} {code : Code} {room : Nat}

/-- What stands between two labels stays above a depth. -/
def Ranged (p : Blueprint) (items : List Item) (first last : Label) (depth : Nat) : Prop :=
  ∃ front body back d, items = front ++ .label first :: (body ++ .label last :: back) ∧
    Flow p depth (p.depthOf first) body d

theorem Ranged.extend {items : List Item} {first last : Label} {depth : Nat}
    (h : Ranged p items first last depth) (xs ys : List Item) :
    Ranged p (xs ++ items ++ ys) first last depth := by
  obtain ⟨front, body, back, d, rfl, hflow⟩ := h
  exact ⟨xs ++ front, body, back ++ ys, d, by simp, hflow⟩

/-- A handler has a range that stays above the depth it expects, and is itself met with the exception on
top of that depth. -/
structure Guarded (p : Blueprint) (items : List Item) (h : PendingHandler) : Prop where
  range : Ranged p items h.first h.last h.stackDepth
  target : p.depthOf h.target = some (h.stackDepth + 1)
  room : h.stackDepth + 1 ≤ p.room

theorem Guarded.extend {items : List Item} {h : PendingHandler} (hg : Guarded p items h)
    (xs ys : List Item) : Guarded p (xs ++ items ++ ys) h :=
  ⟨hg.range.extend xs ys, hg.target, hg.room⟩

theorem finish_ok (h : b.finish room = .ok code) :
    code.instructions = b.layout.instructions ∧ code.labels = b.layout.labels ∧
      code.maxStack = room ∧ code.maxLocals = b.nextSlot ∧
      CodeBuffer.checkLabels b.layout.labels
        (b.layout.instructions.toList.flatMap Instruction.targets) = .ok () ∧
      b.handlers.toList.mapM (CodeBuffer.resolveHandler b.layout.labels) = .ok code.handlers := by
  unfold CodeBuffer.finish at h
  obtain ⟨⟨⟩, hlabels, h⟩ := bind_ok h
  obtain ⟨handlers, hhandlers, h⟩ := bind_ok h
  obtain ⟨localVars, -, h⟩ := bind_ok h
  obtain rfl := Except.ok.inj h
  exact ⟨rfl, rfl, rfl, rfl, hlabels, hhandlers⟩

theorem resolve_of_checkLabels {labels : Array (Option Nat)} {ls : List Label} {l : Label}
    (h : CodeBuffer.checkLabels labels ls = .ok ()) (hl : l ∈ ls) :
    ∃ pc, CodeBuffer.resolve labels l = .ok pc := by
  induction ls with
  | nil => cases hl
  | cons l' rest ih =>
      rw [CodeBuffer.checkLabels] at h
      obtain ⟨pc, hpc, h⟩ := bind_ok h
      rcases List.mem_cons.1 hl with rfl | hl
      · exact ⟨pc, hpc⟩
      · exact ih h hl

theorem exists_of_mapM_ok {α β : Type} {f : α → Except Error β} {xs : List α} {ys : List β} {y : β}
    (h : xs.mapM f = .ok ys) (hy : y ∈ ys) : ∃ x ∈ xs, f x = .ok y := by
  induction xs generalizing ys with
  | nil =>
      obtain rfl : [] = ys := Except.ok.inj h
      cases hy
  | cons x xs ih =>
      rw [List.mapM_cons] at h
      obtain ⟨z, hz, h⟩ := bind_ok h
      obtain ⟨zs, hzs, h⟩ := bind_ok h
      obtain rfl := Except.ok.inj h
      rcases List.mem_cons.1 hy with rfl | hy
      · exact ⟨x, by simp, hz⟩
      · obtain ⟨x', hx', hfx⟩ := ih hzs hy
        exact ⟨x', by simp [hx'], hfx⟩

theorem resolveHandler_ok {labels : Array (Option Nat)} {h : PendingHandler} {r : Handler}
    (hr : CodeBuffer.resolveHandler labels h = .ok r) :
    CodeBuffer.resolve labels h.first = .ok r.first ∧ CodeBuffer.resolve labels h.last = .ok r.last ∧
      CodeBuffer.resolve labels h.target = .ok r.target ∧ r.stackDepth = h.stackDepth := by
  unfold CodeBuffer.resolveHandler at hr
  obtain ⟨first, hfirst, hr⟩ := bind_ok hr
  obtain ⟨last, hlast, hr⟩ := bind_ok hr
  obtain ⟨target, htarget, hr⟩ := bind_ok hr
  obtain rfl := Except.ok.inj hr
  exact ⟨hfirst, hlast, htarget, rfl⟩

/-- A buffer keeps to a blueprint: its items flow from the empty stack to where control does not get. -/
structure Sound (p : Blueprint) (b : CodeBuffer) : Prop where
  orderly : Orderly b
  fills : Fills p b
  flow : Flow p 0 (some 0) b.items.toList none
  guarded : ∀ h ∈ b.handlers.toList, Guarded p b.items.toList h
  locals : p.locals = b.nextSlot

/-- The depth in front of the instruction at a position of the laid out code. -/
def Blueprint.depths (p : Blueprint) (b : CodeBuffer) : Verifier.Depths :=
  entry p (some 0) (p.expand b.items.toList)

namespace Sound

theorem instructions (h : Sound p b) : b.layout.instructions.toList = flat p b.items.toList :=
  instructions_eq h.orderly h.fills

/-- Control meets the position of a label with the depth of the label. -/
theorem depths_label (h : Sound p b) {l : Label} {front back : List Item} {depth : Nat}
    (hsplit : b.items.toList = front ++ .label l :: back) (hl : p.depthOf l = some depth) :
    p.depths b (flat p front).length = some depth := by
  have hflow := h.flow
  unfold Flow at hflow
  rw [hsplit, expand_append, expand_label, flowAlong_append] at hflow
  obtain ⟨c, hfront, -, hback⟩ := hflow
  rw [Blueprint.depths, hsplit, expand_append, expand_label]
  have hat := entry_append hfront (.label l :: p.expand back) 0
  rw [Nat.add_zero, entry, hl] at hat
  rw [flat, hat]
  exact entry_zero (hl ▸ hback)

theorem depths_resolve (h : Sound p b) {l : Label} {pc depth : Nat}
    (hpc : CodeBuffer.resolve b.layout.labels l = .ok pc) (hl : p.depthOf l = some depth) :
    p.depths b pc = some depth := by
  obtain ⟨front, back, hsplit, rfl⟩ := resolve_eq h.orderly h.fills hpc
  exact h.depths_label hsplit hl

/-- The range of a handler as positions. -/
theorem range_eq (h : Sound p b) {hd : PendingHandler} {r : Handler} {front body back : List Item}
    (hr : CodeBuffer.resolveHandler b.layout.labels hd = .ok r)
    (hsplit : b.items.toList = front ++ .label hd.first :: (body ++ .label hd.last :: back)) :
    r.first = (flat p front).length ∧ r.last = (flat p front).length + (flat p body).length := by
  obtain ⟨hfirst, hlast, -, -⟩ := resolveHandler_ok hr
  have hlast' : b.items.toList = (front ++ .label hd.first :: body) ++ .label hd.last :: back := by
    simp [hsplit]
  simp only [CodeBuffer.resolve, position_eq h.orderly h.fills hsplit, Option.join_some,
    Except.ok.injEq] at hfirst
  simp only [CodeBuffer.resolve, position_eq h.orderly h.fills hlast', Option.join_some,
    Except.ok.injEq] at hlast
  refine ⟨hfirst.symm, ?_⟩
  rw [← hlast]
  simp [flat]

/-- Where a handler covers an instruction, the stack is at least as deep as the handler expects. -/
theorem covered (h : Sound p b) {hd : PendingHandler} {r : Handler} {pc depth : Nat}
    (hmem : hd ∈ b.handlers.toList) (hr : CodeBuffer.resolveHandler b.layout.labels hd = .ok r)
    (hcovers : r.covers pc = true) (hpc : p.depths b pc = some depth) : hd.stackDepth ≤ depth := by
  obtain ⟨front, body, back, d, hsplit, hbody⟩ := (h.guarded hd hmem).range
  obtain ⟨hfirst, hlast⟩ := h.range_eq hr hsplit
  simp only [Handler.covers, Bool.and_eq_true, decide_eq_true_eq, hfirst, hlast] at hcovers
  obtain ⟨n, rfl⟩ := Nat.exists_eq_add_of_le hcovers.1
  have hn : n < (instructionsOf (p.expand body)).length := by
    have hlt := hcovers.2
    rw [flat, flat] at hlt
    omega
  have hflow := h.flow
  unfold Flow at hflow
  rw [hsplit, expand_append, expand_label, flowAlong_append] at hflow
  obtain ⟨c, hfront, -, -⟩ := hflow
  rw [Blueprint.depths, hsplit, expand_append, expand_label, flat, entry_append hfront, entry,
    expand_append, entry_of_lt hn] at hpc
  exact le_of_entry hbody hpc

/-- The depths along the flow are consistent. -/
theorem consistent (h : Sound p b) (hcode : b.finish p.room = .ok code) :
    Verifier.Consistent code p.sites (p.depths b) p.room := by
  obtain ⟨hinstr, hlabels, -, hlocals, hcheck, hhandlers⟩ := finish_ok hcode
  have hflow := h.flow
  unfold Flow at hflow
  refine ⟨entry_zero hflow, ?_⟩
  intro pc depth hpc
  obtain ⟨front, i, back, e, hsplit, hlen, hfront, hfit, hback⟩ := exists_split_of_entry hflow hpc
  have hi : code.instructions[pc]? = some i := by
    rw [hinstr, ← Array.getElem?_toList, h.instructions, flat, hsplit, ← hlen]
    simp
  have hmem : i ∈ b.layout.instructions.toList := by
    rw [h.instructions, flat, hsplit]
    simp
  obtain ⟨hdelta, henough⟩ := Verifier.delta_of_effect hfit.effect hfit.needs
  refine ⟨i, e.popped, e.pushed, hi, hdelta, henough, ?_, hfit.depth_le, hfit.after_le, ?_, ?_, ?_⟩
  · intro slot hslot
    have hlt := hfit.slot slot hslot
    rwa [h.locals, ← hlocals] at hlt
  · intro l hl
    obtain ⟨t, ht⟩ := resolve_of_checkLabels hcheck (List.mem_flatMap.2 ⟨i, hmem, hl⟩)
    refine ⟨t, ?_, h.depths_resolve ht (hfit.targets l hl)⟩
    unfold CodeBuffer.resolve at ht
    split at ht
    · rename_i t' ht'
      obtain rfl := Except.ok.inj ht
      rw [Code.position?, hlabels, ht']
    · cases ht
  · intro hends
    have hexit : exitOf i depth e = some (afterEffect depth e) := by simp [exitOf, hends]
    have hlast : FlowAlong p 0 (some depth) [.instruction i] (some (afterEffect depth e)) :=
      ⟨depth, e, rfl, hfit, hexit⟩
    have hnext := entry_append (flowAlong_append.2 ⟨_, hfront, hlast⟩) back 0
    rw [hexit] at hback
    rw [entry_zero hback] at hnext
    rw [Blueprint.depths, hsplit, ← hlen]
    simpa [afterEffect] using hnext
  · intro r hr hcovers
    obtain ⟨hd, hhd, hresolve⟩ := exists_of_mapM_ok hhandlers hr
    obtain ⟨-, -, htarget, hdepth⟩ := resolveHandler_ok hresolve
    have hg := h.guarded hd hhd
    rw [hdepth]
    exact ⟨h.covered hhd hresolve hcovers hpc, hg.room, h.depths_resolve htarget hg.target⟩

/-- The positions of the handlers lie in the code. -/
theorem handlerFits (h : Sound p b) (hcode : b.finish p.room = .ok code) {r : Handler}
    (hr : r ∈ code.handlers) : Verifier.handlerFits code r = true := by
  obtain ⟨hinstr, -, -, -, -, hhandlers⟩ := finish_ok hcode
  obtain ⟨hd, hhd, hresolve⟩ := exists_of_mapM_ok hhandlers hr
  obtain ⟨-, -, htarget, -⟩ := resolveHandler_ok hresolve
  have hg := h.guarded hd hhd
  have hlt := (h.consistent hcode).lt_size (h.depths_resolve htarget hg.target)
  obtain ⟨front, body, back, d, hsplit, -⟩ := hg.range
  obtain ⟨hfirst, hlast⟩ := h.range_eq hresolve hsplit
  have hsize : code.instructions.size = (flat p b.items.toList).length := by
    rw [hinstr, ← h.instructions, Array.length_toList]
  have hle : r.last ≤ code.instructions.size := by
    rw [hsize, hlast, hsplit]
    simp [flat]
  have hordered : r.first ≤ r.last := by omega
  simp only [Verifier.handlerFits, hordered, hle, hlt, decide_true, Bool.and_self]

/-- A method whose code keeps to a blueprint is accepted by the verifier. -/
theorem checkMethod (h : Sound p b) (hcode : b.finish p.room = .ok code) {m : MethodDef}
    (hm : m.code = some code) (hparams : Verifier.parameterSlots m ≤ b.nextSlot) :
    Verifier.checkMethod m p.sites = .ok () := by
  obtain ⟨-, -, hstack, hlocals, -, -⟩ := finish_ok hcode
  rw [Verifier.checkMethod_iff hm, hlocals, hstack]
  exact ⟨hparams, fun r hr => h.handlerFits hcode hr, p.depths b, h.consistent hcode⟩

end Sound

end Finished

end LispMachine.Emission
