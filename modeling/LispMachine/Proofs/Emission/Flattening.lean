import Mathlib.Data.List.Forall2
import LispMachine.Proofs.Emission.Layout

/-! # What operations on a buffer come to

Code is put together by operations, of which some speak of code that is not there yet: a hole is filled after the
labels behind it were placed, and every handler and every branch names labels by number.  `expansion` says what
instructions a sequence of operations stands for.  One operation changes a buffer by what it adds
(`Operation.apply_adds`), a whole sequence by what its operations add (`applyAll_adds`, `holes_applyAll`), and laid out
the buffer has the expansion for its instructions and every position counted in it (`finish_flattens`). -/

namespace LispMachine.CodeBuffer

open Emission

/-- An operation on a buffer.  Labels and holes go by the numbers that they got when they were made. -/
inductive Operation where
  | push (i : Instruction)
  | newLabel
  | place (l : Label)
  | hole
  | fill (h : Hole) (code : List Instruction)
  | addHandler (h : PendingHandler)
  | describeLocal (v : PendingLocal)
  | allocSlot
  | freeSlot (slot : Nat)

def Operation.apply (b : CodeBuffer) : Operation → CodeBuffer
  | .push i => b.push i
  | .newLabel => b.newLabel.2
  | .place l => b.place l
  | .hole => b.hole.2
  | .fill h code => b.fill h code
  | .addHandler h => b.addHandler h.first h.last h.target h.catches h.stackDepth
  | .describeLocal v => b.describeLocal v.name v.slot v.ty v.first v.last
  | .allocSlot => b.allocSlot.2
  | .freeSlot slot => b.freeSlot slot

/-- One operation after the other. -/
def applyAll (b : CodeBuffer) (ops : List Operation) : CodeBuffer := ops.foldl Operation.apply b

/-! ### What a sequence stands for -/

/-- What a hole is filled with last, if it is filled with `code` before. -/
def lastFilling (h : Hole) : List Instruction → List Operation → List Instruction
  | code, [] => code
  | code, .fill h' code' :: rest => lastFilling h (if h' = h then code' else code) rest
  | code, _ :: rest => lastFilling h code rest

/-- The instructions of operations that `later` ones follow, with `n` holes made before: those that are pushed, in
order, and for each hole what it is filled with last. -/
def expansion (later : List Operation) : Nat → List Operation → List Instruction
  | _, [] => []
  | n, .push i :: rest => i :: expansion later n rest
  | n, .hole :: rest => lastFilling n [] (rest ++ later) ++ expansion later (n + 1) rest
  | n, _ :: rest => expansion later n rest

def handlersOf (ops : List Operation) : List PendingHandler :=
  ops.filterMap fun
    | .addHandler h => some h
    | _ => none

def localsOf (ops : List Operation) : List PendingLocal :=
  ops.filterMap fun
    | .describeLocal v => some v
    | _ => none

/-- How many labels are made. -/
def labelCount (ops : List Operation) : Nat :=
  ops.countP fun
    | .newLabel => true
    | _ => false

/-- Only labels of the buffer are placed. -/
def OwnLabels (ops : List Operation) : Prop := ∀ l, .place l ∈ ops → l < labelCount ops

/-- A branch, a handler or a described local names the label. -/
def Uses (ops : List Operation) (l : Label) : Prop :=
  (∃ i ∈ expansion [] 0 ops, l ∈ i.targets) ∨
    (∃ h ∈ handlersOf ops, l = h.first ∨ l = h.last ∨ l = h.target) ∨
    ∃ v ∈ localsOf ops, l = v.first ∨ l = v.last

/-- The items that operations add, with `n` holes made before. -/
def itemsOf : Nat → List Operation → List Item
  | _, [] => []
  | n, .push i :: rest => .instruction i :: itemsOf n rest
  | n, .place l :: rest => .label l :: itemsOf n rest
  | n, .hole :: rest => .hole n :: itemsOf (n + 1) rest
  | n, _ :: rest => itemsOf n rest

/-! ### Step by step -/

section Steps

variable {b b' : CodeBuffer} {ops front later : List Operation} {h : Hole} {l : Label} {n : Nat}
  {code : List Instruction}

/-- A buffer got what operations add. -/
structure Added (b : CodeBuffer) (ops : List Operation) (b' : CodeBuffer) : Prop where
  items : b'.items.toList = b.items.toList ++ itemsOf b.holes.size ops
  handlers : b'.handlers.toList = b.handlers.toList ++ handlersOf ops
  locals : b'.locals.toList = b.locals.toList ++ localsOf ops
  labels : b'.labels = b.labels + labelCount ops

theorem Operation.apply_adds (b : CodeBuffer) (op : Operation) : Added b [op] (op.apply b) := by
  cases op with
  | allocSlot =>
    simp only [apply, CodeBuffer.allocSlot]
    split <;> constructor <;> simp [itemsOf, handlersOf, localsOf, labelCount]
  | freeSlot slot =>
    simp only [apply, CodeBuffer.freeSlot]
    split <;> constructor <;> simp [itemsOf, handlersOf, localsOf, labelCount]
  | _ =>
    constructor <;> simp [apply, CodeBuffer.push, CodeBuffer.newLabel, CodeBuffer.place, CodeBuffer.hole,
      CodeBuffer.fill, CodeBuffer.addHandler, CodeBuffer.describeLocal, itemsOf, handlersOf, localsOf, labelCount]

/-- The next number for a hole, behind an operation. -/
def Operation.holesAfter (n : Nat) : Operation → Nat
  | .hole => n + 1
  | _ => n

theorem Operation.holes_size_apply (b : CodeBuffer) (op : Operation) :
    (op.apply b).holes.size = op.holesAfter b.holes.size := by
  cases op with
  | allocSlot => simp only [apply, CodeBuffer.allocSlot]; split <;> rfl
  | freeSlot slot => simp only [apply, CodeBuffer.freeSlot]; split <;> rfl
  | hole => simp [apply, CodeBuffer.hole, holesAfter]
  | fill h code => simp [apply, CodeBuffer.fill, holesAfter]
  | _ => rfl

theorem itemsOf_cons (n : Nat) (op : Operation) (ops : List Operation) :
    itemsOf n (op :: ops) = itemsOf n [op] ++ itemsOf (op.holesAfter n) ops := by
  cases op <;> rfl

theorem applyAll_adds (b : CodeBuffer) (ops : List Operation) : Added b ops (applyAll b ops) := by
  induction ops generalizing b with
  | nil => constructor <;> simp [applyAll, itemsOf, handlersOf, localsOf, labelCount]
  | cons op ops ih =>
    have hop := op.apply_adds b
    have hops := ih (op.apply b)
    refine ⟨?_, ?_, ?_, ?_⟩
    · rw [itemsOf_cons, ← op.holes_size_apply, ← List.append_assoc, ← hop.items]
      exact hops.items
    · have hcons : handlersOf (op :: ops) = handlersOf [op] ++ handlersOf ops :=
        List.filterMap_append (l := [op])
      rw [hcons, ← List.append_assoc, ← hop.handlers]
      exact hops.handlers
    · have hcons : localsOf (op :: ops) = localsOf [op] ++ localsOf ops := List.filterMap_append (l := [op])
      rw [hcons, ← List.append_assoc, ← hop.locals]
      exact hops.locals
    · have hcons : labelCount ([op] ++ ops) = labelCount [op] + labelCount ops := List.countP_append
      rw [← List.singleton_append, hcons, ← Nat.add_assoc, ← hop.labels]
      exact hops.labels

/-- A hole that was made has its last filling in the end. -/
theorem holes_applyAll (ops : List Operation) (hb : b.holes[h]? = some code) :
    (applyAll b ops).holes[h]? = some (lastFilling h code ops) := by
  induction ops generalizing b code with
  | nil => exact hb
  | cons op ops ih =>
    have hlt : h < b.holes.size := (Array.getElem?_eq_some_iff.1 hb).1
    cases op with
    | fill h' code' =>
      refine ih (b := b.fill h' code') ?_
      by_cases heq : h' = h
      · subst heq
        simp [CodeBuffer.fill, hlt]
      · simp [CodeBuffer.fill, heq, hb]
    | hole =>
      refine ih (b := b.hole.2) ?_
      simp [CodeBuffer.hole, Array.getElem?_push, hb, Nat.ne_of_lt hlt]
    | allocSlot =>
      refine ih (b := b.allocSlot.2) ?_
      unfold CodeBuffer.allocSlot
      split <;> exact hb
    | freeSlot slot =>
      refine ih (b := b.freeSlot slot) ?_
      unfold CodeBuffer.freeSlot
      split <;> exact hb
    | _ => exact ih hb

/-- The holes among the items have the numbers from `n` on, each its own. -/
theorem holesOf_itemsOf (n : Nat) (ops : List Operation) :
    (∀ h ∈ holesOf (itemsOf n ops), n ≤ h) ∧ (holesOf (itemsOf n ops)).Nodup := by
  induction ops generalizing n with
  | nil => exact ⟨by simp [itemsOf], List.nodup_nil⟩
  | cons op ops ih =>
    cases op with
    | hole =>
      obtain ⟨hle, hnodup⟩ := ih (n + 1)
      refine ⟨fun h hh => ?_, List.nodup_cons.2 ⟨fun hmem => Nat.not_succ_le_self n (hle n hmem), hnodup⟩⟩
      rcases List.mem_cons.1 hh with rfl | hh
      · exact Nat.le_refl _
      · exact Nat.le_of_succ_le (hle h hh)
    | _ => exact ih n

theorem mem_labelsOf_itemsOf : l ∈ labelsOf (itemsOf n ops) ↔ .place l ∈ ops := by
  induction ops generalizing n with
  | nil => simp [itemsOf]
  | cons op ops ih => cases op <;> simp [itemsOf, ih]

/-- What stands in front of an operation, and what it adds itself. -/
theorem itemsOf_append (n : Nat) (front rest : List Operation) :
    itemsOf n (front ++ rest) = itemsOf n front ++ itemsOf (front.foldl Operation.holesAfter n) rest := by
  induction front generalizing n with
  | nil => rfl
  | cons op front ih =>
    rw [List.cons_append, itemsOf_cons, itemsOf_cons n op front, List.append_assoc, ih]
    rfl

/-- What operations in front stand for, and what the rest does. -/
theorem expansion_append (later : List Operation) (n : Nat) (front rest : List Operation) :
    expansion later n (front ++ rest) =
      expansion (rest ++ later) n front ++ expansion later (front.foldl Operation.holesAfter n) rest := by
  induction front generalizing n with
  | nil => rfl
  | cons op front ih =>
    cases op with
    | push i => exact congrArg (i :: ·) (ih n)
    | hole =>
      simp only [List.cons_append, expansion, ih, List.append_assoc]
      rfl
    | _ => exact ih n

/-- The items of operations come to their expansion, if the holes have what they are filled with in the end. -/
theorem flat_itemsOf {p : Blueprint}
    (hfill : ∀ h code, (applyAll b (front ++ later)).holes[h]? = some code → p.filling h = code) :
    flat p (itemsOf b.holes.size front) = expansion later b.holes.size front := by
  induction front generalizing b with
  | nil => rfl
  | cons op front ih =>
    have hrest := ih (b := op.apply b) hfill
    rw [op.holes_size_apply] at hrest
    cases op with
    | push i => exact congrArg (i :: ·) hrest
    | hole =>
      have hmade : (Operation.hole.apply b).holes[b.holes.size]? = some [] := by
        simp [Operation.apply, CodeBuffer.hole]
      have hlast := hfill _ _ (holes_applyAll (front ++ later) hmade)
      rw [itemsOf, expansion, flat, expand_hole, instructionsOf_append, instructionsOf_map, hlast]
      exact congrArg (_ ++ ·) hrest
    | _ => exact hrest

end Steps

/-! ### Finishing -/

section Finishing

variable {b : CodeBuffer} {labels : Array (Option Nat)} {l : Label} {pc room : Nat}

theorem resolve_eq_ok : resolve labels l = .ok pc ↔ (labels[l]?).join = some pc := by
  unfold resolve
  split <;> simp_all

theorem checkLabels_eq_ok {ls : List Label} :
    checkLabels labels ls = .ok () ↔ ∀ l ∈ ls, ∃ pc, resolve labels l = .ok pc := by
  refine ⟨fun h l hl => resolve_of_checkLabels h hl, fun h => ?_⟩
  induction ls with
  | nil => rfl
  | cons l ls ih =>
    obtain ⟨pc, hpc⟩ := h l List.mem_cons_self
    rw [checkLabels, hpc]
    exact ih fun l' hl' => h l' (List.mem_cons_of_mem _ hl')

theorem forall₂_of_mapM {α β : Type} {f : α → Except Error β} {xs : List α} {ys : List β} (h : xs.mapM f = .ok ys) :
    List.Forall₂ (fun x y => f x = .ok y) xs ys := by
  induction xs generalizing ys with
  | nil =>
    obtain rfl : [] = ys := Except.ok.inj h
    exact .nil
  | cons x xs ih =>
    rw [List.mapM_cons] at h
    obtain ⟨y, hy, h⟩ := bind_ok h
    obtain ⟨ys', hys, h⟩ := bind_ok h
    obtain rfl := Except.ok.inj h
    exact .cons hy (ih hys)

theorem ok_of_mapM {α β : Type} {f : α → Except Error β} {xs : List α} {ys : List β} (h : xs.mapM f = .ok ys)
    {x : α} (hx : x ∈ xs) : ∃ y, f x = .ok y := by
  have hall := forall₂_of_mapM h
  clear h
  induction hall with
  | nil => cases hx
  | cons hy hrest ih =>
    rcases List.mem_cons.1 hx with rfl | hx
    · exact ⟨_, hy⟩
    · exact ih hx

theorem exists_mapM {α β : Type} {f : α → Except Error β} {xs : List α} (h : ∀ x ∈ xs, ∃ y, f x = .ok y) :
    ∃ ys, xs.mapM f = .ok ys := by
  induction xs with
  | nil => exact ⟨[], rfl⟩
  | cons x xs ih =>
    obtain ⟨y, hy⟩ := h x List.mem_cons_self
    obtain ⟨ys, hys⟩ := ih fun x' hx' => h x' (List.mem_cons_of_mem _ hx')
    exact ⟨y :: ys, by rw [List.mapM_cons, hy, hys]; rfl⟩

/-- The labels of a handler with their positions. -/
structure Placed (position? : Label → Option Nat) (h : PendingHandler) (r : Handler) : Prop where
  first : position? h.first = some r.first
  last : position? h.last = some r.last
  target : position? h.target = some r.target
  catches : r.catches = h.catches
  stackDepth : r.stackDepth = h.stackDepth

/-- The labels of a described local with their positions. -/
structure Described (position? : Label → Option Nat) (v : PendingLocal) (r : LocalVar) : Prop where
  first : position? v.first = some r.first
  last : position? v.last = some r.last
  name : r.name = v.name
  slot : r.slot = v.slot
  ty : r.ty = v.ty

theorem resolveHandler_eq_ok {h : PendingHandler} {r : Handler} :
    resolveHandler labels h = .ok r ↔ Placed (fun l => (labels[l]?).join) h r := by
  constructor
  · intro hr
    unfold resolveHandler at hr
    obtain ⟨first, hfirst, hr⟩ := bind_ok hr
    obtain ⟨last, hlast, hr⟩ := bind_ok hr
    obtain ⟨target, htarget, hr⟩ := bind_ok hr
    obtain rfl := Except.ok.inj hr
    exact ⟨resolve_eq_ok.1 hfirst, resolve_eq_ok.1 hlast, resolve_eq_ok.1 htarget, rfl, rfl⟩
  · rintro ⟨hfirst, hlast, htarget, hcatches, hdepth⟩
    rw [resolveHandler, resolve_eq_ok.2 hfirst, resolve_eq_ok.2 hlast, resolve_eq_ok.2 htarget, ← hcatches, ← hdepth]
    rfl

theorem resolveLocal_eq_ok {v : PendingLocal} {r : LocalVar} :
    resolveLocal labels v = .ok r ↔ Described (fun l => (labels[l]?).join) v r := by
  constructor
  · intro hr
    unfold resolveLocal at hr
    obtain ⟨first, hfirst, hr⟩ := bind_ok hr
    obtain ⟨last, hlast, hr⟩ := bind_ok hr
    obtain rfl := Except.ok.inj hr
    exact ⟨resolve_eq_ok.1 hfirst, resolve_eq_ok.1 hlast, rfl, rfl, rfl⟩
  · rintro ⟨hfirst, hlast, hname, hslot, hty⟩
    rw [resolveLocal, resolve_eq_ok.2 hfirst, resolve_eq_ok.2 hlast, ← hname, ← hslot, ← hty]
    rfl

theorem finish_localVars {code : Code} (h : b.finish room = .ok code) :
    b.locals.toList.mapM (resolveLocal b.layout.labels) = .ok code.localVars := by
  unfold finish at h
  obtain ⟨⟨⟩, -, h⟩ := bind_ok h
  obtain ⟨handlers, -, h⟩ := bind_ok h
  obtain ⟨localVars, hlocals, h⟩ := bind_ok h
  obtain rfl := Except.ok.inj h
  exact hlocals

theorem exists_finish (room : Nat)
    (hbranches : ∀ i ∈ b.layout.instructions.toList, ∀ l ∈ i.targets, ∃ pc, resolve b.layout.labels l = .ok pc)
    (hhandlers : ∀ h ∈ b.handlers.toList, ∃ r, resolveHandler b.layout.labels h = .ok r)
    (hlocals : ∀ v ∈ b.locals.toList, ∃ r, resolveLocal b.layout.labels v = .ok r) :
    ∃ code, b.finish room = .ok code := by
  obtain ⟨handlers, hhandlers⟩ := exists_mapM hhandlers
  obtain ⟨localVars, hlocals⟩ := exists_mapM hlocals
  have hcheck : checkLabels b.layout.labels (b.layout.instructions.toList.flatMap Instruction.targets) = .ok () := by
    refine checkLabels_eq_ok.2 fun l hl => ?_
    obtain ⟨i, hi, hl⟩ := List.mem_flatMap.1 hl
    exact hbranches i hi l hl
  exact ⟨_, by simp only [finish, hcheck, hhandlers, hlocals]; rfl⟩

end Finishing

/-! ### The finished code -/

/-- The code that operations stand for.  A label is where it was placed last, counted in the instructions that there
are in the end. -/
structure Flattened (ops : List Operation) (code : Code) : Prop where
  instructions : code.instructions.toList = expansion [] 0 ops
  position : ∀ front l later, ops = front ++ .place l :: later → .place l ∉ later →
    code.position? l = some (expansion (.place l :: later) 0 front).length ∧
      expansion (.place l :: later) 0 front <+: code.instructions.toList
  branches : ∀ i ∈ code.instructions.toList, ∀ l ∈ i.targets, ∃ pc, code.position? l = some pc
  handlers : List.Forall₂ (Placed code.position?) (handlersOf ops) code.handlers
  locals : List.Forall₂ (Described code.position?) (localsOf ops) code.localVars

section Built

variable {ops front later : List Operation} {l : Label} {code : Code} {room : Nat}

/-- The buffer that operations build from an empty one. -/
def built (reserved : Nat) (ops : List Operation) : CodeBuffer := applyAll (withReserved reserved) ops

/-- Holes come to what they are filled with in the end. -/
def filled (b : CodeBuffer) : Blueprint where
  depthOf _ := none
  filling h := (b.holes[h]?).getD []
  sites := []
  room := 0
  locals := 0

theorem built_items (reserved : Nat) (ops : List Operation) : (built reserved ops).items.toList = itemsOf 0 ops :=
  (applyAll_adds _ ops).items

theorem built_flat (reserved : Nat) (front later : List Operation) :
    flat (filled (built reserved (front ++ later))) (itemsOf 0 front) = expansion later 0 front :=
  flat_itemsOf (b := withReserved reserved) fun h code hh => by
    change ((applyAll (withReserved reserved) (front ++ later)).holes[h]?).getD [] = code
    rw [hh]
    rfl

theorem built_instructions (reserved : Nat) (ops : List Operation) :
    (built reserved ops).layout.instructions.toList = expansion [] 0 ops := by
  have hflat := built_flat reserved ops []
  rw [List.append_nil] at hflat
  rw [layout_eq, layout_instructions (p := filled (built reserved ops)) (fun _ _ => rfl), built_items, hflat]
  · rfl
  · rw [built_items]
    exact (holesOf_itemsOf 0 ops).2

theorem built_position (reserved : Nat) (hown : OwnLabels ops) (hops : ops = front ++ .place l :: later)
    (hlast : .place l ∉ later) :
    (built reserved ops).layout.labels[l]? = some (some (expansion (.place l :: later) 0 front).length) := by
  have hitems := built_items reserved ops
  have hlt : l < (built reserved ops).labels := by
    have hcount := (applyAll_adds (withReserved reserved) ops).labels
    rw [built, hcount]
    exact Nat.lt_of_lt_of_le (hown l (by simp [hops])) (Nat.le_add_left ..)
  have hsplit : (built reserved ops).items.toList =
      itemsOf 0 front ++ .label l :: itemsOf (front.foldl Operation.holesAfter 0) later := by
    rw [hitems, hops, itemsOf_append]
    rfl
  rw [position_of_last (p := filled (built reserved ops)) (fun _ _ => rfl) (hitems ▸ (holesOf_itemsOf 0 ops).2) hsplit
    hlt (fun hmem => hlast (mem_labelsOf_itemsOf.1 hmem)), hops, built_flat]

/-- Just the labels that were placed have a position. -/
theorem built_resolves (reserved : Nat) (hown : OwnLabels ops) :
    (∃ pc, resolve (built reserved ops).layout.labels l = .ok pc) ↔ .place l ∈ ops := by
  constructor
  · rintro ⟨pc, hpc⟩
    have hmem := mem_of_resolve hpc
    rw [built_items] at hmem
    exact mem_labelsOf_itemsOf.1 hmem
  · intro hplaced
    obtain ⟨later, front, hreverse, hlast⟩ := List.eq_append_cons_of_mem (List.mem_reverse.2 hplaced)
    have hops : ops = front.reverse ++ .place l :: later.reverse := by
      rw [← List.reverse_reverse ops, hreverse]
      simp
    rw [← List.mem_reverse] at hlast
    exact ⟨_, resolve_eq_ok.2 (by rw [built_position reserved hown hops hlast]; rfl)⟩

theorem flattened_of_finish (reserved : Nat) (hown : OwnLabels ops)
    (h : (built reserved ops).finish room = .ok code) : Flattened ops code := by
  obtain ⟨hinstructions, hlabels, -, -, hcheck, hhandlers⟩ := finish_ok h
  have hlocals := forall₂_of_mapM (finish_localVars h)
  have hadds := applyAll_adds (withReserved reserved) ops
  have hhandlersOf : (built reserved ops).handlers.toList = handlersOf ops := hadds.handlers
  have hlocalsOf : (built reserved ops).locals.toList = localsOf ops := hadds.locals
  have hexpansion : code.instructions.toList = expansion [] 0 ops := by
    rw [hinstructions, built_instructions]
  have hposition : code.position? = fun l => ((built reserved ops).layout.labels[l]?).join := by
    funext l
    rw [Code.position?, hlabels]
  refine ⟨hexpansion, fun front l later hops hlast => ⟨?_, ?_⟩, fun i hi l hl => ?_, ?_, ?_⟩
  · rw [Code.position?, hlabels, built_position reserved hown hops hlast]
    rfl
  · rw [hexpansion, hops, expansion_append, List.append_nil]
    exact List.prefix_append ..
  · rw [hinstructions] at hi
    obtain ⟨pc, hpc⟩ := resolve_of_checkLabels hcheck (List.mem_flatMap.2 ⟨i, hi, hl⟩)
    exact ⟨pc, by rw [hposition]; exact resolve_eq_ok.1 hpc⟩
  · rw [← hhandlersOf, hposition]
    exact (forall₂_of_mapM hhandlers).imp fun _ _ => resolveHandler_eq_ok.1
  · rw [← hlocalsOf, hposition]
    exact hlocals.imp fun _ _ => resolveLocal_eq_ok.1

/-- Every label that is named has a position if the code can be finished, and only then. -/
theorem exists_finish_iff (reserved room : Nat) (hown : OwnLabels ops) :
    (∃ code, (built reserved ops).finish room = .ok code) ↔ ∀ l, Uses ops l → .place l ∈ ops := by
  have hadds := applyAll_adds (withReserved reserved) ops
  have hhandlersOf : (built reserved ops).handlers.toList = handlersOf ops := hadds.handlers
  have hlocalsOf : (built reserved ops).locals.toList = localsOf ops := hadds.locals
  constructor
  · rintro ⟨code, hcode⟩ l huses
    obtain ⟨hinstructions, -, -, -, hcheck, hhandlers⟩ := finish_ok hcode
    refine (built_resolves reserved hown).1 ?_
    rcases huses with ⟨i, hi, hl⟩ | ⟨h, hh, hl⟩ | ⟨v, hv, hl⟩
    · rw [← built_instructions reserved] at hi
      exact resolve_of_checkLabels hcheck (List.mem_flatMap.2 ⟨i, hi, hl⟩)
    · rw [← hhandlersOf] at hh
      obtain ⟨r, hr⟩ := ok_of_mapM hhandlers hh
      obtain ⟨hfirst, hlast, htarget, -, -⟩ := resolveHandler_eq_ok.1 hr
      rcases hl with rfl | rfl | rfl
      · exact ⟨_, resolve_eq_ok.2 hfirst⟩
      · exact ⟨_, resolve_eq_ok.2 hlast⟩
      · exact ⟨_, resolve_eq_ok.2 htarget⟩
    · rw [← hlocalsOf] at hv
      obtain ⟨r, hr⟩ := ok_of_mapM (finish_localVars hcode) hv
      obtain ⟨hfirst, hlast, -, -, -⟩ := resolveLocal_eq_ok.1 hr
      rcases hl with rfl | rfl
      · exact ⟨_, resolve_eq_ok.2 hfirst⟩
      · exact ⟨_, resolve_eq_ok.2 hlast⟩
  · intro hplaced
    have hresolve := fun l (hl : Uses ops l) => (built_resolves reserved hown).2 (hplaced l hl)
    refine exists_finish room (fun i hi l hl => ?_) (fun h hh => ?_) (fun v hv => ?_)
    · rw [built_instructions] at hi
      exact hresolve l (.inl ⟨i, hi, hl⟩)
    · rw [hhandlersOf] at hh
      have hlabel := fun l hl => hresolve l (.inr (.inl ⟨h, hh, hl⟩))
      obtain ⟨first, hfirst⟩ := hlabel h.first (.inl rfl)
      obtain ⟨last, hlast⟩ := hlabel h.last (.inr (.inl rfl))
      obtain ⟨target, htarget⟩ := hlabel h.target (.inr (.inr rfl))
      exact ⟨⟨first, last, target, h.catches, h.stackDepth⟩, resolveHandler_eq_ok.2
        ⟨resolve_eq_ok.1 hfirst, resolve_eq_ok.1 hlast, resolve_eq_ok.1 htarget, rfl, rfl⟩⟩
    · rw [hlocalsOf] at hv
      have hlabel := fun l hl => hresolve l (.inr (.inr ⟨v, hv, hl⟩))
      obtain ⟨first, hfirst⟩ := hlabel v.first (.inl rfl)
      obtain ⟨last, hlast⟩ := hlabel v.last (.inr rfl)
      exact ⟨⟨v.name, v.slot, v.ty, first, last⟩, resolveLocal_eq_ok.2
        ⟨resolve_eq_ok.1 hfirst, resolve_eq_ok.1 hlast, rfl, rfl, rfl⟩⟩

/-- Code that was put together by operations comes out as they say, unless a label that a branch, a handler or a
described local names was never placed; then there is none. -/
theorem finish_flattens (reserved room : Nat) (ops : List Operation) (hown : OwnLabels ops) :
    (∀ code, (built reserved ops).finish room = .ok code → Flattened ops code) ∧
    ((∃ e, (built reserved ops).finish room = .error e) ↔ ∃ l, Uses ops l ∧ .place l ∉ ops) := by
  refine ⟨fun code h => flattened_of_finish reserved hown h, ?_⟩
  have hiff := exists_finish_iff reserved room hown
  cases hfinish : (built reserved ops).finish room with
  | ok code =>
    have hplaced := hiff.1 ⟨code, hfinish⟩
    refine ⟨fun hfails => ?_, fun hmissing => ?_⟩
    · obtain ⟨e, he⟩ := hfails
      cases he
    · obtain ⟨l, huses, hmissing⟩ := hmissing
      exact absurd (hplaced l huses) hmissing
  | error e =>
    refine ⟨fun _ => ?_, fun _ => ⟨e, rfl⟩⟩
    by_contra hall
    obtain ⟨code, hcode⟩ := hiff.2 fun l huses => by
      by_contra hmissing
      exact hall ⟨l, huses, hmissing⟩
    cases hfinish.symm.trans hcode

end Built

/-- A hole that is filled once the label behind it and a handler with that label are there. -/
def filledLate : List Operation :=
  [.newLabel, .place 0, .push (.const (.long 1)), .hole, .newLabel, .place 1, .addHandler ⟨0, 1, 1, none, 0⟩,
    .push (.ret .any), .fill 0 [.pop, .goto 1], .fill 0 [.box .long]]

theorem finish_filledLate : OwnLabels filledLate ∧
    ∃ code, (built 0 filledLate).finish 2 = .ok code ∧ Flattened filledLate code ∧ code.position? 1 = some 2 := by
  have hown : OwnLabels filledLate := by
    intro l hl
    have hl : l = 0 ∨ l = 1 := by simpa [filledLate] using hl
    rcases hl with rfl | rfl <;> decide
  obtain ⟨hflattened, -⟩ := finish_flattens 0 2 filledLate hown
  exact ⟨hown, _, rfl, hflattened _ rfl, rfl⟩

end LispMachine.CodeBuffer
