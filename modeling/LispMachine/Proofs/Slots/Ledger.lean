import LispMachine.Proofs.Emission.Flattening
import LispMachine.Proofs.Emission.Segments
import LispMachine.Proofs.Emission.View

/-! # Slots in use

While a method is compiled, slots are in use by its receiver and its parameters, by the bindings of the scopes that are
open in it, and by the temporaries of the forms around the one at work (`Holding`).  Code under construction keeps a log
of the slots that were given out and given back, and says so when.  `users` reads off the log which slots are in use,
and the log is `Orderly` if a slot is given back by a user only, and by neither the receiver nor a parameter: then at
every point of it each slot has one user or is free, and what is given out next is no slot in use (`Orderly.apart`).

`Account` says of code that its log is orderly, that its users are the given ones, and that each instruction names a
slot that was in use when it was emitted.  Whatever is done to the code keeps its account: one lemma for each
operation. -/

namespace LispMachine

namespace CodeBuffer.Transfer

/-- The slot that changes hands. -/
def slot : Transfer → Nat
  | .taken n _ => n
  | .given n _ => n

/-- How many items the code had then. -/
def position : Transfer → Nat
  | .taken _ p => p
  | .given _ p => p

end CodeBuffer.Transfer

namespace Slots

open CodeBuffer (Operation Transfer)
open Emission (freeAll)

/-! ### What uses slots -/

/-- The slots that bindings are in. -/
def localSlots (bindings : List Binding) : List Nat :=
  bindings.filterMap fun b =>
    match b.slot with
    | .local n => some n
    | _ => none

theorem localSlots_cons (b : Binding) (bindings : List Binding) :
    localSlots (b :: bindings) = localSlots [b] ++ localSlots bindings :=
  List.filterMap_append (l := [b])

theorem localSlots_reverse (bindings : List Binding) : localSlots bindings.reverse = (localSlots bindings).reverse :=
  List.filterMap_reverse

/-- What uses the slots of a method besides its receiver. -/
structure Holding where
  /-- The scopes open in the method, the innermost first. -/
  frames : List ScopeFrame
  /-- Slots of no binding of an open scope: parameters, and temporaries, the latest first. -/
  held : List Nat

/-- The slots in use; the first ones are the receiver's. -/
def Holding.live (C : Holding) (first : Nat) : List Nat :=
  List.range first ++ (C.frames.flatMap (fun f => localSlots f.bindings) ++ C.held)

section Live

variable {f : ScopeFrame} {frames : List ScopeFrame} {held : List Nat}

/-- What is held for a binding is used by it once it is made. -/
theorem live_bind (b : Binding) (first : Nat) :
    ((Holding.mk (f :: frames) (localSlots [b] ++ held)).live first).Perm
      ((Holding.mk ({ f with bindings := b :: f.bindings } :: frames) held).live first) := by
  refine List.perm_iff_count.2 fun n => ?_
  simp only [Holding.live, List.flatMap_cons, localSlots_cons b f.bindings, List.count_append]
  omega

/-- What bindings use can be held without them. -/
theorem live_close (f : ScopeFrame) (first : Nat) :
    ((Holding.mk (f :: frames) held).live first).Perm
      ((Holding.mk frames (localSlots f.bindings ++ held)).live first) := by
  refine List.perm_iff_count.2 fun n => ?_
  simp only [Holding.live, List.flatMap_cons, List.count_append]
  omega

/-- The slot held last is one user more. -/
theorem live_held (frames : List ScopeFrame) (n : Nat) (held : List Nat) (first : Nat) :
    ((Holding.mk frames (n :: held)).live first).Perm (n :: (Holding.mk frames held).live first) := by
  refine List.perm_iff_count.2 fun m => ?_
  simp only [Holding.live, List.count_append, List.count_cons]
  omega

end Live

/-! ### Slots apart -/

section Apart

variable {code code' : CodeBuffer} {live live' : List Nat} {n : Nat}

/-- Every slot that there is has one user or is free. -/
def Apart (code : CodeBuffer) (live : List Nat) : Prop := (live ++ code.freeSlots).Perm (List.range code.nextSlot)

namespace Apart

theorem nodup (h : Apart code live) : (live ++ code.freeSlots).Nodup := h.nodup_iff.2 List.nodup_range

theorem lt (h : Apart code live) (hn : n ∈ live) : n < code.nextSlot :=
  List.mem_range.1 (h.mem_iff.1 (List.mem_append_left _ hn))

theorem taken (h : Apart code live) (hn : n ∈ live) : n ∉ code.freeSlots :=
  fun hfree => (List.nodup_append.1 h.nodup).2.2 n hn n hfree rfl

theorem perm (h : Apart code live) (hperm : live.Perm live') : Apart code live' :=
  (hperm.append_right _).symm.trans h

/-- What is given out is no slot in use. -/
theorem fresh (h : Apart code live) : code.allocSlot.1 ∉ live := by
  unfold CodeBuffer.allocSlot
  split
  · rename_i slot rest hfree
    exact fun hmem => h.taken hmem (hfree ▸ List.mem_cons_self)
  · exact fun hmem => Nat.lt_irrefl _ (h.lt hmem)

theorem allocSlot (h : Apart code live) : Apart code.allocSlot.2 (code.allocSlot.1 :: live) := by
  unfold CodeBuffer.allocSlot
  split
  · rename_i slot rest hfree
    rw [Apart, hfree] at h
    exact List.perm_middle.symm.trans h
  · rename_i hfree
    rw [Apart, hfree] at h
    rw [Apart, hfree, List.range_succ]
    exact (h.cons _).trans (List.perm_append_singleton _ _).symm

/-- A slot in use that is given back was not free. -/
theorem freeSlot (h : Apart code (n :: live)) : Apart (code.freeSlot n) live := by
  have hfree : n ∉ code.freeSlots := h.taken List.mem_cons_self
  rw [CodeBuffer.freeSlot, if_neg (by simpa using hfree)]
  exact List.perm_middle.trans h

end Apart

end Apart

/-! ### The log -/

section Log

variable {reserved : Nat} {log past : List Transfer}

/-- The slots in use behind some transfers, the latest of which comes first.  The reserved ones are from the start. -/
def users (reserved : Nat) : List Transfer → List Nat
  | [] => List.range reserved
  | .taken n _ :: past => n :: users reserved past
  | .given n _ :: past => (users reserved past).erase n

/-- A buffer that gave out slots and got them back so. -/
def replay (reserved : Nat) : List Transfer → CodeBuffer
  | [] => .withReserved reserved
  | .taken _ _ :: past => (replay reserved past).allocSlot.2
  | .given n _ :: past => (replay reserved past).freeSlot n

/-- What is taken is what the buffer gave out, and what is given back was in use and not reserved. -/
inductive Orderly (reserved : Nat) : List Transfer → Prop where
  | start : Orderly reserved []
  | taken {past : List Transfer} {n position : Nat} (orderly : Orderly reserved past)
      (out : n = (replay reserved past).allocSlot.1) : Orderly reserved (.taken n position :: past)
  | given {past : List Transfer} {n position : Nat} (orderly : Orderly reserved past)
      (user : n ∈ users reserved past) (unreserved : reserved ≤ n) : Orderly reserved (.given n position :: past)

/-- Behind orderly transfers every slot has one user or is free. -/
theorem Orderly.apart (h : Orderly reserved log) : Apart (replay reserved log) (users reserved log) := by
  induction h with
  | start => exact List.Perm.of_eq (List.append_nil _)
  | taken _ hout ih =>
    rw [hout]
    exact ih.allocSlot
  | given _ huser _ ih => exact (ih.perm (List.perm_cons_erase huser)).freeSlot

/-- The reserved slots stay in use. -/
theorem Orderly.stays (h : Orderly reserved log) {n : Nat} (hn : n < reserved) : n ∈ users reserved log := by
  induction h with
  | start => exact List.mem_range.2 hn
  | taken _ _ ih => exact List.mem_cons_of_mem _ ih
  | given _ _ hunreserved ih => exact (List.mem_erase_of_ne (by omega)).2 ih

theorem Orderly.suffix (h : Orderly reserved log) (hpast : past <:+ log) : Orderly reserved past := by
  induction h with
  | start => exact List.suffix_nil.1 hpast ▸ .start
  | @taken front n position horderly hout ih =>
    rcases List.suffix_cons_iff.1 hpast with rfl | hpast
    · exact .taken horderly hout
    · exact ih hpast
  | @given front n position horderly huser hunreserved ih =>
    rcases List.suffix_cons_iff.1 hpast with rfl | hpast
    · exact .given horderly huser hunreserved
    · exact ih hpast

end Log

/-! ### What is done with slots -/

section Pools

variable {code code' : CodeBuffer}

/-- The same slots are there, and the same of them are free. -/
structure SamePool (code code' : CodeBuffer) : Prop where
  next : code.nextSlot = code'.nextSlot
  free : code.freeSlots = code'.freeSlots

theorem SamePool.allocSlot (h : SamePool code code') :
    code.allocSlot.1 = code'.allocSlot.1 ∧ SamePool code.allocSlot.2 code'.allocSlot.2 := by
  obtain ⟨hnext, hfree⟩ := h
  simp only [CodeBuffer.allocSlot, hfree]
  split
  · exact ⟨rfl, hnext, rfl⟩
  · exact ⟨hnext, congrArg (· + 1) hnext, rfl⟩

theorem SamePool.freeSlot (h : SamePool code code') (n : Nat) : SamePool (code.freeSlot n) (code'.freeSlot n) := by
  obtain ⟨hnext, hfree⟩ := h
  simp only [CodeBuffer.freeSlot, hfree]
  split <;> exact ⟨hnext, rfl⟩

theorem transfers_allocSlot (code : CodeBuffer) :
    code.allocSlot.2.transfers = .taken code.allocSlot.1 code.items.size :: code.transfers := by
  unfold CodeBuffer.allocSlot
  split <;> rfl

theorem transfers_freeSlot (code : CodeBuffer) (n : Nat) :
    (code.freeSlot n).transfers = .given n code.items.size :: code.transfers := by
  unfold CodeBuffer.freeSlot
  split <;> rfl

theorem nextSlot_le_allocSlot (code : CodeBuffer) : code.nextSlot ≤ code.allocSlot.2.nextSlot := by
  unfold CodeBuffer.allocSlot
  split
  · exact Nat.le_refl _
  · exact Nat.le_succ _

end Pools

/-! ### Slots that code names -/

/-- Slots that an operation on the code names. -/
def namedSlots : Operation → List Nat
  | .push i => i.slot?.toList
  | .fill _ code => code.filterMap Instruction.slot?
  | .describeLocal v => [v.slot]
  | _ => []

/-- The operation leaves the slots to others. -/
def Emits : Operation → Prop
  | .allocSlot => False
  | .freeSlot _ => False
  | .fill _ code => ∀ i ∈ code, i.slot? = none
  | _ => True

section Named

variable {reserved : Nat} {code code' : CodeBuffer} {item : CodeBuffer.Item}

/-- Each instruction names a slot that was in use when it was emitted. -/
def Named (reserved : Nat) (code : CodeBuffer) : Prop :=
  ∀ (j : Nat) (i : Instruction) (n : Nat), code.items[j]? = some (.instruction i) → i.slot? = some n →
    n ∈ users reserved (code.transfers.filter fun x => x.position ≤ j)

theorem Named.same (h : Named reserved code) (hitems : code'.items = code.items)
    (hlog : code'.transfers = code.transfers) : Named reserved code' := by
  rw [Named, hitems, hlog]
  exact h

/-- What changes hands now was in other hands before. -/
theorem Named.transfer (h : Named reserved code) (hitems : code'.items = code.items) {x : Transfer}
    (hposition : x.position = code.items.size) (hlog : code'.transfers = x :: code.transfers) :
    Named reserved code' := by
  intro j i n hj hn
  rw [hitems] at hj
  have hlt : j < code.items.size := (Array.getElem?_eq_some_iff.1 hj).1
  have hlater : ¬ x.position ≤ j := by omega
  rw [hlog, List.filter_cons_of_neg (by simpa using hlater)]
  exact h j i n hj hn

/-- An instruction may name what is in use now. -/
theorem Named.push (h : Named reserved code) (hplaced : ∀ x ∈ code.transfers, x.position ≤ code.items.size)
    (hitems : code'.items = code.items.push item) (hlog : code'.transfers = code.transfers)
    (hitem : ∀ i n, item = .instruction i → i.slot? = some n → n ∈ users reserved code.transfers) :
    Named reserved code' := by
  intro j i n hj hn
  rw [hitems, Array.getElem?_push] at hj
  rw [hlog]
  split at hj
  · rename_i hend
    rw [hend, List.filter_eq_self.2 fun x hx => by simpa using hplaced x hx]
    exact hitem i n (Option.some.inj hj) hn
  · exact h j i n hj hn

/-- Everything else in the code names slots that there are, and what holes are filled with names none. -/
structure Within (code : CodeBuffer) : Prop where
  items : ∀ i n, .instruction i ∈ code.items.toList → i.slot? = some n → n < code.nextSlot
  holes : ∀ filling ∈ code.holes.toList, ∀ i ∈ filling, i.slot? = none
  locals : ∀ v ∈ code.locals.toList, v.slot < code.nextSlot

/-- More slots do no harm. -/
theorem Within.same (h : Within code) (hitems : code'.items = code.items) (hholes : code'.holes = code.holes)
    (hlocals : code'.locals = code.locals) (hnext : code.nextSlot ≤ code'.nextSlot) : Within code' := by
  obtain ⟨hitem, hhole, hlocal⟩ := h
  rw [← hitems] at hitem
  rw [← hholes] at hhole
  rw [← hlocals] at hlocal
  exact ⟨fun i n hi hn => Nat.lt_of_lt_of_le (hitem i n hi hn) hnext, hhole,
    fun v hv => Nat.lt_of_lt_of_le (hlocal v hv) hnext⟩

theorem Within.allocSlot (h : Within code) : Within code.allocSlot.2 := by
  have hnext := nextSlot_le_allocSlot code
  unfold CodeBuffer.allocSlot at hnext ⊢
  split at hnext <;> exact h.same rfl rfl rfl hnext

theorem Within.freeSlot (h : Within code) (n : Nat) : Within (code.freeSlot n) := by
  unfold CodeBuffer.freeSlot
  split <;> exact h.same rfl rfl rfl (Nat.le_refl _)

theorem instruction_mem_push {items : Array CodeBuffer.Item} {i : Instruction}
    (h : .instruction i ∈ (items.push item).toList) : .instruction i ∈ items.toList ∨ item = .instruction i := by
  rw [Array.toList_push] at h
  exact (List.mem_append.1 h).imp_right fun h => (List.mem_singleton.1 h).symm

theorem Within.apply (h : Within code) (op : Operation) (hemits : Emits op)
    (hslots : ∀ n ∈ namedSlots op, n < code.nextSlot) : Within (op.apply code) := by
  cases op with
  | allocSlot => exact hemits.elim
  | freeSlot slot => exact hemits.elim
  | push i =>
    refine { h with items := fun i' n hi' hn => ?_ }
    rcases instruction_mem_push hi' with hi' | hi'
    · exact h.items i' n hi' hn
    · cases hi'
      exact hslots n (by simp [namedSlots, hn])
  | place l =>
    exact { h with items := fun i' n hi' hn => h.items i' n ((instruction_mem_push hi').resolve_right nofun) hn }
  | hole =>
    refine { h with
      items := fun i' n hi' hn => h.items i' n ((instruction_mem_push hi').resolve_right nofun) hn
      holes := fun filling hf i hi => ?_ }
    have hholes : code.hole.2.holes.toList = code.holes.toList ++ [[]] := Array.toList_push
    rcases List.mem_append.1 (hholes ▸ hf) with hf | hf
    · exact h.holes filling hf i hi
    · obtain rfl := List.mem_singleton.1 hf
      cases hi
  | fill hole filling =>
    refine { h with holes := fun filling' hf i hi => ?_ }
    have hholes : (code.fill hole filling).holes.toList = code.holes.toList.set hole filling :=
      Array.toList_setIfInBounds
    rcases List.mem_or_eq_of_mem_set (hholes ▸ hf) with hf | rfl
    · exact h.holes filling' hf i hi
    · exact hemits i hi
  | describeLocal v =>
    refine { h with locals := fun v' hv' => ?_ }
    have hlocals : (Operation.describeLocal v).apply code = { code with locals := code.locals.push v } := rfl
    rw [hlocals, Array.toList_push] at hv'
    rcases List.mem_append.1 hv' with hv' | hv'
    · exact h.locals v' hv'
    · obtain rfl := List.mem_singleton.1 hv'
      exact hslots _ (List.mem_singleton_self _)
  | _ => exact h.same rfl rfl rfl (Nat.le_refl _)

end Named

/-! ### Accounts -/

section Accounts

variable {reserved n : Nat} {live live' kept : List Nat} {code code' code'' : CodeBuffer}

/-- The log of the code is orderly and tells its users, and whatever the code names was in use. -/
structure Account (reserved : Nat) (live : List Nat) (code : CodeBuffer) : Prop where
  orderly : Orderly reserved code.transfers
  pool : SamePool (replay reserved code.transfers) code
  users : (users reserved code.transfers).Perm live
  placed : ∀ x ∈ code.transfers, x.position ≤ code.items.size
  named : Named reserved code
  within : Within code

/-- The code has gone on, and the slots that are kept have stayed where they were. -/
structure Extends (kept : List Nat) (code code' : CodeBuffer) : Prop where
  log : ∃ new, code'.transfers = new ++ code.transfers ∧ ∀ x ∈ new, x.slot ∉ kept
  items : code.items.toList <+: code'.items.toList

theorem Extends.refl (kept : List Nat) (code : CodeBuffer) : Extends kept code code :=
  ⟨⟨[], rfl, nofun⟩, List.prefix_refl _⟩

theorem Extends.trans (h : Extends kept code code') (h' : Extends kept code' code'') : Extends kept code code'' := by
  obtain ⟨new, hnew, hslots⟩ := h.log
  obtain ⟨new', hnew', hslots'⟩ := h'.log
  refine ⟨⟨new' ++ new, by rw [hnew', hnew, List.append_assoc], fun x hx => ?_⟩, h.items.trans h'.items⟩
  exact (List.mem_append.1 hx).elim (hslots' x) (hslots x)

theorem Extends.transfer {x : Transfer} (hlog : code'.transfers = x :: code.transfers) (hslot : x.slot ∉ kept)
    (hitems : code'.items = code.items) : Extends kept code code' :=
  ⟨⟨[x], hlog, fun _ hy => List.mem_singleton.1 hy ▸ hslot⟩, hitems ▸ List.prefix_refl _⟩

/-- An operation that leaves the slots to others adds to the code at most. -/
theorem apply_slots (op : Operation) (hemits : Emits op) (code : CodeBuffer) :
    (op.apply code).nextSlot = code.nextSlot ∧ (op.apply code).freeSlots = code.freeSlots ∧
      (op.apply code).transfers = code.transfers := by
  cases op with
  | allocSlot => exact hemits.elim
  | freeSlot slot => exact hemits.elim
  | _ => exact ⟨rfl, rfl, rfl⟩

theorem Extends.apply (kept : List Nat) (code : CodeBuffer) (op : Operation) (hemits : Emits op) :
    Extends kept code (op.apply code) :=
  ⟨⟨[], (apply_slots op hemits code).2.2, nofun⟩,
    (CodeBuffer.Operation.apply_adds code op).items ▸ List.prefix_append _ _⟩

namespace Account

theorem apart (h : Account reserved live code) : Apart code live := by
  have hreplay := h.orderly.apart.perm h.users
  rw [Apart, h.pool.next, h.pool.free] at hreplay
  exact hreplay

theorem nodup (h : Account reserved live code) : live.Nodup := (List.nodup_append.1 h.apart.nodup).1

theorem perm (h : Account reserved live code) (hperm : live.Perm live') : Account reserved live' code :=
  { h with users := h.users.trans hperm }

/-- An operation that names users keeps the account. -/
theorem apply (h : Account reserved live code) (op : Operation) (hemits : Emits op)
    (hslots : ∀ n ∈ namedSlots op, n ∈ live) : Account reserved live (op.apply code) := by
  obtain ⟨hnext, hfree, hlog⟩ := apply_slots op hemits code
  have hitems : code.items.size ≤ (op.apply code).items.size := by
    have hlength := (Extends.apply [] code op hemits).items.length_le
    simpa using hlength
  refine ⟨hlog ▸ h.orderly, ?_, hlog ▸ h.users, ?_, ?_, h.within.apply op hemits fun n hn => h.apart.lt (hslots n hn)⟩
  · rw [hlog]
    exact ⟨h.pool.next.trans hnext.symm, h.pool.free.trans hfree.symm⟩
  · rw [hlog]
    exact fun x hx => Nat.le_trans (h.placed x hx) hitems
  · cases op with
    | allocSlot => exact hemits.elim
    | freeSlot slot => exact hemits.elim
    | push i =>
      refine h.named.push h.placed rfl rfl fun i' n hi hn => ?_
      cases hi
      exact h.users.mem_iff.2 (hslots n (Option.mem_toList.2 hn))
    | place l => exact h.named.push h.placed rfl rfl nofun
    | hole => exact h.named.push h.placed rfl rfl nofun
    | _ => exact h.named.same rfl rfl

/-- A slot is given out that nobody used, and has a user from then on. -/
theorem take (h : Account reserved live code) : Account reserved (code.allocSlot.1 :: live) code.allocSlot.2 := by
  have hlog := transfers_allocSlot code
  have hitems := Emission.allocSlot_items code
  obtain ⟨hout, hpool⟩ := h.pool.allocSlot
  refine ⟨hlog ▸ .taken h.orderly hout.symm, hlog ▸ hpool, hlog ▸ h.users.cons _, ?_, h.named.transfer hitems rfl hlog,
    h.within.allocSlot⟩
  rw [hlog, hitems]
  exact List.forall_mem_cons.2 ⟨Nat.le_refl _, h.placed⟩

/-- A slot that is not reserved can be given back by its user. -/
theorem give (h : Account reserved (n :: live) code) (hn : reserved ≤ n) :
    Account reserved live (code.freeSlot n) := by
  have hlog := transfers_freeSlot code n
  have hitems := Emission.freeSlot_items code n
  have huser : n ∈ Slots.users reserved code.transfers := h.users.mem_iff.2 List.mem_cons_self
  refine ⟨hlog ▸ .given h.orderly huser hn, hlog ▸ h.pool.freeSlot n, ?_, ?_, h.named.transfer hitems rfl hlog,
    h.within.freeSlot n⟩
  · rw [hlog, ← List.erase_cons_head n live]
    exact h.users.erase n
  · rw [hlog, hitems]
    exact List.forall_mem_cons.2 ⟨Nat.le_refl _, h.placed⟩

/-- Bindings that are in slots of their own give all of them back. -/
theorem freeAll {bindings : List Binding} (h : Account reserved (localSlots bindings ++ live) code)
    (hreserved : ∀ n < reserved, n ∈ kept) (hkept : ∀ n ∈ kept, n ∈ live) :
    Account reserved live (Emission.freeAll code bindings) ∧
      Extends kept code (Emission.freeAll code bindings) := by
  induction bindings generalizing code with
  | nil => exact ⟨h, .refl kept code⟩
  | cons b bindings ih =>
    have hstep : Emission.freeAll code (b :: bindings) = Emission.freeAll
        (match b.slot with
          | .local slot => code.freeSlot slot
          | _ => code) bindings := rfl
    rw [hstep]
    cases hslot : b.slot with
    | «local» n =>
      rw [localSlots, List.filterMap_cons, hslot] at h
      have hother : n ∉ kept := fun hn =>
        (List.nodup_cons.1 h.nodup).1 (List.mem_append_right _ (hkept n hn))
      have hgiven := h.give (Nat.le_of_not_lt fun hn => hother (hreserved n hn))
      obtain ⟨haccount, hextends⟩ := ih hgiven
      exact ⟨haccount, (Extends.transfer (transfers_freeSlot code n) hother
        (Emission.freeSlot_items code n)).trans hextends⟩
    | _ =>
      rw [localSlots, List.filterMap_cons, hslot] at h
      exact ih h

end Account

end Accounts

/-! ### The finished code -/

section Finished

variable {room : Nat} {b : CodeBuffer} {code : Code}

/-- What is laid out was an item or filled a hole. -/
theorem mem_layout {items : List CodeBuffer.Item} {out : CodeBuffer.Layout} {P : Instruction → Prop}
    (hout : ∀ i ∈ out.instructions.toList, P i) (hitems : ∀ i, .instruction i ∈ items → P i)
    (hholes : ∀ filling ∈ out.holes.toList, ∀ i ∈ filling, P i) :
    ∀ i ∈ (items.foldl CodeBuffer.Layout.add out).instructions.toList, P i := by
  induction items generalizing out with
  | nil => exact hout
  | cons item items ih =>
    have hrest := fun i hi => hitems i (List.mem_cons_of_mem _ hi)
    cases item with
    | instruction i =>
      refine ih (fun i' hi' => ?_) hrest hholes
      rcases List.mem_append.1 (Array.toList_push ▸ hi' : i' ∈ out.instructions.toList ++ [i]) with hi' | hi'
      · exact hout i' hi'
      · exact List.mem_singleton.1 hi' ▸ hitems i List.mem_cons_self
    | label l => exact ih hout hrest hholes
    | hole h =>
      have hfilling : ∀ i ∈ out.holes[h]?.getD [], P i := by
        cases hhole : out.holes[h]? with
        | none => simp
        | some filling => exact hholes filling (Array.mem_toList_iff.2 (Array.mem_of_getElem? hhole))
      refine ih (fun i hi => ?_) hrest fun filling hf i hi => ?_
      · have hadd : (CodeBuffer.Layout.add out (.hole h)).instructions.toList
            = out.instructions.toList ++ out.holes[h]?.getD [] := by
          simp [CodeBuffer.Layout.add]
        rcases List.mem_append.1 (hadd ▸ hi) with hi | hi
        · exact hout i hi
        · exact hfilling i hi
      · have hset : (CodeBuffer.Layout.add out (.hole h)).holes.toList = out.holes.toList.set h [] :=
          Array.toList_setIfInBounds
        rcases List.mem_or_eq_of_mem_set (hset ▸ hf) with hf | rfl
        · exact hholes filling hf i hi
        · cases hi

/-- Finished code names none but the slots it says it has. -/
theorem Within.finished (h : Within b) (hfinish : b.finish room = .ok code) :
    (∀ i ∈ code.instructions.toList, ∀ n, i.slot? = some n → n < code.maxLocals) ∧
      ∀ v ∈ code.localVars, v.slot < code.maxLocals := by
  obtain ⟨hinstructions, -, -, hmax, -, -⟩ := Emission.finish_ok hfinish
  rw [hmax, hinstructions, Emission.layout_eq]
  refine ⟨mem_layout (by simp) (fun i hi n hn => h.items i n hi hn) fun filling hf i hi n hn => ?_, fun v hv => ?_⟩
  · cases (h.holes filling hf i hi).symm.trans hn
  · obtain ⟨pending, hpending, hresolve⟩ := Emission.exists_of_mapM_ok (CodeBuffer.finish_localVars hfinish) hv
    rw [(CodeBuffer.resolveLocal_eq_ok.1 hresolve).slot]
    exact h.locals pending hpending

end Finished

end Slots

end LispMachine
