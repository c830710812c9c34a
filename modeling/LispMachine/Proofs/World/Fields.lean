import LispMachine.Proofs.Machine.Onward

/-! # The fields of an object

An object has a slot for every name in the layout of the class it was made from; of names that stand there twice the
last one counts.  Writing a field changes what is read under its name and under no other (`Made.setField_ok`), whatever
the names are, and so does a row of such writes (`Made.storeFields_ok`).  Code that runs in between keeps the object
what it is (`Made.course`). -/

namespace LispMachine

namespace ClassInfo

variable {c : ClassInfo} {field other : String} {slot : Nat}

theorem slot?_isSome (c : ClassInfo) (field : String) : (c.slot? field).isSome = true ↔ field ∈ c.layout := by
  simp [slot?, List.findIdx?_isSome]

theorem layout_of_slot? (h : c.slot? field = some slot) : c.layout[slot]? = some field := by
  obtain ⟨i, hi, rfl⟩ := Option.map_eq_some_iff.1 h
  obtain ⟨hlt, hname, -⟩ := List.findIdx?_eq_some_iff_getElem.1 hi
  rw [List.getElem_reverse, beq_iff_eq] at hname
  exact List.getElem?_eq_some_iff.2 ⟨_, hname⟩

/-- A slot belongs to one name. -/
theorem slot?_inj (h : c.slot? field = some slot) (h' : c.slot? other = some slot) : field = other :=
  Option.some.inj ((layout_of_slot? h).symm.trans (layout_of_slot? h'))

theorem slot_lt (h : c.slot? field = some slot) : slot < c.layout.length :=
  (List.getElem?_eq_some_iff.1 (layout_of_slot? h)).1

end ClassInfo

namespace World

/-- The object was made from the class, and has a value in every slot. -/
def Made (w : World) (o : ObjectRef) (c : ClassInfo) : Prop :=
  ∃ i, w.instance? o = some i ∧ i.cls = c ∧ i.fields.size = c.layout.length

variable {w w' : World} {o : ObjectRef} {c : ClassInfo} {field : String} {v : Value} {u : Unit}

theorem made_allocate (w : World) (c : ClassInfo) : (w.allocate c).2.Made (w.allocate c).1 c :=
  ⟨{ cls := c, fields := Array.replicate c.layout.length .nil }, by simp [instance?, allocate], rfl, by simp⟩

namespace Made

theorem slotOf (h : w.Made o c) (field : String) :
    w.slotOf o field = match c.slot? field with
      | some slot => .ok slot
      | none => .error (noField field o.className) := by
  obtain ⟨i, hi, rfl, -⟩ := h
  rw [World.slotOf, hi]
  rfl

/-- The name is in the layout if its slot is written. -/
theorem slot?_of_slotOf (h : w.Made o c) {slot : Nat} (hslot : w.slotOf o field = .ok slot) :
    c.slot? field = some slot := by
  rw [h.slotOf] at hslot
  split at hslot
  · cases hslot
    assumption
  · cases hslot

theorem storeSlot (h : w.Made o c) (o' : ObjectRef) (slot : Nat) (v : Value) : (w.storeSlot o' slot v).Made o c := by
  obtain ⟨i, hi, hcls, hsize⟩ := h
  rw [instance?] at hi
  by_cases hid : o'.id = o.id
  · refine ⟨{ i with fields := i.fields.setIfInBounds slot v }, ?_, hcls, by simpa using hsize⟩
    simp [instance?, World.storeSlot, Array.getElem?_modify, hid, hi]
  · exact ⟨i, by simp [instance?, World.storeSlot, Array.getElem?_modify, hid, hi], hcls, hsize⟩

/-- Writing a slot changes what is read under its name and no other. -/
theorem getField_storeSlot (h : w.Made o c) {slot : Nat} (hslot : c.slot? field = some slot) (v : Value)
    (other : String) :
    (w.storeSlot o slot v).getField o other = if field = other then .ok v else w.getField o other := by
  have hstored := h.storeSlot o slot v
  obtain ⟨i, hi, rfl, hsize⟩ := h
  have hi' : (w.storeSlot o slot v).instance? o = some { i with fields := i.fields.setIfInBounds slot v } := by
    rw [instance?] at hi
    simp [instance?, World.storeSlot, Array.getElem?_modify, hi]
  have hbound : slot < i.fields.size := hsize ▸ ClassInfo.slot_lt hslot
  rw [World.getField, World.getField, hstored.slotOf, Made.slotOf ⟨i, hi, rfl, hsize⟩, hi, hi']
  by_cases hname : field = other
  · subst hname
    rw [hslot, if_pos rfl]
    simp [bind, Except.bind, pure, Except.pure, hbound]
  · rw [if_neg hname]
    cases hother : i.cls.slot? other with
    | none => rfl
    | some slot' =>
      have hapart : slot ≠ slot' := fun heq => hname (ClassInfo.slot?_inj hslot (heq ▸ hother))
      simp [bind, Except.bind, hapart]

theorem setField_ok (h : w.Made o c) (hset : Action.setField o field v w = .ok u w') :
    w'.Made o c ∧ ∀ other, w'.getField o other = if field = other then .ok v else w.getField o other := by
  cases hslot : w.slotOf o field with
  | error e =>
    rw [Action.setField, State.bind_of_error (Action.read_of_error hslot)] at hset
    cases hset
  | ok slot =>
    rw [Action.setField, State.bind_of_ok (Action.read_of_ok hslot)] at hset
    cases hset
    exact ⟨h.storeSlot o slot v, h.getField_storeSlot (h.slot?_of_slotOf hslot) v⟩

theorem exists_setField (h : w.Made o c) (hfield : field ∈ c.layout) (v : Value) :
    ∃ w', Action.setField o field v w = .ok () w' := by
  obtain ⟨slot, hslot⟩ := Option.isSome_iff_exists.1 ((c.slot?_isSome field).2 hfield)
  have hfound : w.slotOf o field = .ok slot := by rw [h.slotOf, hslot]
  exact ⟨_, by rw [Action.setField, State.bind_of_ok (Action.read_of_ok hfound)]; rfl⟩

end Made

end World

/-! ### A row of writes -/

/-- Writes fields of an object in order. -/
def Action.storeFields (o : ObjectRef) (fields : List (String × Value)) : Action Unit :=
  fields.forM fun f => Action.setField o f.1 f.2

theorem Action.storeFields_cons (o : ObjectRef) (f : String × Value) (fields : List (String × Value)) :
    Action.storeFields o (f :: fields) = Action.setField o f.1 f.2 >>= fun _ => Action.storeFields o fields := rfl

namespace World.Made

variable {w w' : World} {o : ObjectRef} {c : ClassInfo} {fields : List (String × Value)} {u : Unit}

/-- What is read afterwards: what was there before under names that were given nothing, and under the others what they
were given last. -/
theorem storeFields_ok (h : w.Made o c) (hstore : Action.storeFields o fields w = .ok u w') :
    w'.Made o c ∧ (∀ other, (∀ f ∈ fields, f.1 ≠ other) → w'.getField o other = w.getField o other) ∧
      ∀ (i : Nat) (f : String × Value), fields[i]? = some f →
        (∀ (j : Nat) (g : String × Value), i < j → fields[j]? = some g → g.1 ≠ f.1) → w'.getField o f.1 = .ok f.2 := by
  induction fields generalizing w with
  | nil =>
    cases hstore
    exact ⟨h, fun _ _ => rfl, nofun⟩
  | cons f fields ih =>
    obtain ⟨⟨⟩, w₁, hset, hstore⟩ := State.ok_of_bind hstore
    obtain ⟨h₁, hread⟩ := h.setField_ok hset
    obtain ⟨h', hkept, hgiven⟩ := ih h₁ hstore
    refine ⟨h', fun other hother => ?_, fun i g hg hlater => ?_⟩
    · obtain ⟨hf, hrest⟩ := List.forall_mem_cons.1 hother
      rw [hkept other hrest, hread, if_neg hf]
    · cases i with
      | zero =>
        cases hg
        have hrest : ∀ g ∈ fields, g.1 ≠ f.1 := by
          intro g hg
          obtain ⟨j, hj⟩ := List.getElem?_of_mem hg
          exact hlater (j + 1) g (Nat.succ_pos j) hj
        rw [hkept _ hrest, hread, if_pos rfl]
      | succ i => exact hgiven i g hg fun j g' hj hg' => hlater (j + 1) g' (Nat.succ_lt_succ hj) hg'

theorem exists_storeFields (h : w.Made o c) (hfields : ∀ f ∈ fields, f.1 ∈ c.layout) :
    ∃ w', Action.storeFields o fields w = .ok () w' := by
  induction fields generalizing w with
  | nil => exact ⟨w, rfl⟩
  | cons f fields ih =>
    obtain ⟨hf, hrest⟩ := List.forall_mem_cons.1 hfields
    obtain ⟨w₁, hset⟩ := h.exists_setField hf f.2
    obtain ⟨w', hstore⟩ := ih (h.setField_ok hset).1 hrest
    exact ⟨w', by rw [Action.storeFields_cons, State.bind_of_ok hset, hstore]⟩

end World.Made

/-! ### Code that runs in between -/

namespace Machine

variable {w w' : World} {o : ObjectRef} {c : ClassInfo}

/-- Only making an object and writing to one changes the objects. -/
theorem Change.objects (h : Change w w') :
    w'.objects = w.objects ∨
      (∃ name cls, w.registry.find? name = some cls ∧ w' = (w.allocate cls).2) ∨
      ∃ o slot v, w' = w.storeSlot o slot v := by
  cases h with
  | link index args =>
    left
    rw [linked_eq]
  | bind v value => exact .inl rfl
  | define v value flags => exact .inl rfl
  | intern space name =>
    left
    rcases (w.ensureSpace space).intern_cases space name with heq | heq <;> rw [heq, w.ensureSpace_eq]
  | enter name =>
    left
    rw [w.enter_eq]
  | importClass name h =>
    unfold World.importClass at h
    split at h
    · cases h
      exact .inl rfl
    · cases h
  | allocate cls h => exact .inr (.inl ⟨_, cls, h, rfl⟩)
  | store o slot value => exact .inr (.inr ⟨o, slot, value, rfl⟩)
  | print text => exact .inl rfl
  | draw stem => exact .inl rfl

end Machine

theorem World.Made.allocate {w : World} {o : ObjectRef} {c : ClassInfo} (h : w.Made o c) (cls : ClassInfo) :
    (w.allocate cls).2.Made o c := by
  obtain ⟨i, hi, hcls, hsize⟩ := h
  rw [instance?] at hi
  have hlt := (Array.getElem?_eq_some_iff.1 hi).1
  refine ⟨i, ?_, hcls, hsize⟩
  rw [instance?, World.allocate, Array.getElem?_push_lt hlt, ← hi, Array.getElem?_eq_getElem hlt]

theorem World.Made.change {w w' : World} {o : ObjectRef} {c : ClassInfo} (h : w.Made o c)
    (hchange : Machine.Change w w') : w'.Made o c := by
  rcases hchange.objects with hsame | ⟨-, cls, -, rfl⟩ | ⟨o', slot, v, rfl⟩
  · obtain ⟨i, hi, hmade⟩ := h
    exact ⟨i, by rwa [instance?, hsame], hmade⟩
  · exact h.allocate cls
  · exact h.storeSlot o' slot v

/-- An object stays an object of its class while code runs. -/
theorem World.Made.course {w w' : World} {o : ObjectRef} {c : ClassInfo} (h : w.Made o c)
    (hcourse : Machine.Course w w') : w'.Made o c := by
  induction hcourse with
  | refl => exact h
  | tail _ hchange ih => exact ih.change hchange

end LispMachine
