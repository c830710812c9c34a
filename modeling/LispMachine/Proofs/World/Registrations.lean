import LispMachine.Proofs.World.Fields
import LispMachine.Proofs.World.Resolution

/-! # Registrations

Every registration of a class draws a serial of its own.  A book of all registrations, in the order in which they were
made, has the class of each serial at the place of the serial, whatever became of it later: it may have been replaced
under its name, or put back, and objects of it may be left.  `Recorded` says that the classes of a world are in such a
book.  What registers classes, puts back what stood under a name, or makes objects of classes that are registered goes
on with the book (`Records`). -/

namespace LispMachine

/-- What is in a book stays where it is. -/
theorem getElem?_append_of_some {α : Type} {book : List α} {i : Nat} {a : α} (h : book[i]? = some a) (more : List α) :
    (book ++ more)[i]? = some a := by
  rw [List.getElem?_append_left (List.getElem?_eq_some_iff.mp h).1, h]

/-! ### Registries -/

namespace Registry

/-- The book has every class of the registry at the place of its serial. -/
structure Recorded (r : Registry) (book : List ClassInfo) : Prop where
  next : r.next = book.length
  classes : ∀ name c, r.find? name = some c → book[c.serial]? = some c

variable {r r' : Registry} {c c' : ClassInfo} {book : List ClassInfo}

theorem recorded_empty : Recorded {} [] := by
  refine ⟨rfl, fun name c h => ?_⟩
  cases h

/-- A registration is added to the book. -/
theorem Recorded.register (h : r.Recorded book) (hregister : r.register c = .ok (c', r')) :
    r'.Recorded (book ++ [c']) := by
  obtain ⟨⟨inherited, hmade⟩, rfl⟩ := register_eq hregister
  have hserial : c'.serial = book.length := by rw [hmade, ← h.next]
  refine ⟨by rw [h.next, List.length_append, List.length_singleton], fun name d hd => ?_⟩
  rw [find?, Table.find?_insert] at hd
  split at hd
  · cases hd
    rw [hserial, List.getElem?_concat_length]
  · exact getElem?_append_of_some (h.classes name d hd) _

/-- What was registered before may be put back. -/
theorem Recorded.reinstate (h : r.Recorded book) (name : String) {previous : Option ClassInfo}
    (hprevious : ∀ c, previous = some c → book[c.serial]? = some c) : (r.reinstate name previous).Recorded book := by
  refine ⟨h.next, fun other c hc => ?_⟩
  rw [find?_reinstate] at hc
  split at hc
  · exact hprevious c hc
  · exact h.classes other c hc

/-- The built-in classes are registered one after the other. -/
theorem exists_recorded_host : ∃ book, Host.registry.Recorded book := by
  refine List.foldlRecOn (motive := fun r : Registry => ∃ book, r.Recorded book) Host.classes _ ⟨[], recorded_empty⟩ ?_
  rintro r ⟨book, h⟩ c -
  cases hregister : r.register c with
  | error e => exact ⟨book, h⟩
  | ok made => exact ⟨_, h.register hregister⟩

end Registry

/-! ### Worlds -/

namespace World

/-- The book has the registered classes, and the classes of all objects. -/
structure Recorded (w : World) (book : List ClassInfo) : Prop where
  registry : w.registry.Recorded book
  objects : ∀ o i, w.instance? o = some i → book[i.cls.serial]? = some i.cls

/-- A book for the one world goes on as a book for the other. -/
def Records (w w' : World) : Prop := ∀ book, w.Recorded book → ∃ more, w'.Recorded (book ++ more)

variable {w w' w'' : World} {book : List ClassInfo}

/-- There are classes, and no objects yet. -/
theorem recorded_of_registry {r : Registry} (h : r.Recorded book) (current : String) :
    Recorded { registry := r, current } book := by
  refine ⟨h, fun o i hi => ?_⟩
  cases hi

/-- What was registered before may be put back. -/
theorem Recorded.reinstate (h : w.Recorded book) (name : String) {previous : Option ClassInfo}
    (hprevious : ∀ c, previous = some c → book[c.serial]? = some c) :
    Recorded { w with registry := w.registry.reinstate name previous } book :=
  ⟨h.registry.reinstate name hprevious, h.objects⟩

theorem Records.refl (w : World) : w.Records w := fun book h => ⟨[], by rwa [List.append_nil]⟩

theorem Records.trans (h : w.Records w') (h' : w'.Records w'') : w.Records w'' := by
  intro book hbook
  obtain ⟨more, hmore⟩ := h book hbook
  obtain ⟨rest, hrest⟩ := h' _ hmore
  exact ⟨more ++ rest, by rwa [← List.append_assoc]⟩

/-- Classes are registered as before, and objects have the classes they had. -/
theorem records_of_objects (hregistry : w'.registry = w.registry)
    (hobjects : ∀ o i, w'.instance? o = some i → ∃ i', w.instance? o = some i' ∧ i'.cls = i.cls) : w.Records w' := by
  intro book h
  refine ⟨[], ?_⟩
  rw [List.append_nil]
  refine ⟨hregistry ▸ h.registry, fun o i hi => ?_⟩
  obtain ⟨i', hi', hcls⟩ := hobjects o i hi
  exact hcls ▸ h.objects o i' hi'

theorem records_of_eq (hregistry : w'.registry = w.registry) (hobjects : w'.objects = w.objects) : w.Records w' := by
  refine records_of_objects hregistry fun o i hi => ⟨i, ?_, rfl⟩
  rwa [instance?, ← hobjects]

/-- A class is registered. -/
theorem records_of_register {c c' : ClassInfo} {r : Registry} (hregister : w.registry.register c = .ok (c', r))
    (hregistry : w'.registry = r) (hobjects : w'.objects = w.objects) : w.Records w' := by
  intro book h
  refine ⟨[c'], hregistry ▸ h.registry.register hregister, fun o i hi => ?_⟩
  rw [instance?, hobjects] at hi
  exact getElem?_append_of_some (h.objects o i hi) _

/-- An object is made of a class that is registered. -/
theorem records_allocate {name : String} {c : ClassInfo} (hc : w.registry.find? name = some c) :
    w.Records (w.allocate c).2 := by
  intro book h
  refine ⟨[], ?_⟩
  rw [List.append_nil]
  refine ⟨h.registry, fun o i hi => ?_⟩
  rw [instance?, allocate, Array.getElem?_push] at hi
  split at hi
  · cases hi
    exact h.registry.classes name c hc
  · exact h.objects o i hi

theorem records_storeSlot (w : World) (o : ObjectRef) (slot : Nat) (v : Value) : w.Records (w.storeSlot o slot v) := by
  refine records_of_objects rfl fun o' i hi => ?_
  rw [instance?, storeSlot, Array.getElem?_modify] at hi
  split at hi
  · obtain ⟨i', hi', rfl⟩ := Option.map_eq_some_iff.mp hi
    exact ⟨i', hi', rfl⟩
  · exact ⟨i, hi, rfl⟩

/-! ### What worlds go through -/

/-- Code that runs makes objects of registered classes only. -/
theorem records_change (h : Machine.Change w w') : w.Records w' := by
  rcases h.objects with hobjects | ⟨name, cls, hcls, rfl⟩ | ⟨o, slot, v, rfl⟩
  · exact records_of_eq h.onward.registry hobjects
  · exact records_allocate hcls
  · exact records_storeSlot w o slot v

theorem records_course (h : Machine.Course w w') : w.Records w' := by
  induction h with
  | refl => exact .refl w
  | tail _ hchange ih => exact ih.trans (records_change hchange)

/-- Loading a class registers it, or changes nothing. -/
theorem records_defineImage [Libraries] (bytes : List UInt8) (w : World) :
    w.Records (Machine.worldAfter (Machine.defineImage bytes w)) := by
  have hregister : ∀ file : ClassFile, w.Records (Machine.worldAfter (Machine.registerFile file w)) := by
    intro file
    rw [Machine.registerFile, State.bind_of_ok (State.get_eq w)]
    cases hmade : w.registry.register (Machine.classInfo file w.sites.size) with
    | error e => exact .refl w
    | ok made => exact records_of_register hmade rfl rfl
  rw [Machine.defineImage]
  cases ClassFile.ofBytes bytes with
  | error e => exact .refl w
  | ok loaded =>
    rw [State.bind_of_ok (Action.ofExcept_ok loaded w), State.bind_of_ok (State.get_eq w)]
    split
    · cases Verifier.checkClass loaded with
      | error e => exact .refl w
      | ok u => exact hregister loaded
    · exact hregister loaded

end World

end LispMachine
