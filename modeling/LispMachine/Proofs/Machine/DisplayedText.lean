import LispMachine.Machine.Display
import LispMachine.Proofs.Sequencing
import LispMachine.Proofs.Value.Coherence

/-! # Two printers

The text of a value is made in two ways: the printer of values knows nothing of the machine, and the text the printing
functions show is made by an action, which runs code for objects that print themselves.  Each goes through collections
on its own.  Where there is no object in a value, no code is run and the texts are the same (`displayed_text`). -/

namespace LispMachine

namespace Value

/-- No object is in the value, at any depth. -/
def ObjectFree (v : Value) : Prop := ∀ o, object o ∉ v.leaves

theorem ObjectFree.parts {v x : Value} (h : v.ObjectFree) (hx : x ∈ v.parts) : x.ObjectFree :=
  fun o ho => h o (mem_leaves_of_parts hx ho)

end Value

namespace Machine

open Value

/-! ### Items and entries -/

section Parts

variable {call : Caller} {object : ObjectRef → String} {w : World}

/-- The value shows as it prints, and nothing else happens. -/
def Shows (call : Caller) (object : ObjectRef → String) (w : World) (v : Value) : Prop :=
  displayText call true v w = .ok (v.textWith object) w

theorem displayTexts_ok {items : List Value} (h : ∀ x ∈ items, Shows call object w x) :
    displayTexts call items w = .ok (textsWith object items) w := by
  induction items with
  | nil => rfl
  | cons x xs ih =>
    obtain ⟨hx, hxs⟩ := List.forall_mem_cons.1 h
    rw [displayTexts, textsWith, State.bind_of_ok hx, State.bind_of_ok (ih hxs), State.pure_eq]

theorem displayEntries_ok {entries : List (Value × Value)}
    (h : ∀ e ∈ entries, Shows call object w e.1 ∧ Shows call object w e.2) :
    displayEntries call entries w = .ok (entryTextsWith object entries) w := by
  induction entries with
  | nil => rfl
  | cons e es ih =>
    obtain ⟨⟨hkey, hvalue⟩, hes⟩ := List.forall_mem_cons.1 h
    rw [displayEntries, entryTextsWith, State.bind_of_ok hkey, State.bind_of_ok hvalue, State.bind_of_ok (ih hes),
      State.pure_eq]

/-! ### Values -/

/-- A value shows as it prints if what is inside it does. -/
theorem shows_of_parts {v : Value} (hv : v.ObjectFree) (h : ∀ x ∈ v.parts, Shows call object w x) :
    Shows call object w v := by
  cases v with
  | object o => exact absurd (List.mem_singleton_self _) (hv o)
  | list items | vector items | set items =>
    have hitems : displayTexts call items w = .ok (textsWith object items) w := displayTexts_ok h
    rw [Shows, displayText, State.bind_of_ok hitems]
    rfl
  | map entries =>
    have hentries : ∀ e ∈ entries, Shows call object w e.1 ∧ Shows call object w e.2 := fun e he =>
      ⟨h e.1 (List.mem_flatMap.2 ⟨e, he, List.mem_cons_self⟩),
        h e.2 (List.mem_flatMap.2 ⟨e, he, List.mem_cons_of_mem _ List.mem_cons_self⟩)⟩
    rw [Shows, displayText, State.bind_of_ok (displayEntries_ok hentries)]
    rfl
  | _ => rfl

theorem shows {v : Value} (hv : v.ObjectFree) : Shows call object w v := by
  induction v using inductionOn_parts with
  | h v ih => exact shows_of_parts hv fun x hx => ih x hx (hv.parts hx)

/-- What is text itself shows without quotes as it prints so. -/
theorem shows_bare {v : Value} (hv : v.ObjectFree) : displayText call false v w = .ok (v.bareWith object) w := by
  have hreadable : displayText call true v w = .ok (v.textWith object) w := shows hv
  cases v with
  | object o => exact absurd (List.mem_singleton_self _) (hv o)
  | list _ | vector _ | set _ | map _ => exact hreadable
  | _ => rfl

/-- A value in which there is no object shows as it prints, readable or bare, whatever would be done with objects. -/
theorem displayed_text {v : Value} (hv : v.ObjectFree) (call : Caller) (object : ObjectRef → String) (w : World) :
    displayText call true v w = .ok (v.textWith object) w ∧
      displayText call false v w = .ok (v.bareWith object) w :=
  ⟨shows hv, shows_bare hv⟩

end Parts

/-- A map with texts and characters at several depths. -/
def deepMap : Value := .map [(.str "k", .set [.vector [.nil, .str "x"], .char 'a', .str "b"])]

/-- It shows as it prints, also where no code can be run at all. -/
theorem displayed_deepMap :
    deepMap.ObjectFree ∧
      displayText (fun _ => throw .outOfFuel) true deepMap {} = .ok (deepMap.textWith fun _ => "") {} ∧
        displayText (fun _ => throw .outOfFuel) false deepMap {} = .ok (deepMap.bareWith fun _ => "") {} := by
  have hfree : deepMap.ObjectFree := by
    intro o
    simp [deepMap, leaves, leavesOfAll, leavesOfEntries]
  exact ⟨hfree, displayed_text hfree _ _ _⟩

end Machine

end LispMachine
