import LispMachine.Proofs.Registry.Subclassing

/-! # The search for a superclass

The subtype test looks through the classes above a class breadth first and stops at the first edge to the class it
looks for.  A turn takes one name off the queue; no registry lets the turns go on for ever, since each takes a name
or puts the edges of a class that was not seen before behind it (`wellFounded_follows`).  What the search ends with is
what is read off the lineage (`ends_walk`), hence reachability, whatever cycles there are and whatever names are
registered (`isSubclass_search`). -/

namespace LispMachine

namespace Registry

open Relation (TransGen)

/-- How far a search has come: the names taken off the queue so far, and those that are in it. -/
structure Search where
  seen : List String
  queue : List String

/-- What becomes of a search in one turn. -/
inductive Turn where
  | ends (found : Bool)
  | goesOn (s : Search)

namespace Search

/-- The search from a class, before its first turn. -/
def start (sub : String) : Search := ⟨[], [sub]⟩

/-- One turn.  A name that was seen before or that is not registered is passed over, and the search has come to its
end once a class has the one it looks for as a parent or no name is left. -/
def turn (r : Registry) (sup : String) (s : Search) : Turn :=
  match s.queue with
  | [] => .ends false
  | name :: queue =>
    if name ∈ s.seen then .goesOn ⟨s.seen, queue⟩
    else
      match r.find? name with
      | none => .goesOn ⟨name :: s.seen, queue⟩
      | some c => if sup ∈ c.parents then .ends true else .goesOn ⟨name :: s.seen, queue ++ c.parents⟩

/-- One search is what a turn makes of the other. -/
def Follows (r : Registry) (sup : String) (s' s : Search) : Prop := s.turn r sup = .goesOn s'

/-- Finitely many turns, of which the last has this answer. -/
inductive Ends (r : Registry) (sup : String) : Search → Bool → Prop where
  | here {s : Search} {found : Bool} (h : s.turn r sup = .ends found) : Ends r sup s found
  | later {s s' : Search} {found : Bool} (h : s.turn r sup = .goesOn s') (hrest : Ends r sup s' found) :
    Ends r sup s found

/-- The names in the queue and the edges that were not followed yet. -/
def size (r : Registry) (s : Search) : Nat := s.queue.length + ahead s.seen r.classes.entries

section Turns

variable {r : Registry} {sup name : String} {seen queue : List String} {s s' : Search} {found found' : Bool}

theorem turn_nil : (Search.mk seen []).turn r sup = .ends false := rfl

theorem turn_seen (hseen : name ∈ seen) : (Search.mk seen (name :: queue)).turn r sup = .goesOn ⟨seen, queue⟩ :=
  if_pos hseen

theorem turn_missing (hseen : name ∉ seen) (hfind : r.find? name = none) :
    (Search.mk seen (name :: queue)).turn r sup = .goesOn ⟨name :: seen, queue⟩ := by
  simp only [turn, if_neg hseen, hfind]

theorem turn_found {c : ClassInfo} (hseen : name ∉ seen) (hfind : r.find? name = some c) (hsup : sup ∈ c.parents) :
    (Search.mk seen (name :: queue)).turn r sup = .ends true := by
  simp only [turn, if_neg hseen, hfind, if_pos hsup]

theorem turn_onward {c : ClassInfo} (hseen : name ∉ seen) (hfind : r.find? name = some c) (hsup : sup ∉ c.parents) :
    (Search.mk seen (name :: queue)).turn r sup = .goesOn ⟨name :: seen, queue ++ c.parents⟩ := by
  simp only [turn, if_neg hseen, hfind, if_neg hsup]

/-- Every turn brings the search closer to its end. -/
theorem size_lt_of_follows (h : Follows r sup s' s) : s'.size r < s.size r := by
  obtain ⟨seen, _ | ⟨name, queue⟩⟩ := s
  · cases turn_nil.symm.trans h
  unfold size
  by_cases hseen : name ∈ seen
  · cases (turn_seen hseen).symm.trans h
    exact Nat.add_lt_add_right (Nat.lt_succ_self _) _
  cases hfind : r.find? name with
  | none =>
    cases (turn_missing hseen hfind).symm.trans h
    have hless := ahead_cons_le name seen r.classes.entries
    dsimp only [List.length_cons]
    omega
  | some c =>
    by_cases hsup : sup ∈ c.parents
    · cases (turn_found hseen hfind hsup).symm.trans h
    · cases (turn_onward hseen hfind hsup).symm.trans h
      have hless := ahead_of_lookup hseen hfind
      dsimp only [List.length_cons]
      rw [List.length_append]
      omega

/-- No search goes on for ever. -/
theorem wellFounded_follows (r : Registry) (sup : String) : WellFounded (Follows r sup) :=
  Subrelation.wf size_lt_of_follows (measure (size r)).wf

/-- A search has one end. -/
theorem Ends.unique (h : Ends r sup s found) (h' : Ends r sup s found') : found = found' := by
  induction h with
  | here hturn =>
    cases h' with
    | here hturn' => cases hturn.symm.trans hturn'; rfl
    | later hturn' => cases hturn.symm.trans hturn'
  | later hturn _ ih =>
    cases h' with
    | here hturn' => cases hturn.symm.trans hturn'
    | later hturn' hrest => cases hturn.symm.trans hturn'; exact ih hrest

/-- A search finds what is a parent of a class on the walk. -/
theorem ends_walk {fuel : Nat} (hfuel : queue.length + ahead seen r.classes.entries ≤ fuel) :
    Ends r sup ⟨seen, queue⟩ ((r.walk fuel seen queue).any fun c => c.parents.contains sup) := by
  induction fuel generalizing seen queue with
  | zero =>
    obtain rfl : queue = [] := List.eq_nil_of_length_eq_zero (by omega)
    exact .here turn_nil
  | succ fuel ih =>
    cases queue with
    | nil => exact .here turn_nil
    | cons name queue =>
      rw [List.length_cons] at hfuel
      rw [walk]
      by_cases hseen : name ∈ seen
      · rw [if_pos (by simpa using hseen)]
        exact .later (turn_seen hseen) (ih (by omega))
      rw [if_neg (by simpa using hseen)]
      cases hfind : r.find? name with
      | none =>
        have hless := ahead_cons_le name seen r.classes.entries
        exact .later (turn_missing hseen hfind) (ih (by omega))
      | some c =>
        have hless := ahead_of_lookup hseen hfind
        by_cases hsup : sup ∈ c.parents
        · have hany : ((c :: r.walk fuel (name :: seen) (queue ++ c.parents)).any
              fun c => c.parents.contains sup) = true := by
            simp [hsup]
          exact hany ▸ .here (turn_found hseen hfind hsup)
        · have hany : ((c :: r.walk fuel (name :: seen) (queue ++ c.parents)).any fun c => c.parents.contains sup)
              = (r.walk fuel (name :: seen) (queue ++ c.parents)).any fun c => c.parents.contains sup := by
            simp [hsup]
          have hrest : (queue ++ c.parents).length + ahead (name :: seen) r.classes.entries ≤ fuel := by
            rw [List.length_append]
            omega
          exact hany ▸ .later (turn_onward hseen hfind hsup) (ih hrest)

end Turns

end Search

/-- The search answers the subtype test, unless the names alone do. -/
theorem isSubclass_search (r : Registry) {sub sup : String} (hne : sub ≠ sup) (hobject : sup ≠ Names.object) :
    Search.Ends r sup (.start sub) (r.isSubclass sub sup) := by
  have hsubclass : r.isSubclass sub sup = (r.lineage sub).any fun c => c.parents.contains sup := by
    rw [isSubclass, beq_false_of_ne hne, beq_false_of_ne hobject, Bool.false_or, Bool.false_or]
  have hfuel : [sub].length + ahead [] r.classes.entries ≤ r.edges + 2 := by
    simp [ahead, edges, List.sum]
    omega
  exact hsubclass ▸ Search.ends_walk hfuel

end Registry

/-- The subtype test is reachability.  In every registry the search behind it comes to an end, with the answer of the
test and no other; the test holds between a class and itself, the root class and whatever its superclasses and
interfaces lead to; and where nothing is above the root class it is transitive, and assignability is a preorder. -/
theorem Registry.isSubclass_reachability (r : Registry) :
    (∀ sup, WellFounded (Search.Follows r sup)) ∧
    (∀ sub sup, sub ≠ sup → sup ≠ Names.object → ∀ found,
      Search.Ends r sup (.start sub) found ↔ found = r.isSubclass sub sup) ∧
    (∀ sub sup, r.isSubclass sub sup = true ↔
      sub = sup ∨ sup = Names.object ∨ Relation.TransGen r.Extends sub sup) ∧
    (r.Rooted → (∀ a b c, r.isSubclass a b = true → r.isSubclass b c = true → r.isSubclass a c = true) ∧
      IsPreorder Ty fun a b => b.isAssignable r a = true) := by
  refine ⟨Search.wellFounded_follows r, fun sub sup hne hobject found => ?_, fun _ _ => isSubclass_iff, fun hr => ?_⟩
  · have hends := isSubclass_search r hne hobject
    exact ⟨fun h => h.unique hends, fun h => h ▸ hends⟩
  · exact ⟨fun _ _ _ => isSubclass_trans hr,
      { refl := Ty.isAssignable_self r, trans := fun _ _ _ hab hbc => Ty.isAssignable_trans hr hbc hab }⟩

/-- Two classes that are each above the other. -/
def Registry.knotted : Registry where
  classes := { entries := [("a", { name := "a", superclass := some "b" }),
    ("b", { name := "b", superclass := none, interfaces := ["a", "missing"] })] }

theorem Registry.knotted_reachability : knotted.Extends "a" "b" ∧ knotted.Extends "b" "a" ∧ knotted.Rooted ∧
    (∃ found, Search.Ends knotted "c" (.start "a") found) ∧
    IsPreorder Ty fun a b => b.isAssignable knotted a = true := by
  obtain ⟨-, hsearch, -, hpreorder⟩ := isSubclass_reachability knotted
  have hrooted : knotted.Rooted := fun _ hc => by cases hc
  exact ⟨⟨_, rfl, by decide⟩, ⟨_, rfl, by decide⟩, hrooted,
    ⟨_, (hsearch "a" "c" (by decide) (by decide) _).2 rfl⟩, (hpreorder hrooted).2⟩

end LispMachine
