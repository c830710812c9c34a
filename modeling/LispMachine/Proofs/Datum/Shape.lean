import Mathlib.Data.List.Forall2
import LispMachine.Proofs.Datum.Spelling

/-! # The shape of data

`Datum.sameShape` compares data atom by atom and collection by collection (`forall₂_atoms`).  Atoms compare by
what they hold, and floats as numbers: the one atom that is not the same as itself is one that is not a number.
So a datum has its own shape exactly if no such atom is in it (`sameShape_self_iff`). -/

namespace LispMachine

/-- A float that is not a number. -/
def Atom.isNaN : Atom → Bool
  | .float x => x.isNaN
  | _ => false

theorem Atom.same_self (a : Atom) : a.same a = !a.isNaN := by
  cases a with
  | float x => simp [Atom.same, Atom.isNaN, Double.eq]
  | _ => simp [Atom.same, Atom.isNaN]

/-- Atoms that are the same are equal, or floats of one number. -/
theorem Atom.eq_of_same {a b : Atom} (h : a.same b = true) :
    a = b ∨ ∃ x y, a = .float x ∧ b = .float y ∧ x.eq y = true := by
  unfold Atom.same at h
  split at h
  · rename_i x y
    exact .inr ⟨x, y, rfl, rfl, h⟩
  · exact .inl (beq_iff_eq.mp h)

theorem Atom.symbol_of_same {a : Atom} {name : String} (h : a.same (.symbol name) = true) : a = .symbol name := by
  rcases Atom.eq_of_same h with rfl | ⟨x, y, -, hy, -⟩
  · rfl
  · cases hy

/-- Nothing is the same as an atom that is not a number. -/
theorem Atom.isNaN_of_same {a b : Atom} (h : a.same b = true) : b.isNaN = false := by
  rcases Atom.eq_of_same h with rfl | ⟨x, y, rfl, rfl, heq⟩
  · rw [Atom.same_self] at h
    simpa using h
  · simp only [Double.eq, Bool.and_eq_true, Bool.not_eq_true'] at heq
    exact heq.1.2

namespace Datum

/-- Some atom of the datum is not a number where a number should be. -/
def hasNaN (d : Datum) : Bool := d.atoms.any Atom.isNaN

/-! ### Atom by atom -/

/-- Atoms that are the same in pairs, in the order of writing. -/
abbrev SameAtoms (xs ys : List Atom) : Prop := List.Forall₂ (fun a b => a.same b = true) xs ys

theorem SameAtoms.append {xs ys xs' ys' : List Atom} (h : SameAtoms xs ys) (h' : SameAtoms xs' ys') :
    SameAtoms (xs ++ xs') (ys ++ ys') := List.rel_append h h'

theorem SameAtoms.numbers {xs ys : List Atom} (h : SameAtoms xs ys) : ys.any Atom.isNaN = false := by
  induction h with
  | nil => rfl
  | cons hab _ ih => rw [List.any_cons, Atom.isNaN_of_same hab, ih, Bool.or_false]

mutual

/-- Data of one shape have the same atoms. -/
theorem forall₂_atoms : ∀ d e : Datum, d.sameShape e = true → SameAtoms d.atoms e.atoms
  | .atom a _, .atom b _, h => by
    rw [sameShape] at h
    exact .cons h .nil
  | .list xs _, .list ys _, h => forall₂_atomsOfAll xs ys (by rwa [sameShape] at h)
  | .vector xs _, .vector ys _, h => forall₂_atomsOfAll xs ys (by rwa [sameShape] at h)
  | .set xs _, .set ys _, h => forall₂_atomsOfAll xs ys (by rwa [sameShape] at h)
  | .map xs _, .map ys _, h => forall₂_atomsOfEntries xs ys (by rwa [sameShape] at h)

theorem forall₂_atomsOfAll : ∀ xs ys : List Datum, sameShapes xs ys = true →
    SameAtoms (atomsOfAll xs) (atomsOfAll ys)
  | [], [], _ => .nil
  | x :: xs, y :: ys, h => by
    rw [sameShapes, Bool.and_eq_true] at h
    exact (forall₂_atoms x y h.1).append (forall₂_atomsOfAll xs ys h.2)

theorem forall₂_atomsOfEntries : ∀ xs ys : List (Datum × Datum), sameEntries xs ys = true →
    SameAtoms (atomsOfEntries xs) (atomsOfEntries ys)
  | [], [], _ => .nil
  | (k, v) :: xs, (l, w) :: ys, h => by
    rw [sameEntries, Bool.and_eq_true, Bool.and_eq_true] at h
    exact ((forall₂_atoms k l h.1.1).append (forall₂_atoms v w h.1.2)).append (forall₂_atomsOfEntries xs ys h.2)

end

/-- No datum has the shape of one with an atom that is not a number. -/
theorem sameShape_hasNaN {d e : Datum} (he : e.hasNaN = true) : d.sameShape e = false := by
  rw [Bool.eq_false_iff]
  intro hsame
  rw [hasNaN, (forall₂_atoms d e hsame).numbers] at he
  cases he

/-! ### The shape of a datum itself -/

mutual

theorem sameShape_self : ∀ d : Datum, d.hasNaN = false → d.sameShape d = true
  | .atom a _, h => by
    simp only [hasNaN, atoms, List.any_cons, List.any_nil, Bool.or_false] at h
    rw [sameShape, Atom.same_self, h, Bool.not_false]
  | .list xs _, h => by
    rw [sameShape]
    exact sameShapes_self xs h
  | .vector xs _, h => by
    rw [sameShape]
    exact sameShapes_self xs h
  | .set xs _, h => by
    rw [sameShape]
    exact sameShapes_self xs h
  | .map xs _, h => by
    rw [sameShape]
    exact sameEntries_self xs h

theorem sameShapes_self : ∀ ds : List Datum, (atomsOfAll ds).any Atom.isNaN = false → sameShapes ds ds = true
  | [], _ => rfl
  | d :: ds, h => by
    rw [atomsOfAll, List.any_append, Bool.or_eq_false_iff] at h
    rw [sameShapes, sameShape_self d h.1, sameShapes_self ds h.2, Bool.and_true]

theorem sameEntries_self : ∀ es : List (Datum × Datum), (atomsOfEntries es).any Atom.isNaN = false →
    sameEntries es es = true
  | [], _ => rfl
  | (k, v) :: es, h => by
    rw [atomsOfEntries, List.any_append, List.any_append, Bool.or_eq_false_iff, Bool.or_eq_false_iff] at h
    rw [sameEntries, sameShape_self k h.1.1, sameShape_self v h.1.2, sameEntries_self es h.2, Bool.and_true,
      Bool.and_true]

end

/-- A datum has its own shape unless an atom of it is not a number. -/
theorem sameShape_self_iff (d : Datum) : d.sameShape d = true ↔ d.hasNaN = false := by
  refine ⟨fun hself => ?_, sameShape_self d⟩
  rw [Bool.eq_false_iff]
  intro hnan
  rw [sameShape_hasNaN hnan] at hself
  cases hself

/-! ### Heads -/

theorem list_of_sameShape {d : Datum} {ys : List Datum} {i : Info} (h : d.sameShape (.list ys i) = true) :
    ∃ xs j, d = .list xs j ∧ sameShapes xs ys = true := by
  cases d with
  | list xs j => exact ⟨xs, j, rfl, by rwa [sameShape] at h⟩
  | _ => simp [sameShape] at h

theorem symbol?_of_sameShape {d e : Datum} {name : String} (h : d.sameShape e = true)
    (he : e.symbol? = some name) : d.symbol? = some name := by
  unfold symbol? at he
  split at he
  · rename_i name' i
    obtain rfl := Option.some.inj he
    cases d with
    | atom a j =>
      rw [sameShape] at h
      rw [Atom.symbol_of_same h]
      rfl
    | _ => simp [sameShape] at h
  · cases he

/-- Data of one shape have one head. -/
theorem head?_of_sameShape {d e : Datum} {name : String} (h : d.sameShape e = true) (he : e.head? = some name) :
    d.head? = some name := by
  cases e with
  | list ys i =>
    obtain ⟨xs, j, rfl, hsame⟩ := list_of_sameShape h
    cases ys with
    | nil => cases he
    | cons y ys =>
      cases xs with
      | nil => simp [sameShapes] at hsame
      | cons x xs =>
        rw [sameShapes, Bool.and_eq_true] at hsame
        exact symbol?_of_sameShape hsame.1 he
  | _ => cases he

end Datum

end LispMachine
