import Mathlib.Algebra.BigOperators.Group.List.Basic
import Mathlib.Logic.Relation
import LispMachine.Host.Classes
import LispMachine.Registry.Hierarchy

/-! # The subtype order

The walk over the hierarchy has steps enough to get to everything above a class, cycles or not, so the subtype test
is reachability along superclasses and interfaces, with the root class above all (`isSubclass_iff`).  Where nothing
is above the root class the test is transitive (`isSubclass_trans`), and a value of a type is a value of every type
it is assignable to (`Conforms.assign`). -/

namespace LispMachine

namespace Registry

open Relation (ReflTransGen TransGen)

/-- A registered class, and its superclass or one of its interfaces. -/
def Extends (r : Registry) (sub sup : String) : Prop := ∃ c, r.find? sub = some c ∧ sup ∈ c.parents

/-! ### The walk -/

section Walk

variable {r : Registry} {seen queue : List String} {name sub sup : String} {c : ClassInfo}

/-- Edges that the walk has not followed yet. -/
def ahead (seen : List String) (entries : List (String × ClassInfo)) : Nat :=
  ((entries.filter fun e => !seen.contains e.1).flatMap fun e => e.2.parents).length

theorem ahead_cons (seen : List String) (e : String × ClassInfo) (rest : List (String × ClassInfo)) :
    ahead seen (e :: rest) = (if e.1 ∈ seen then 0 else e.2.parents.length) + ahead seen rest := by
  by_cases hseen : e.1 ∈ seen <;> simp [ahead, hseen]

theorem ahead_cons_le (name : String) (seen : List String) (entries : List (String × ClassInfo)) :
    ahead (name :: seen) entries ≤ ahead seen entries := by
  induction entries with
  | nil => exact Nat.le_refl _
  | cons e rest ih =>
    have hmono : e.1 ∈ seen → e.1 ∈ name :: seen := List.mem_cons_of_mem _
    rw [ahead_cons, ahead_cons]
    split <;> split
    · omega
    · omega
    · exact absurd (hmono ‹_›) ‹_›
    · omega

/-- A class that is seen for the first time has its edges behind it. -/
theorem ahead_of_lookup {entries : List (String × ClassInfo)} (hseen : name ∉ seen)
    (hc : Table.lookup name entries = some c) :
    ahead (name :: seen) entries + c.parents.length ≤ ahead seen entries := by
  induction entries with
  | nil => cases hc
  | cons e rest ih =>
    obtain ⟨key, info⟩ := e
    rw [ahead_cons, ahead_cons]
    by_cases hname : key = name
    · subst hname
      obtain rfl : info = c := by simpa [Table.lookup] using hc
      have hrest := ahead_cons_le key seen rest
      rw [if_pos (List.mem_cons_self ..), if_neg hseen]
      dsimp only
      omega
    · rw [Table.lookup, if_neg hname] at hc
      specialize ih hc
      by_cases hkey : key ∈ seen
      · rw [if_pos (List.mem_cons_of_mem _ hkey), if_pos hkey]
        omega
      · rw [if_neg (by simp [hname, hkey]), if_neg hkey]
        omega

/-- What the walk finds is above a name in the queue. -/
theorem mem_walk {fuel : Nat} (hc : c ∈ r.walk fuel seen queue) :
    ∃ first ∈ queue, ∃ name, ReflTransGen r.Extends first name ∧ r.find? name = some c := by
  induction fuel generalizing seen queue with
  | zero => cases hc
  | succ fuel ih =>
    cases queue with
    | nil => cases hc
    | cons name queue =>
      rw [walk] at hc
      split at hc
      · obtain ⟨first, hfirst, hrest⟩ := ih hc
        exact ⟨first, List.mem_cons_of_mem _ hfirst, hrest⟩
      cases hfind : r.find? name with
      | none =>
        simp only [hfind] at hc
        obtain ⟨first, hfirst, hrest⟩ := ih hc
        exact ⟨first, List.mem_cons_of_mem _ hfirst, hrest⟩
      | some info =>
        simp only [hfind, List.mem_cons] at hc
        rcases hc with rfl | hc
        · exact ⟨name, List.mem_cons_self .., name, .refl, hfind⟩
        · obtain ⟨first, hfirst, above, hpath, hfound⟩ := ih hc
          rcases List.mem_append.1 hfirst with hfirst | hfirst
          · exact ⟨first, List.mem_cons_of_mem _ hfirst, above, hpath, hfound⟩
          · exact ⟨name, List.mem_cons_self .., above, .head ⟨info, hfind, hfirst⟩ hpath, hfound⟩

/-- The class of the name is among those found, if it was not seen before. -/
def Visited (r : Registry) (seen : List String) (found : List ClassInfo) (name : String) : Prop :=
  name ∈ seen ∨ ∀ c, r.find? name = some c → c ∈ found

/-- A name counts as seen in the rest of a walk once its class is found. -/
theorem Visited.widen {found found' : List ClassInfo} {n : String} (h : r.Visited (name :: seen) found n)
    (hname : ∀ c, r.find? name = some c → c ∈ found') (hfound : ∀ c ∈ found, c ∈ found') :
    r.Visited seen found' n := by
  rcases h with hn | hn
  · rcases List.mem_cons.1 hn with rfl | hn
    · exact .inr hname
    · exact .inl hn
  · exact .inr fun c hc => hfound c (hn c hc)

/-- With a step for every name and every edge ahead, the walk visits the queue and whatever is above it. -/
theorem walk_visits {fuel : Nat} (hfuel : queue.length + ahead seen r.classes.entries ≤ fuel) :
    (∀ name ∈ queue, r.Visited seen (r.walk fuel seen queue) name) ∧
      ∀ c ∈ r.walk fuel seen queue, ∀ name ∈ c.parents, r.Visited seen (r.walk fuel seen queue) name := by
  induction fuel generalizing seen queue with
  | zero =>
    obtain rfl : queue = [] := List.eq_nil_of_length_eq_zero (by omega)
    exact ⟨by simp, by simp [walk]⟩
  | succ fuel ih =>
    cases queue with
    | nil => exact ⟨by simp, by simp [walk]⟩
    | cons name queue =>
      rw [List.length_cons] at hfuel
      rw [walk]
      split
      · rename_i hseen
        obtain ⟨hqueue, habove⟩ := ih (by omega : queue.length + ahead seen r.classes.entries ≤ fuel)
        exact ⟨List.forall_mem_cons.2 ⟨.inl (by simpa using hseen), hqueue⟩, habove⟩
      rename_i hseen
      cases hfind : r.find? name with
      | none =>
        have hless := ahead_cons_le name seen r.classes.entries
        obtain ⟨hqueue, habove⟩ := ih (by omega : queue.length + ahead (name :: seen) r.classes.entries ≤ fuel)
        have hnone : ∀ c, r.find? name = some c → c ∈ r.walk fuel (name :: seen) queue := fun c hc => by
          cases hfind.symm.trans hc
        refine ⟨List.forall_mem_cons.2 ⟨.inr hnone, fun n hn => ?_⟩, fun c hc n hn => ?_⟩
        · exact (hqueue n hn).widen hnone fun _ => id
        · exact (habove c hc n hn).widen hnone fun _ => id
      | some info =>
        have hless := ahead_of_lookup (by simpa using hseen) hfind
        have hrest : (queue ++ info.parents).length + ahead (name :: seen) r.classes.entries ≤ fuel := by
          rw [List.length_append]
          omega
        obtain ⟨hqueue, habove⟩ := ih hrest
        have hfound : ∀ c, r.find? name = some c →
            c ∈ info :: r.walk fuel (name :: seen) (queue ++ info.parents) := fun c hc => by
          simp [← Option.some.inj (hfind.symm.trans hc)]
        have hrest := fun c (hc : c ∈ r.walk fuel (name :: seen) (queue ++ info.parents)) =>
          List.mem_cons_of_mem info hc
        dsimp only
        refine ⟨List.forall_mem_cons.2 ⟨.inr hfound, fun n hn => ?_⟩,
          List.forall_mem_cons.2 ⟨fun n hn => ?_, fun c hc n hn => ?_⟩⟩
        · exact (hqueue n (List.mem_append_left _ hn)).widen hfound hrest
        · exact (hqueue n (List.mem_append_right _ hn)).widen hfound hrest
        · exact (habove c hc n hn).widen hfound hrest

/-- The lineage of a class holds every class that can be reached from it, and no other. -/
theorem mem_lineage : c ∈ r.lineage sub ↔ ∃ name, ReflTransGen r.Extends sub name ∧ r.find? name = some c := by
  constructor
  · intro hc
    obtain ⟨first, hfirst, name, hpath, hfind⟩ := mem_walk hc
    obtain rfl := List.mem_singleton.1 hfirst
    exact ⟨name, hpath, hfind⟩
  · rintro ⟨name, hpath, hfind⟩
    have hfuel : [sub].length + ahead [] r.classes.entries ≤ r.edges + 2 := by
      simp [ahead, edges, List.sum]
      omega
    obtain ⟨hqueue, habove⟩ := walk_visits hfuel
    have hvisited : r.Visited [] (r.walk (r.edges + 2) [] [sub]) name := by
      clear hfind
      induction hpath with
      | refl => exact hqueue sub (List.mem_singleton_self _)
      | tail _ hedge ih =>
        obtain ⟨info, hinfo, hparent⟩ := hedge
        exact habove info ((ih.resolve_left List.not_mem_nil) info hinfo) _ hparent
    exact (hvisited.resolve_left List.not_mem_nil) c hfind

end Walk

/-! ### The subtype test -/

/-- The root class is at the top: it has no superclass and no interface. -/
def Rooted (r : Registry) : Prop := ∀ c, r.find? Names.object = some c → c.parents = []

section Order

variable {r : Registry} {a b c : String}

/-- The subtype test is reachability, with the root class above everything. -/
theorem isSubclass_iff : r.isSubclass a b = true ↔ a = b ∨ b = Names.object ∨ TransGen r.Extends a b := by
  have hpath : ((r.lineage a).any fun c => c.parents.contains b) = true ↔ TransGen r.Extends a b := by
    simp only [List.any_eq_true, mem_lineage, List.contains_iff_mem, Relation.TransGen.tail'_iff]
    constructor
    · rintro ⟨info, ⟨name, hpath, hfind⟩, hparent⟩
      exact ⟨name, hpath, info, hfind, hparent⟩
    · rintro ⟨name, hpath, info, hfind, hparent⟩
      exact ⟨info, ⟨name, hpath, hfind⟩, hparent⟩
  rw [isSubclass, Bool.or_eq_true, Bool.or_eq_true, beq_iff_eq, beq_iff_eq, hpath, or_assoc]

@[simp] theorem isSubclass_self (r : Registry) (a : String) : r.isSubclass a a = true := by
  simp [isSubclass]

@[simp] theorem isSubclass_object (r : Registry) (a : String) : r.isSubclass a Names.object = true := by
  simp [isSubclass]

theorem Rooted.eq_object (hr : r.Rooted) (h : r.isSubclass Names.object b = true) : b = Names.object := by
  rcases isSubclass_iff.1 h with rfl | hb | hpath
  · rfl
  · exact hb
  · obtain ⟨_, ⟨info, hinfo, hparent⟩, -⟩ := Relation.TransGen.head'_iff.1 hpath
    rw [hr info hinfo] at hparent
    cases hparent

theorem isSubclass_trans (hr : r.Rooted) (h : r.isSubclass a b = true) (h' : r.isSubclass b c = true) :
    r.isSubclass a c = true := by
  rcases isSubclass_iff.1 h with rfl | rfl | hab
  · exact h'
  · rw [hr.eq_object h']
    exact isSubclass_object r a
  · rcases isSubclass_iff.1 h' with rfl | rfl | hbc
    · exact h
    · exact isSubclass_object r a
    · exact isSubclass_iff.2 (.inr (.inr (hab.trans hbc)))

/-- The classes are a hierarchy: nothing is above the root class, no two classes are below each other, and boxed
doubles are no boxed longs. -/
structure Layered (r : Registry) : Prop where
  rooted : r.Rooted
  antisymm : ∀ {a b : String}, r.isSubclass a b = true → r.isSubclass b a = true → a = b
  apart : r.isSubclass Names.double Names.long = false

/-- Classes that can be numbered downwards from their parents are a hierarchy. -/
theorem layered_of_ranked (rank : String → Nat) (hrank : ∀ a b, r.Extends a b → rank b < rank a) (hr : r.Rooted)
    (hapart : r.isSubclass Names.double Names.long = false) : r.Layered where
  rooted := hr
  apart := hapart
  antisymm := by
    have hdown : ∀ {a b : String}, TransGen r.Extends a b → rank b < rank a := by
      intro a b hpath
      induction hpath with
      | single h => exact hrank _ _ h
      | tail _ h ih => exact Nat.lt_trans (hrank _ _ h) ih
    intro a b hab hba
    rcases isSubclass_iff.1 hab with rfl | rfl | hup
    · rfl
    · exact hr.eq_object hba
    · rcases isSubclass_iff.1 hba with rfl | rfl | hback
      · rfl
      · exact (hr.eq_object hab).symm
      · exact absurd (Nat.lt_trans (hdown hup) (hdown hback)) (Nat.lt_irrefl _)

end Order

end Registry

theorem Table.mem_of_lookup {α β : Type} [DecidableEq α] {k : α} {v : β} {entries : List (α × β)}
    (h : Table.lookup k entries = some v) : (k, v) ∈ entries := by
  induction entries with
  | nil => cases h
  | cons e rest ih =>
    by_cases hkey : e.1 = k
    · rw [Table.lookup, if_pos hkey] at h
      cases h
      rw [← hkey]
      exact List.mem_cons_self ..
    · rw [Table.lookup, if_neg hkey] at h
      exact List.mem_cons_of_mem _ (ih h)

/-- The built-in classes are listed behind their parents. -/
theorem Host.registry_layered : Host.registry.Layered := by
  obtain ⟨hordered, hparents, hapart⟩ :
      Host.registry.classes.entries.all (fun e => e.2.parents.all fun p =>
          (Host.classes.map ClassInfo.name).idxOf p < (Host.classes.map ClassInfo.name).idxOf e.1) = true ∧
        (Host.registry.find? Names.object).map ClassInfo.parents = some [] ∧
          Host.registry.isSubclass Names.double Names.long = false := by
    decide +kernel
  refine Registry.layered_of_ranked (Host.classes.map ClassInfo.name).idxOf (fun a b hab => ?_) (fun c hc => ?_) hapart
  · obtain ⟨c, hc, hb⟩ := hab
    have hall := List.all_eq_true.1 hordered _ (Table.mem_of_lookup hc)
    simpa using List.all_eq_true.1 hall b hb
  · rw [hc] at hparents
    exact Option.some.inj hparents

/-! ### Assignability -/

namespace Ty

variable {r : Registry} {a b c : Ty}

@[simp] theorem isAssignable_self (r : Registry) (a : Ty) : a.isAssignable r a = true := by
  simp [isAssignable]

@[simp] theorem isAssignable_cls (r : Registry) (sup sub : String) :
    (Ty.cls sup).isAssignable r (.cls sub) = r.isSubclass sub sup := by
  by_cases h : sup = sub <;> simp [isAssignable, h]

/-- What is assignable to what: a type to itself, references to the unknown type, anything unknown to the root class,
and a class to those above it. -/
theorem isAssignable_cases (h : a.isAssignable r b = true) :
    a = b ∨ (a = .any ∧ ∃ name, b = .cls name) ∨ (a = .object ∧ b = .any) ∨
      ∃ sup sub, a = .cls sup ∧ b = .cls sub ∧ r.isSubclass sub sup = true := by
  unfold isAssignable at h
  split at h
  · exact .inl ‹_›
  split at h
  · cases h
  · cases h
  · exact .inr (.inl ⟨rfl, _, rfl⟩)
  · cases h
  · exact .inr (.inr (.inl ⟨congrArg Ty.cls (eq_of_beq h), rfl⟩))
  · exact .inr (.inr (.inr ⟨_, _, rfl, rfl, h⟩))
  · cases h

theorem isAssignable_trans (hr : r.Rooted) (h : a.isAssignable r b = true) (h' : b.isAssignable r c = true) :
    a.isAssignable r c = true := by
  rcases isAssignable_cases h with rfl | ⟨rfl, name, rfl⟩ | ⟨rfl, rfl⟩ | ⟨sup, sub, rfl, rfl, hsub⟩
  · exact h'
  · rcases isAssignable_cases h' with rfl | ⟨heq, -⟩ | ⟨-, rfl⟩ | ⟨_, _, -, rfl, -⟩
    · exact h
    · cases heq
    · exact isAssignable_self r .any
    · rfl
  · rcases isAssignable_cases h' with rfl | ⟨-, name, rfl⟩ | ⟨heq, -⟩ | ⟨_, _, heq, -⟩
    · exact h
    · simp [object]
    · cases heq
    · cases heq
  · rcases isAssignable_cases h' with rfl | ⟨heq, -⟩ | ⟨heq, rfl⟩ | ⟨mid, low, heq, rfl, hlow⟩
    · exact h
    · cases heq
    · cases heq
      rw [hr.eq_object hsub]
      exact h'
    · cases heq
      rw [isAssignable_cls]
      exact Registry.isSubclass_trans hr hlow hsub

end Ty

/-! ### Values of a type -/

/-- A value has a static type: an unboxed one its own kind, and a reference to a class is `nil` or an instance.
Nothing is of type `void`. -/
def Conforms (r : Registry) (v : Value) : Ty → Prop
  | .any => True
  | .void => False
  | .prim .boolean => ∃ b, v = .bool b
  | .prim .char => ∃ c, v = .char c
  | .prim .long => ∃ n, v = .int n
  | .prim .double => ∃ x, v = .float x
  | .cls name => v = .nil ∨ r.instanceOf v name = true

namespace Conforms

variable {r : Registry} {v : Value} {source target : Ty}

theorem className? {p : Prim} (h : Conforms r v (.prim p)) : v.className? = some p.wrapper := by
  cases p <;> obtain ⟨x, rfl⟩ := h <;> rfl

theorem object (r : Registry) (v : Value) : Conforms r v .object := by
  cases hclass : v.className? with
  | none =>
    cases v with
    | nil => exact .inl rfl
    | _ => cases hclass
  | some name => exact .inr (by simp [Registry.instanceOf, hclass])

/-- A value of a type is one of every type that needs no conversion. -/
theorem assign (hr : r.Rooted) (hassign : target.isAssignable r source = true) (h : Conforms r v source) :
    Conforms r v target := by
  rcases Ty.isAssignable_cases hassign with rfl | ⟨rfl, -⟩ | ⟨rfl, -⟩ | ⟨sup, sub, rfl, rfl, hsub⟩
  · exact h
  · trivial
  · exact object r v
  · refine h.imp_right fun hinstance => ?_
    unfold Registry.instanceOf at hinstance ⊢
    split at hinstance
    · exact Registry.isSubclass_trans hr hinstance hsub
    · cases hinstance

end Conforms

end LispMachine
