import Mathlib.Order.Lattice.Nat
import LispMachine.Proofs.Registry.FieldLookup

/-! # Method lookup along the hierarchy

The methods of a name are collected breadth first, each class once, and the first declaration of a signature is the one
that is listed.  Leaving out the classes that came up before changes no first hit (`findSome?_walk`), so the lookup
goes through the hierarchy level by level, and a superclass is the first of its level (`level_head`).

The entry of a signature is therefore a declaration at least depth, and it is the nearest implementation along the
superclasses where no class at a smaller depth declares the signature, be it only as an interface
(`findMethods_nearest`). -/

namespace LispMachine

/-- The first instance method of a class with the name and the signature. -/
def ClassInfo.declaration? (c : ClassInfo) (name : String) (sig : Method) : Option Method :=
  c.methods.find? fun m => m.name == name && m.isStatic == false && m.sameParams sig

namespace Method

theorem sameParams_iff {m n : Method} :
    m.sameParams n = true ↔ m.params = n.params ∧ m.isVariadic = n.isVariadic := by
  simp [sameParams]

/-- Methods of one signature have it in common with the same methods. -/
theorem sameParams_congr {m n : Method} (h : m.sameParams n = true) (k : Method) :
    k.sameParams m = k.sameParams n := by
  obtain ⟨hparams, hvariadic⟩ := sameParams_iff.1 h
  rw [sameParams, sameParams, hparams, hvariadic]

end Method

namespace Registry

variable {r : Registry} {cls name : String} {sig : Method}

/-! ### Levels of the hierarchy -/

/-- `n` steps of a relation between classes. -/
inductive Path (rel : String → String → Prop) : Nat → String → String → Prop
  | refl {a : String} : Path rel 0 a a
  | tail {n : Nat} {a b c : String} : Path rel n a b → rel b c → Path rel (n + 1) a c

/-- The parents of the class under a name. -/
def parentsOf (r : Registry) (name : String) : List String :=
  match r.find? name with
  | some c => c.parents
  | none => []

/-- The names reached in so many steps, in the order of the lookup. -/
def level (r : Registry) (cls : String) : Nat → List String
  | 0 => [cls]
  | n + 1 => (r.level cls n).flatMap r.parentsOf

/-- The breadth-first order with every repetition left in. -/
def roam (r : Registry) : Nat → List String → List String
  | 0, _ => []
  | _ + 1, [] => []
  | n + 1, name :: queue => name :: r.roam n (queue ++ r.parentsOf name)

theorem mem_parentsOf {a b : String} : b ∈ r.parentsOf a ↔ r.Extends a b := by
  unfold parentsOf Extends
  cases r.find? a <;> simp

theorem mem_level {n : Nat} {a : String} : a ∈ r.level cls n ↔ Path r.Extends n cls a := by
  induction n generalizing a with
  | zero =>
    rw [level, List.mem_singleton]
    constructor
    · rintro rfl
      exact .refl
    · rintro ⟨⟩
      rfl
  | succ n ih =>
    simp only [level, List.mem_flatMap, mem_parentsOf, ih]
    constructor
    · rintro ⟨b, hpath, hedge⟩
      exact hpath.tail hedge
    · rintro ⟨⟩
      exact ⟨_, ‹_›, ‹_›⟩

/-- The class so many superclasses up comes first on its level. -/
theorem level_head {n : Nat} {a : String} (h : Path r.Inherits n cls a) : ∃ rest, r.level cls n = a :: rest := by
  induction h with
  | refl => exact ⟨[], rfl⟩
  | @tail n low a sup _ hedge ih =>
    obtain ⟨rest, hrest⟩ := ih
    obtain ⟨c, hc, hsup⟩ := hedge
    have hparents : r.parentsOf a = sup :: c.interfaces := by simp [parentsOf, hc, ClassInfo.parents, hsup]
    exact ⟨c.interfaces ++ rest.flatMap r.parentsOf, by rw [level, hrest, List.flatMap_cons, hparents]; rfl⟩

theorem roam_append (n : Nat) (xs ys : List String) :
    r.roam (xs.length + n) (xs ++ ys) = xs ++ r.roam n (ys ++ xs.flatMap r.parentsOf) := by
  induction xs generalizing ys with
  | nil => simp
  | cons x xs ih =>
    rw [List.length_cons, Nat.add_right_comm, List.cons_append, roam, List.append_assoc, ih]
    simp

/-- The breadth-first order is level by level. -/
theorem roam_levels (n m : Nat) :
    r.roam (((List.range n).flatMap (r.level cls)).length + m) [cls] =
      (List.range n).flatMap (r.level cls) ++ r.roam m (r.level cls n) := by
  induction n generalizing m with
  | zero => simp [level]
  | succ n ih =>
    have hlevel := r.roam_append m (r.level cls n) []
    rw [List.append_nil, List.nil_append] at hlevel
    rw [List.range_succ, List.flatMap_append, List.flatMap_singleton, List.length_append, Nat.add_assoc, ih, hlevel,
      List.append_assoc]
    rfl

/-! ### First hits of the walk -/

/-- The first list is the second without names that stand in `seen` or earlier in the list. -/
inductive Thins : List String → List String → List String → Prop
  | nil {seen : List String} : Thins seen [] []
  | keep {seen queue all : List String} {name : String} :
      Thins (name :: seen) queue all → Thins seen (name :: queue) (name :: all)
  | drop {seen queue all : List String} {name : String} :
      name ∈ seen → Thins seen queue all → Thins seen queue (name :: all)

namespace Thins

variable {seen seen' queue all : List String}

theorem mono (h : Thins seen queue all) (hseen : ∀ a ∈ seen, a ∈ seen') : Thins seen' queue all := by
  induction h generalizing seen' with
  | nil => exact .nil
  | keep _ ih =>
    refine .keep (ih (List.forall_mem_cons.2 ⟨List.mem_cons_self .., fun a ha => ?_⟩))
    exact List.mem_cons_of_mem _ (hseen a ha)
  | drop hname _ ih => exact .drop (hseen _ hname) (ih hseen)

theorem refl (seen queue : List String) : Thins seen queue queue := by
  induction queue generalizing seen with
  | nil => exact .nil
  | cons name queue ih => exact .keep (ih _)

/-- Both lists grow alike. -/
theorem append (h : Thins seen queue all) (names : List String) : Thins seen (queue ++ names) (all ++ names) := by
  induction h with
  | nil => exact refl _ names
  | keep _ ih => exact .keep ih
  | drop hname _ ih => exact .drop hname ih

/-- Names that are seen or queued are left out behind the queue. -/
theorem append_known (h : Thins seen queue all) {names : List String} (hnames : ∀ a ∈ names, a ∈ seen ∨ a ∈ queue) :
    Thins seen queue (all ++ names) := by
  induction h with
  | nil =>
    rw [List.nil_append]
    induction names with
    | nil => exact .nil
    | cons name names ih =>
      obtain ⟨hname, hnames⟩ := List.forall_mem_cons.1 hnames
      exact .drop (hname.resolve_right List.not_mem_nil) (ih hnames)
  | @keep seen queue all name _ ih =>
    refine .keep (ih fun a ha => ?_)
    rcases hnames a ha with hseen | hqueue
    · exact .inl (List.mem_cons_of_mem _ hseen)
    · exact (List.mem_cons.1 hqueue).imp_left (by rintro rfl; exact List.mem_cons_self ..)
  | drop hname _ ih => exact .drop hname (ih hnames)

end Thins

section FirstHit

variable {β : Type} {hit : ClassInfo → Option β} {y : β}

/-- The names seen have no hit, and their parents are seen or queued. -/
def Scanned (r : Registry) (hit : ClassInfo → Option β) (seen queue : List String) : Prop :=
  ∀ a ∈ seen, (r.find? a).bind hit = none ∧ ∀ b ∈ r.parentsOf a, b ∈ seen ∨ b ∈ queue

namespace Scanned

variable {seen queue : List String} {name : String}

/-- A name that was seen before leaves the queue. -/
theorem again (h : r.Scanned hit seen (name :: queue)) (hname : name ∈ seen) : r.Scanned hit seen queue := by
  refine fun a ha => ⟨(h a ha).1, fun b hb => ?_⟩
  rcases (h a ha).2 b hb with hseen | hqueue
  · exact .inl hseen
  · exact (List.mem_cons.1 hqueue).imp_left (by rintro rfl; exact hname)

/-- A name without a hit is visited. -/
theorem visit (h : r.Scanned hit seen (name :: queue)) (hmiss : (r.find? name).bind hit = none) :
    r.Scanned hit (name :: seen) (queue ++ r.parentsOf name) := by
  refine List.forall_mem_cons.2 ⟨⟨hmiss, fun b hb => .inr (List.mem_append_right _ hb)⟩, fun a ha => ⟨(h a ha).1, ?_⟩⟩
  intro b hb
  rcases (h a ha).2 b hb with hseen | hqueue
  · exact .inl (List.mem_cons_of_mem _ hseen)
  · rcases List.mem_cons.1 hqueue with rfl | hqueue
    · exact .inl (List.mem_cons_self ..)
    · exact .inr (List.mem_append_left _ hqueue)

end Scanned

/-- The walk finds what is found first when nothing is left out: what is left out is no hit, and what is above it is
seen or queued already. -/
theorem findSome?_walk {n fuel : Nat} {seen queue all : List String} (hthin : Thins seen queue all)
    (hseen : r.Scanned hit seen queue) (hfuel : queue.length + ahead seen r.classes.entries ≤ fuel)
    (hhit : (r.roam n all).findSome? (fun a => (r.find? a).bind hit) = some y) :
    (r.walk fuel seen queue).findSome? hit = some y := by
  induction n generalizing fuel seen queue all with
  | zero => cases hhit
  | succ n ih =>
    cases hthin with
    | nil => cases hhit
    | @drop _ _ all name hname hrest =>
      obtain ⟨hmiss, hparents⟩ := hseen name hname
      rw [roam, List.findSome?_cons_of_isNone (by rw [hmiss]; rfl)] at hhit
      exact ih (hrest.append_known hparents) hseen hfuel hhit
    | @keep _ queue all name hrest =>
      rw [List.length_cons] at hfuel
      obtain ⟨fuel, rfl⟩ : ∃ k, fuel = k + 1 := ⟨fuel - 1, by omega⟩
      rw [walk]
      split
      · -- a name that comes up again: its parents have been queued before
        have hname : name ∈ seen := by simpa using ‹seen.contains name = true›
        have hagain := hseen.again hname
        obtain ⟨hmiss, hparents⟩ := hagain name hname
        have hthin : Thins seen queue all := hrest.mono (List.forall_mem_cons.2 ⟨hname, fun _ => id⟩)
        rw [roam, List.findSome?_cons_of_isNone (by rw [hmiss]; rfl)] at hhit
        exact ih (hthin.append_known hparents) hagain (by omega) hhit
      · have hname : name ∉ seen := by simpa using ‹¬seen.contains name = true›
        have hthin : Thins (name :: seen) (queue ++ r.parentsOf name) (all ++ r.parentsOf name) := hrest.append _
        cases hfind : r.find? name with
        | none =>
          have hparents : r.parentsOf name = [] := by rw [parentsOf, hfind]
          have hmiss : (r.find? name).bind hit = none := by rw [hfind, Option.bind_none]
          have hvisit := hseen.visit hmiss
          have hless := ahead_cons_le name seen r.classes.entries
          rw [roam, List.findSome?_cons_of_isNone (by rw [hmiss]; rfl)] at hhit
          simp only [hparents, List.append_nil] at hvisit hthin hhit
          exact ih hthin hvisit (by omega) hhit
        | some c =>
          have hparents : r.parentsOf name = c.parents := by rw [parentsOf, hfind]
          have hbind : (r.find? name).bind hit = hit c := by rw [hfind, Option.bind_some]
          dsimp only
          cases hc : hit c with
          | some z =>
            rw [roam, List.findSome?_cons, hbind, hc] at hhit
            rw [List.findSome?_cons, hc]
            exact hhit
          | none =>
            have hvisit := hseen.visit (hbind.trans hc)
            have hless := ahead_of_lookup hname hfind
            rw [roam, List.findSome?_cons_of_isNone (by rw [hbind, hc]; rfl)] at hhit
            rw [List.findSome?_cons_of_isNone (by rw [hc]; rfl)]
            rw [hparents] at hvisit hthin hhit
            exact ih hthin hvisit (by rw [List.length_append]; omega) hhit

/-- The first hit of the lineage is the first one level by level. -/
theorem findSome?_lineage (n : Nat)
    (hhit : ((List.range n).flatMap (r.level cls)).findSome? (fun a => (r.find? a).bind hit) = some y) :
    (r.lineage cls).findSome? hit = some y := by
  have hroam : r.roam (_ + 0) [cls] = _ := r.roam_levels n 0
  rw [roam, List.append_nil] at hroam
  rw [← hroam] at hhit
  exact findSome?_walk (.refl [] [cls]) (by simp [Scanned]) (by simp [ahead, edges, List.sum]; omega) hhit

end FirstHit

/-! ### The entry of a signature -/

/-- A declaration of a signature is added unless there is one. -/
theorem filter_foldl_methods (c : ClassInfo) (methods : List Method) (found : List Candidate) :
    (methods.foldl (fun found m => if found.any fun f => f.2.sameParams m then found else found ++ [(c, m)])
        found).filter (fun f => f.2.sameParams sig) =
      if found.any fun f => f.2.sameParams sig then found.filter fun f => f.2.sameParams sig
      else ((methods.find? fun m => m.sameParams sig).map (Prod.mk c)).toList := by
  induction methods generalizing found with
  | nil =>
    split
    · rfl
    · rename_i hnone
      simpa [List.filter_eq_nil_iff] using hnone
  | cons m methods ih =>
    rw [List.foldl_cons, ih]
    cases hm : m.sameParams sig with
    | true =>
      simp only [Method.sameParams_congr hm, List.find?_cons, hm]
      by_cases hany : (found.any fun f => f.2.sameParams sig) = true
      · simp [hany]
      · have hfilter : (found.filter fun f => f.2.sameParams sig) = [] := by
          simpa [List.filter_eq_nil_iff] using hany
        simp [hany, hm, hfilter]
    | false =>
      rw [List.find?_cons, hm]
      split <;> simp only [List.any_append, List.filter_append, List.any_cons, List.any_nil, List.filter_cons,
        List.filter_nil, hm, Bool.or_false, Bool.false_eq_true, if_false, List.append_nil]

theorem filter_addMethods (c : ClassInfo) (found : List Candidate) :
    (addMethods name false found c).filter (fun f => f.2.sameParams sig) =
      if found.any fun f => f.2.sameParams sig then found.filter fun f => f.2.sameParams sig
      else ((c.declaration? name sig).map (Prod.mk c)).toList := by
  rw [addMethods, filter_foldl_methods, List.find?_filter]
  simp only [ClassInfo.declaration?, Bool.decide_and, Bool.decide_eq_true]

theorem filter_foldl_classes (classes : List ClassInfo) (found : List Candidate) :
    (classes.foldl (addMethods name false) found).filter (fun f => f.2.sameParams sig) =
      if found.any fun f => f.2.sameParams sig then found.filter fun f => f.2.sameParams sig
      else (classes.findSome? fun c => (c.declaration? name sig).map (Prod.mk c)).toList := by
  induction classes generalizing found with
  | nil =>
    split
    · rfl
    · rename_i hnone
      simpa [List.filter_eq_nil_iff] using hnone
  | cons c classes ih =>
    have hadd : (addMethods name false found c).filter (fun f => f.2.sameParams sig) = _ := filter_addMethods c found
    have hany : ((addMethods name false found c).any fun f => f.2.sameParams sig) =
        !((addMethods name false found c).filter fun f => f.2.sameParams sig).isEmpty := by
      rw [Bool.eq_iff_iff]
      simp [List.filter_eq_nil_iff]
    rw [List.foldl_cons, ih, hany, hadd, List.findSome?_cons]
    by_cases hfound : (found.any fun f => f.2.sameParams sig) = true
    · have hsome : (found.filter fun f => f.2.sameParams sig).isEmpty = false := by
        simpa [List.isEmpty_eq_false_iff] using hfound
      simp [hfound, hsome]
    · cases c.declaration? name sig <;> simp [hfound]

/-- The entry of a signature is its first declaration along the lineage. -/
theorem filter_findMethods :
    (r.findMethods cls name false).filter (fun f => f.2.sameParams sig) =
      ((r.lineage cls).findSome? fun c => (c.declaration? name sig).map (Prod.mk c)).toList :=
  filter_foldl_classes (r.lineage cls) []

/-- A class so many steps above, along superclasses or interfaces, declares the signature. -/
def Declares (r : Registry) (cls name : String) (sig : Method) (n : Nat) (c : ClassInfo) : Prop :=
  ∃ a, Path r.Extends n cls a ∧ r.find? a = some c ∧ (c.declaration? name sig).isSome

/-- The nearest class along the superclasses that implements a signature: it is `d` superclasses up, and the classes
before it have no implementation. -/
structure Implementation (r : Registry) (cls name : String) (sig : Method) (d : Nat) (k : ClassInfo) (m : Method) :
    Prop where
  above : ∃ a, Path r.Inherits d cls a ∧ r.find? a = some k
  declared : k.declaration? name sig = some m
  concrete : m.isAbstract = false
  nearest : ∀ n < d, ∀ a c m', Path r.Inherits n cls a → r.find? a = some c → c.declaration? name sig = some m' →
    m'.isAbstract = true

theorem Path.extends {n : Nat} {a b : String} (h : Path r.Inherits n a b) : Path r.Extends n a b := by
  induction h with
  | refl => exact .refl
  | tail _ hedge ih => exact ih.tail hedge.extends

/-- A hit among the first levels is a declaration of that depth. -/
theorem declares_of_findSome? {n : Nat} {f : Candidate}
    (h : ((List.range n).flatMap (r.level cls)).findSome?
      (fun a => (r.find? a).bind fun c => (c.declaration? name sig).map (Prod.mk c)) = some f) :
    f.1.declaration? name sig = some f.2 ∧ ∃ i < n, r.Declares cls name sig i f.1 := by
  obtain ⟨a, ha, hhit⟩ := List.exists_of_findSome?_eq_some h
  obtain ⟨i, hi, hlevel⟩ := List.mem_flatMap.1 ha
  obtain ⟨c, hc, hmap⟩ := Option.bind_eq_some_iff.1 hhit
  obtain ⟨m, hm, rfl⟩ := Option.map_eq_some_iff.1 hmap
  exact ⟨hm, i, List.mem_range.1 hi, a, mem_level.1 hlevel, hc, by simp [hm]⟩

/-- Where a signature is declared somewhere above, it has one entry, and no declaration is nearer than that one. -/
theorem exists_entry (h : ∃ n c, r.Declares cls name sig n c) :
    ∃ k m i, (r.findMethods cls name false).filter (fun f => f.2.sameParams sig) = [(k, m)] ∧
      k.declaration? name sig = some m ∧ r.Declares cls name sig i k ∧
      ∀ n c, r.Declares cls name sig n c → i ≤ n := by
  classical
  obtain ⟨c, a, hpath, hc, hdecl⟩ := Nat.find_spec h
  obtain ⟨m, hm⟩ := Option.isSome_iff_exists.1 hdecl
  have hmem : a ∈ (List.range (Nat.find h + 1)).flatMap (r.level cls) :=
    List.mem_flatMap.2 ⟨Nat.find h, List.mem_range.2 (Nat.lt_succ_self _), mem_level.2 hpath⟩
  have hsome : (((List.range (Nat.find h + 1)).flatMap (r.level cls)).findSome?
      (fun a => (r.find? a).bind fun c => (c.declaration? name sig).map (Prod.mk c))).isSome :=
    List.findSome?_isSome_iff.2 ⟨a, hmem, by simp [hc, hm]⟩
  obtain ⟨f, hf⟩ := Option.isSome_iff_exists.1 hsome
  obtain ⟨hentry, i, hi, hdeclares⟩ := declares_of_findSome? hf
  refine ⟨f.1, f.2, i, by rw [filter_findMethods, findSome?_lineage _ hf]; rfl, hentry, hdeclares, fun n c hn => ?_⟩
  have hleast : Nat.find h ≤ n := Nat.find_min' h ⟨c, hn⟩
  omega

/-- The nearest implementation along the superclasses is the entry of its signature where no other class at a smaller
depth declares the signature; in every case the entry is a declaration at least depth. -/
theorem findMethods_nearest {d : Nat} {k : ClassInfo} {m : Method} (h : r.Implementation cls name sig d k m) :
    ((∀ n < d, ∀ c, r.Declares cls name sig n c → c = k) →
      (r.findMethods cls name false).filter (fun f => f.2.sameParams sig) = [(k, m)]) ∧
    ∃ k' m' i, (r.findMethods cls name false).filter (fun f => f.2.sameParams sig) = [(k', m')] ∧
      k'.declaration? name sig = some m' ∧ r.Declares cls name sig i k' ∧
      ∀ n c, r.Declares cls name sig n c → i ≤ n := by
  obtain ⟨a, hpath, hk⟩ := h.above
  refine ⟨fun halone => ?_, exists_entry ⟨d, k, a, hpath.extends, hk, by simp [h.declared]⟩⟩
  obtain ⟨rest, hrest⟩ := level_head hpath
  have hfirst : ((List.range (d + 1)).flatMap (r.level cls)).findSome?
      (fun a => (r.find? a).bind fun c => (c.declaration? name sig).map (Prod.mk c)) = some (k, m) := by
    rw [List.range_succ, List.flatMap_append, List.flatMap_singleton, List.findSome?_append, hrest, List.findSome?_cons]
    cases hbefore : ((List.range d).flatMap (r.level cls)).findSome?
        (fun a => (r.find? a).bind fun c => (c.declaration? name sig).map (Prod.mk c)) with
    | none => simp [hk, h.declared]
    | some f =>
      obtain ⟨hentry, i, hi, hdeclares⟩ := declares_of_findSome? hbefore
      obtain rfl := halone i hi f.1 hdeclares
      obtain rfl : f.2 = m := Option.some.inj (hentry.symm.trans h.declared)
      rfl
  rw [filter_findMethods, findSome?_lineage _ hfirst]
  rfl

end Registry

/-! ### An interface that declares an inherited method -/

/-- The built-in classes, an interface with a method `getMessage`, and a class that extends the given one and implements
the interface. -/
def Host.withMessage (superclass : String) : Registry :=
  let messageInterface : ClassInfo :=
    { named "t.Message" with
      flags := { isInterface := true, isAbstract := true }
      methods := [{ owner := "t.Message", name := "getMessage", params := [], ret := .any, body := .abstract }] }
  { registry with
    classes := (registry.classes.insert "t.Message" messageInterface).insert "t.Sub"
      { below superclass (named "t.Sub") with interfaces := ["t.Message"] } }

/-- The message of an exception. -/
def Host.messageMethod : Method :=
  { owner := Names.exception, name := "getMessage", params := [], ret := .string, body := .host .message }

namespace Registry

variable {r : Registry} {cls name : String} {sig : Method}

/-- In the first levels above the class the method is declared at most. -/
def onlyDeclared (r : Registry) (cls name : String) (sig : Method) (levels : Nat) : Bool :=
  ((List.range levels).flatMap (r.level cls)).all fun a =>
    ((r.find? a).bind fun c => c.declaration? name sig).all Method.isAbstract

/-- An implementation above classes that at most declare the method. -/
theorem implementation_of_levels {d : Nat} {a : String} {k : ClassInfo} {m : Method} (hpath : Path r.Inherits d cls a)
    (hk : r.find? a = some k) (hm : k.declaration? name sig = some m) (hconcrete : m.isAbstract = false)
    (hbefore : r.onlyDeclared cls name sig d = true) :
    r.Implementation cls name sig d k m where
  above := ⟨a, hpath, hk⟩
  declared := hm
  concrete := hconcrete
  nearest n hn b c m' hlow hc hm' := by
    have hmem : b ∈ (List.range d).flatMap (r.level cls) :=
      List.mem_flatMap.2 ⟨n, List.mem_range.2 hn, mem_level.2 hlow.extends⟩
    simpa [hc, hm'] using List.all_eq_true.1 hbefore b hmem

/-- Directly above the class, the superclass comes before the interface. -/
theorem findMethods_nearest_message : ∃ k,
    (Host.withMessage Names.exception).Implementation "t.Sub" "getMessage" Host.messageMethod 1 k Host.messageMethod ∧
      ((Host.withMessage Names.exception).findMethods "t.Sub" "getMessage" false).filter
        (fun f => f.2.sameParams Host.messageMethod) = [(k, Host.messageMethod)] := by
  -- The facts about the classes are decided together, so that the classes are registered once.
  obtain ⟨hdecl, hinherits, hnone, hbefore⟩ :
      ((Host.withMessage Names.exception).find? Names.exception).bind
          (fun k => k.declaration? "getMessage" Host.messageMethod) = some Host.messageMethod ∧
        ((Host.withMessage Names.exception).find? "t.Sub").bind ClassInfo.superclass = some Names.exception ∧
          ((Host.withMessage Names.exception).find? "t.Sub").bind
              (fun c => c.declaration? "getMessage" Host.messageMethod) = none ∧
            (Host.withMessage Names.exception).onlyDeclared "t.Sub" "getMessage" Host.messageMethod 1 = true := by
    decide +kernel
  obtain ⟨k, hk, hm⟩ := Option.bind_eq_some_iff.1 hdecl
  have hpath : Path (Host.withMessage Names.exception).Inherits 1 "t.Sub" Names.exception :=
    .tail .refl (inherits_iff.2 hinherits)
  have himpl := implementation_of_levels hpath hk hm rfl hbefore
  refine ⟨k, himpl, (findMethods_nearest himpl).1 fun n hn c hdeclares => ?_⟩
  obtain rfl : n = 0 := by omega
  obtain ⟨a, ⟨⟩, hc, hsome⟩ := hdeclares
  rw [hc, Option.bind_some] at hnone
  rw [hnone] at hsome
  cases hsome

/-- Two superclasses up, the implementation comes behind the declaration of the interface. -/
theorem findMethods_hidden_message : (Host.withMessage Names.linkageError).Acyclic ∧ ∃ k,
    (Host.withMessage Names.linkageError).Implementation "t.Sub" "getMessage" Host.messageMethod 2 k
        Host.messageMethod ∧
      ((Host.withMessage Names.linkageError).findMethods "t.Sub" "getMessage" false).filter
        (fun f => f.2.sameParams Host.messageMethod) ≠ [(k, Host.messageMethod)] := by
  obtain ⟨hdecl, hinherits, habove, hbefore, howner⟩ :
      ((Host.withMessage Names.linkageError).find? Names.exception).bind
          (fun k => k.declaration? "getMessage" Host.messageMethod) = some Host.messageMethod ∧
        ((Host.withMessage Names.linkageError).find? "t.Sub").bind ClassInfo.superclass = some Names.linkageError ∧
          ((Host.withMessage Names.linkageError).find? Names.linkageError).bind ClassInfo.superclass =
              some Names.exception ∧
            (Host.withMessage Names.linkageError).onlyDeclared "t.Sub" "getMessage" Host.messageMethod 2 = true ∧
              (((Host.withMessage Names.linkageError).findMethods "t.Sub" "getMessage" false).filter
                (fun f => f.2.sameParams Host.messageMethod)).map (fun f => f.2.owner) = ["t.Message"] := by
    decide +kernel
  obtain ⟨k, hk, hm⟩ := Option.bind_eq_some_iff.1 hdecl
  have hlow : Path (Host.withMessage Names.linkageError).Inherits 1 "t.Sub" Names.linkageError :=
    .tail .refl (inherits_iff.2 hinherits)
  have hpath := hlow.tail (inherits_iff.2 habove)
  refine ⟨acyclic_of_ordered (by decide +kernel), k, implementation_of_levels hpath hk hm rfl hbefore,
    fun hentry => ?_⟩
  rw [hentry] at howner
  exact absurd (show [Names.exception] = ["t.Message"] from howner) (by decide)

end Registry

end LispMachine
