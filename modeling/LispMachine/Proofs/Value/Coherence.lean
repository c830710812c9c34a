import Mathlib.Data.List.Induction
import Mathlib.Data.List.Pairwise
import LispMachine.Proofs.Value.Equality

/-! # Equality and hashes together

Equality is symmetric and transitive, equal values have equal hashes, and a value without a number that is not one
equals itself (`eq_coherent`).  This is said of the values programs have: a map comes from the empty map by putting
entries in, a set from the empty set by putting members in (`Built`), and that is the same as being proper
(`built_iff_isProper`).

Maps and sets are kept in tables by the hashes of their keys, and such a table only compares a key with those it
keeps in the same place.  What it misses are keys that are equal and have another place; as equal keys have equal
hashes there are none, so the equality that goes through tables is the equality that goes through all entries
(`tableEq_eq`). -/

namespace LispMachine.Value

/-! ### Values equal to themselves -/

mutual
/-- What a value comes down to, collections being taken apart. -/
def leaves : Value → List Value
  | .list items => leavesOfAll items
  | .vector items => leavesOfAll items
  | .set items => leavesOfAll items
  | .map entries => leavesOfEntries entries
  | v => [v]
termination_by structural v => v

def leavesOfAll : List Value → List Value
  | [] => []
  | x :: xs => leaves x ++ leavesOfAll xs
termination_by structural xs => xs

def leavesOfEntries : List (Value × Value) → List Value
  | [] => []
  | (k, v) :: es => leaves k ++ leaves v ++ leavesOfEntries es
termination_by structural es => es
end

def isNaN : Value → Bool
  | .float x => x.isNaN
  | _ => false

/-- A number that is not one is in the value. -/
def hasNaN (v : Value) : Bool := v.leaves.any isNaN

theorem leavesOfAll_eq (xs : List Value) : leavesOfAll xs = xs.flatMap leaves := by
  induction xs with
  | nil => rfl
  | cons x xs ih => rw [leavesOfAll, ih, List.flatMap_cons]

theorem leavesOfEntries_eq (es : List (Value × Value)) :
    leavesOfEntries es = es.flatMap fun e => leaves e.1 ++ leaves e.2 := by
  induction es with
  | nil => rfl
  | cons e es ih => rw [leavesOfEntries, ih, List.flatMap_cons]

theorem mem_leaves_of_parts {v x y : Value} (hx : x ∈ v.parts) (hy : y ∈ x.leaves) : y ∈ v.leaves := by
  cases v with
  | list items | vector items | set items =>
    rw [leaves, leavesOfAll_eq]
    exact List.mem_flatMap.mpr ⟨x, hx, hy⟩
  | map entries =>
    obtain ⟨e, he, hxe⟩ := List.mem_flatMap.mp hx
    rw [leaves, leavesOfEntries_eq]
    refine List.mem_flatMap.mpr ⟨e, he, List.mem_append.mpr ?_⟩
    simp only [List.mem_cons, List.not_mem_nil, or_false] at hxe
    rcases hxe with rfl | rfl
    · exact .inl hy
    · exact .inr hy
  | _ => cases hx

theorem hasNaN_parts {v x : Value} (hv : v.hasNaN = false) (hx : x ∈ v.parts) : x.hasNaN = false :=
  List.any_eq_false.mpr fun y hy => List.any_eq_false.mp hv y (mem_leaves_of_parts hx hy)

theorem key_mem_parts {e : Value × Value} {es : List (Value × Value)} (he : e ∈ es) : e.1 ∈ (map es).parts :=
  List.mem_flatMap.mpr ⟨e, he, by simp⟩

theorem value_mem_parts {e : Value × Value} {es : List (Value × Value)} (he : e ∈ es) : e.2 ∈ (map es).parts :=
  List.mem_flatMap.mpr ⟨e, he, by simp⟩

/-- Only a number that is not one differs from itself. -/
theorem eq_refl_of_hasNaN {v : Value} (hv : v.hasNaN = false) : eq v v = true := by
  induction v using inductionOn_parts with
  | h v ih =>
    have hparts : ∀ x ∈ v.parts, eq x x = true := fun x hx => ih x hx (hasNaN_parts hv hx)
    cases v with
    | float x =>
      have hx : x.isNaN = false := by simpa [hasNaN, leaves, isNaN] using hv
      exact Double.eq_iff.mpr ⟨hx, hx, rfl⟩
    | list items | vector items =>
      rw [eq, eqs_iff]
      exact List.forall₂_same.mpr hparts
    | set items =>
      simp only [eq, beq_self_eq_true, Bool.true_and, eqMembers_iff]
      exact fun x hx => ⟨x, hx, hparts x hx⟩
    | map entries =>
      simp only [eq, beq_self_eq_true, Bool.true_and, eqEntries_iff]
      intro e he
      exact ⟨e, he, hparts e.1 (key_mem_parts he), hparts e.2 (value_mem_parts he)⟩
    | _ => simp [eq]

/-! ### The values programs have -/

/-- Values as they come about: maps and sets by putting something into a smaller one. -/
inductive Built : Value → Prop where
  | flat {v : Value} : v.parts = [] → Built v
  | list {items : List Value} : (∀ x ∈ items, Built x) → Built (.list items)
  | vector {items : List Value} : (∀ x ∈ items, Built x) → Built (.vector items)
  | entry {entries : List (Value × Value)} {k v : Value} :
    Built (.map entries) → Built k → Built v → Built (.map (insertEntry k v entries))
  | member {items : List Value} {x : Value} :
    Built (.set items) → Built x → Built (.set (insertMember x items))

theorem insertEntry_of_new {k v : Value} {es : List (Value × Value)} (h : ∀ e ∈ es, eq e.1 k = false) :
    insertEntry k v es = es ++ [(k, v)] := by
  induction es with
  | nil => rfl
  | cons e es ih =>
    obtain ⟨he, hes⟩ := List.forall_mem_cons.mp h
    have hne : ¬ (e.1 == k) = true := Bool.eq_false_iff.mp he
    rw [insertEntry, if_neg hne, ih hes, List.cons_append]

theorem insertMember_of_new {x : Value} {xs : List Value} (h : ∀ y ∈ xs, eq y x = false) :
    insertMember x xs = xs ++ [x] := by
  induction xs with
  | nil => rfl
  | cons y ys ih =>
    obtain ⟨hy, hys⟩ := List.forall_mem_cons.mp h
    have hne : ¬ (y == x) = true := Bool.eq_false_iff.mp hy
    rw [insertMember, if_neg hne, ih hys, List.cons_append]

/-- Different members are the members of the set that is made of them. -/
theorem setOf_of_distinct {xs : List Value} (h : xs.Pairwise fun x y => eq x y = false) : setOf xs = .set xs := by
  rw [setOf]
  congr 1
  induction xs using List.reverseRecOn with
  | nil => rfl
  | append_singleton xs x ih =>
    obtain ⟨hxs, -, hnew⟩ := List.pairwise_append.mp h
    rw [List.foldl_append, ih hxs, List.foldl_cons, List.foldl_nil]
    exact insertMember_of_new fun y hy => hnew y hy x List.mem_cons_self

/-- Entries with different keys are the entries of the map that is made of them. -/
theorem mapOf_of_distinct {es : List (Value × Value)} (h : es.Pairwise fun e f => eq e.1 f.1 = false) :
    mapOf es = .map es := by
  rw [mapOf]
  congr 1
  induction es using List.reverseRecOn with
  | nil => rfl
  | append_singleton es e ih =>
    obtain ⟨hes, -, hnew⟩ := List.pairwise_append.mp h
    rw [List.foldl_append, ih hes, List.foldl_cons, List.foldl_nil]
    exact insertEntry_of_new fun f hf => hnew f hf e List.mem_cons_self

theorem Built.setOf {xs : List Value} (h : ∀ x ∈ xs, Built x) : Built (setOf xs) := by
  have hfold : ∀ ys, Built (.set ys) → Built (.set (xs.foldl (fun ys x => insertMember x ys) ys)) := by
    induction xs with
    | nil => exact fun _ hys => hys
    | cons x xs ih =>
      obtain ⟨hx, hxs⟩ := List.forall_mem_cons.mp h
      exact fun ys hys => ih hxs _ (hys.member hx)
  exact hfold [] (.flat rfl)

theorem Built.mapOf {es : List (Value × Value)} (h : ∀ e ∈ es, Built e.1 ∧ Built e.2) : Built (mapOf es) := by
  have hfold : ∀ fs, Built (.map fs) → Built (.map (es.foldl (fun fs e => insertEntry e.1 e.2 fs) fs)) := by
    induction es with
    | nil => exact fun _ hfs => hfs
    | cons e es ih =>
      obtain ⟨he, hes⟩ := List.forall_mem_cons.mp h
      exact fun fs hfs => ih hes _ (hfs.entry he.1 he.2)
  exact hfold [] (.flat rfl)

theorem Built.isProper {v : Value} (h : Built v) : v.isProper = true := by
  induction h with
  | @flat v hv =>
    cases v with
    | list items | vector items | set items =>
      obtain rfl : items = [] := hv
      rfl
    | map entries =>
      cases entries with
      | nil => rfl
      | cons e es => simp [parts] at hv
    | _ => rfl
  | list _ ih => exact areProper_iff.mpr ih
  | vector _ ih => exact areProper_iff.mpr ih
  | entry _ _ _ ih ihk ihv => exact entriesProper_insertEntry ihk ihv ih
  | member _ _ ih ihx => exact membersProper_insertMember ihx ih

/-- The values that come about are those whose maps have different keys and whose sets have different members. -/
theorem built_iff_isProper {v : Value} : Built v ↔ v.isProper = true := by
  refine ⟨Built.isProper, fun hv => ?_⟩
  induction v using inductionOn_parts with
  | h v ih =>
    cases v with
    | list items => exact .list fun x hx => ih x hx (areProper_iff.mp hv x hx)
    | vector items => exact .vector fun x hx => ih x hx (areProper_iff.mp hv x hx)
    | set items =>
      obtain ⟨hproper, hdistinct⟩ := membersProper_iff.mp hv
      rw [← setOf_of_distinct hdistinct]
      exact .setOf fun x hx => ih x hx (hproper x hx)
    | map entries =>
      obtain ⟨hproper, hdistinct⟩ := entriesProper_iff.mp hv
      rw [← mapOf_of_distinct hdistinct]
      refine .mapOf fun e he => ?_
      obtain ⟨hk, hw⟩ := hproper e he
      exact ⟨ih e.1 (key_mem_parts he) hk, ih e.2 (value_mem_parts he) hw⟩
    | _ => exact .flat rfl

/-! ### Tables -/

mutual
/-- Equality where maps and sets are tables: `place` says where a table keeps what has a hash, and a key is
compared with what is kept in its place alone. -/
def tableEq (place : UInt32 → Nat) : Value → Value → Bool
  | .list xs, .list ys => tableEqs place xs ys
  | .list xs, .vector ys => tableEqs place xs ys
  | .vector xs, .list ys => tableEqs place xs ys
  | .vector xs, .vector ys => tableEqs place xs ys
  | .map es, .map fs => es.length == fs.length && holdsEntries place es fs
  | .set xs, .set ys => xs.length == ys.length && holdsMembers place xs ys
  | a, b => eq a b
termination_by structural v => v

def tableEqs (place : UInt32 → Nat) : List Value → List Value → Bool
  | [], [] => true
  | x :: xs, y :: ys => tableEq place x y && tableEqs place xs ys
  | _, _ => false
termination_by structural xs => xs

/-- Every key of the first table is found in the second one, with the same value. -/
def holdsEntries (place : UInt32 → Nat) : List (Value × Value) → List (Value × Value) → Bool
  | [], _ => true
  | (k, v) :: es, fs =>
    (match fs.find? fun f => place (hash32 f.1) == place (hash32 k) && tableEq place k f.1 with
      | some f => tableEq place v f.2
      | none => false) && holdsEntries place es fs
termination_by structural es => es

/-- Every member of the first table is found in the second one. -/
def holdsMembers (place : UInt32 → Nat) : List Value → List Value → Bool
  | [], _ => true
  | x :: xs, ys =>
    (ys.any fun y => place (hash32 y) == place (hash32 x) && tableEq place x y) && holdsMembers place xs ys
termination_by structural xs => xs
end

variable {place : UInt32 → Nat}

/-- Tables compare the value with others as equality does. -/
def TableLawful (place : UInt32 → Nat) (x : Value) : Prop :=
  ∀ y, y.isProper = true → tableEq place x y = eq x y

/-- A key is found in its place if it is there at all. -/
theorem TableLawful.found {x y : Value} (h : TableLawful place x) (hx : x.isProper = true)
    (hy : y.isProper = true) : (place (hash32 y) == place (hash32 x) && tableEq place x y) = eq x y := by
  rw [h y hy]
  cases hxy : eq x y with
  | false => rw [Bool.and_false]
  | true => rw [(lawful hx).hash hy hxy, beq_self_eq_true, Bool.true_and]

theorem tableEqs_eq {xs ys : List Value} (hxs : ∀ x ∈ xs, TableLawful place x)
    (hys : ∀ y ∈ ys, y.isProper = true) : tableEqs place xs ys = eqs xs ys := by
  induction xs generalizing ys with
  | nil => cases ys <;> rfl
  | cons x xs ih =>
    cases ys with
    | nil => rfl
    | cons y ys =>
      simp only [List.forall_mem_cons] at hxs hys
      rw [tableEqs, eqs, hxs.1 y hys.1, ih hxs.2 hys.2]

theorem holdsMembers_eq {xs ys : List Value} (hxs : ∀ x ∈ xs, x.isProper = true ∧ TableLawful place x)
    (hys : ∀ y ∈ ys, y.isProper = true) : holdsMembers place xs ys = eqMembers xs ys := by
  induction xs with
  | nil => rfl
  | cons x xs ih =>
    simp only [List.forall_mem_cons] at hxs
    have hany : (ys.any fun y => place (hash32 y) == place (hash32 x) && tableEq place x y)
        = ys.any fun y => eq x y := by
      rw [Bool.eq_iff_iff, List.any_eq_true, List.any_eq_true]
      exact exists_congr fun y => and_congr_right fun hy => by rw [hxs.1.2.found hxs.1.1 (hys y hy)]
    rw [holdsMembers, eqMembers, hany, ih hxs.2]

/-- A key equals one key of a map at most. -/
theorem entry_unique {k : Value} {fs : List (Value × Value)} (hk : k.isProper = true)
    (hfs : entriesProper fs = true) {f g : Value × Value} (hf : f ∈ fs) (hg : g ∈ fs) (hkf : eq k f.1 = true)
    (hkg : eq k g.1 = true) : g = f := by
  obtain ⟨hproper, hdistinct⟩ := entriesProper_iff.mp hfs
  have hapart : fs.Pairwise fun e e' => ¬ (eq k e.1 = true ∧ eq k e'.1 = true) := by
    refine hdistinct.imp_of_mem ?_
    rintro e e' he he' hne ⟨hke, hke'⟩
    obtain ⟨he, -⟩ := hproper e he
    rw [(lawful he).trans hk (hproper e' he').1 ((lawful hk).symm he hke) hke'] at hne
    cases hne
  have : Std.Symm fun e e' : Value × Value => ¬ (eq k e.1 = true ∧ eq k e'.1 = true) :=
    ⟨fun _ _ h h' => h h'.symm⟩
  by_contra hne
  exact hapart.forall hg hf hne ⟨hkg, hkf⟩

theorem find?_of_unique {α : Type} {p : α → Bool} {xs : List α} {x : α} (hx : x ∈ xs) (hp : p x = true)
    (hunique : ∀ y ∈ xs, p y = true → y = x) : xs.find? p = some x := by
  cases h : xs.find? p with
  | none => exact absurd hp (List.find?_eq_none.mp h x hx)
  | some y => rw [hunique y (List.mem_of_find?_eq_some h) (List.find?_some h)]

theorem holdsEntries_eq {es fs : List (Value × Value)}
    (hes : ∀ e ∈ es, e.1.isProper = true ∧ TableLawful place e.1 ∧ TableLawful place e.2)
    (hfs : entriesProper fs = true) : holdsEntries place es fs = eqEntries es fs := by
  have hproper := (entriesProper_iff.mp hfs).1
  induction es with
  | nil => rfl
  | cons e es ih =>
    obtain ⟨k, v⟩ := e
    simp only [List.forall_mem_cons] at hes
    obtain ⟨⟨hk, hlk, hlv⟩, hes⟩ := hes
    have hfound : ∀ f ∈ fs, (place (hash32 f.1) == place (hash32 k) && tableEq place k f.1) = eq k f.1 :=
      fun f hf => hlk.found hk (hproper f hf).1
    rw [holdsEntries, eqEntries, ih hes]
    congr 1
    rw [Bool.eq_iff_iff, List.any_eq_true]
    simp only [Bool.and_eq_true]
    constructor
    · intro h
      split at h
      · rename_i f hf
        have hmem := List.mem_of_find?_eq_some hf
        have hkf := List.find?_some hf
        rw [hfound f hmem] at hkf
        rw [hlv f.2 (hproper f hmem).2] at h
        exact ⟨f, hmem, hkf, h⟩
      · cases h
    · rintro ⟨f, hmem, hkf, hvf⟩
      rw [find?_of_unique hmem (by rw [hfound f hmem, hkf]) fun g hg hkg =>
        entry_unique hk hfs hmem hg hkf (by rwa [hfound g hg] at hkg)]
      simp only
      rw [hlv f.2 (hproper f hmem).2, hvf]

/-- Looking keys up by their hashes makes no difference. -/
theorem tableEq_eq {a : Value} (ha : a.isProper = true) : TableLawful place a := by
  induction a using inductionOn_parts with
  | h a ih =>
    intro b hb
    cases a with
    | list xs | vector xs =>
      have hxs : ∀ x ∈ xs, TableLawful place x := fun x hx => ih x hx (areProper_iff.mp ha x hx)
      cases b with
      | list ys | vector ys => exact tableEqs_eq hxs (areProper_iff.mp hb)
      | _ => rfl
    | set xs =>
      have hxs := (membersProper_iff.mp ha).1
      cases b with
      | set ys =>
        rw [tableEq, eq, holdsMembers_eq (fun x hx => ⟨hxs x hx, ih x hx (hxs x hx)⟩) (membersProper_iff.mp hb).1]
      | _ => rfl
    | map es =>
      have hes := (entriesProper_iff.mp ha).1
      cases b with
      | map fs =>
        have hlawful := fun e he => (⟨(hes e he).1, ih e.1 (key_mem_parts he) (hes e he).1,
          ih e.2 (value_mem_parts he) (hes e he).2⟩ :
            e.1.isProper = true ∧ TableLawful place e.1 ∧ TableLawful place e.2)
        rw [tableEq, eq, holdsEntries_eq hlawful hb]
      | _ => rfl
    | _ => cases b <;> rfl

/-! ### The laws together -/

/-- Equality is symmetric and transitive, agrees with hashes, holds of a value and itself but for numbers that are
not ones, and is found by hash. -/
theorem eq_coherent {a b c : Value} (ha : Built a) (hb : Built b) (hc : Built c) :
    (eq a b = true → eq b a = true ∧ a.hashCode = b.hashCode) ∧
      (eq a b = true → eq b c = true → eq a c = true) ∧
      (a.hasNaN = false → eq a a = true) ∧
      ∀ place, tableEq place a b = eq a b := by
  rw [built_iff_isProper] at ha hb hc
  exact ⟨fun hab => ⟨(lawful ha).symm hb hab, hashCode_of_eq ha hb hab⟩, (lawful ha).trans hb hc,
    eq_refl_of_hasNaN, fun place => tableEq_eq ha b hb⟩

/-- A map with a list as a key, whose value is a set. -/
def nested : Value := .map [(.list [.int 1], .set [.char 'x', .float ⟨0⟩]), (.str "k", .nil)]

/-- The same map in another order, with a vector for the list and the other zero. -/
def nestedAgain : Value :=
  .map [(.str "k", .nil), (.vector [.int 1], .set [.float ⟨0x8000000000000000⟩, .char 'x'])]

theorem eq_coherent_nested :
    eq nested nestedAgain = true ∧ eq nestedAgain nested = true ∧ nested.hashCode = nestedAgain.hashCode ∧
      eq nested nested = true ∧ tableEq (fun h => h.toNat % 8) nested nestedAgain = true := by
  have hnested : Built nested := built_iff_isProper.mpr (by decide +kernel)
  have hagain : Built nestedAgain := built_iff_isProper.mpr (by decide +kernel)
  have hsame : eq nested nestedAgain = true := by decide +kernel
  obtain ⟨hequal, htrans, hself, htable⟩ := eq_coherent hnested hagain hnested
  obtain ⟨hsymm, hhash⟩ := hequal hsame
  exact ⟨hsame, hsymm, hhash, hself (by decide +kernel), (htable _).trans hsame⟩

end LispMachine.Value
