import LispMachine.Libraries.Standard
import LispMachine.Proofs.Datum.Shape
import LispMachine.Proofs.Value.Coherence

/-! # Code as values and back

A macro is given its arguments as the values they denote, and what it returns becomes code again.  The main result
is `toValue_toDatum_inverse`.  Code comes back in the same shape if a collection that is no sequence has one entry
at most, so that there is no order to lose; and a value that can be code is equal to the value of that code.

For values the sets and maps are the point: the members of a set become data that denote equal members, so these are
as different from each other as the members were, and a set or map is made of as many of them
(`setOf_of_distinct`, `mapOf_of_distinct`).  That takes symmetry and transitivity of equality. -/

namespace LispMachine

open Value

/-! ### Code that denotes itself -/

/-- The pattern that an atom is, if it is one, is well-formed. -/
def Atom.IsSound [Libraries] : Atom → Prop
  | .regex source => Libraries.isPattern source = true
  | _ => True

/-- Atoms come back as they are, but for numbers that are not ones. -/
theorem Atom.toDatum_toValue [Libraries] {a : Atom} (hsound : a.IsSound) (hnan : a.isNaN = false) (span : Span) :
    ∃ b, a.toValue.toDatum span = .ok (.ofAtom b span) ∧ b.same a = true := by
  have hself : a.same a = true := by rw [Atom.same_self, hnan, Bool.not_false]
  refine ⟨a, ?_, hself⟩
  cases a with
  | regex source =>
    have hformed : Libraries.isPattern source = true := hsound
    rw [Atom.toValue, if_pos hformed, Value.toDatum]
  | keyword name =>
    rw [Atom.toValue, Value.keywordNamed, Value.toDatum, Symbol.toText_parse]
  | symbol name =>
    rw [Atom.toValue, Value.symbolNamed, Value.toDatum, Symbol.toText_parse]
  | _ => rfl

namespace Datum

mutual

/-- No set and no map has two entries. -/
def isOrdered : Datum → Bool
  | .atom _ _ => true
  | .list items _ => areOrdered items
  | .vector items _ => areOrdered items
  | .set items _ => decide (items.length ≤ 1) && areOrdered items
  | .map entries _ => decide (entries.length ≤ 1) && entriesOrdered entries

def areOrdered : List Datum → Bool
  | [] => true
  | d :: ds => isOrdered d && areOrdered ds

def entriesOrdered : List (Datum × Datum) → Bool
  | [] => true
  | (k, v) :: es => isOrdered k && isOrdered v && entriesOrdered es

end

theorem length_toValues [Libraries] (ds : List Datum) : (toValues ds).length = ds.length := by
  induction ds with
  | nil => rfl
  | cons d ds ih => rw [toValues, List.length_cons, List.length_cons, ih]

theorem length_toEntries [Libraries] (es : List (Datum × Datum)) : (toEntries es).length = es.length := by
  induction es with
  | nil => rfl
  | cons e es ih => rw [toEntries, List.length_cons, List.length_cons, ih]

/-- Of one entry at most there are no two. -/
theorem pairwise_of_length_le {α : Type} {R : α → α → Prop} {xs : List α} (h : xs.length ≤ 1) : xs.Pairwise R := by
  match xs, h with
  | [], _ => exact .nil
  | [x], _ => exact List.pairwise_singleton R x

variable {span : Span}

mutual

theorem toDatum_toValue [Libraries] : ∀ d : Datum, (∀ a ∈ d.atoms, a.IsSound ∧ a.isNaN = false) → d.isOrdered = true →
    ∃ d', d.toValue.toDatum span = .ok d' ∧ d'.sameShape d = true
  | .atom a i, hatoms, _ => by
    obtain ⟨hsound, hnan⟩ := hatoms a List.mem_cons_self
    obtain ⟨b, hb, hsame⟩ := a.toDatum_toValue hsound hnan span
    exact ⟨.ofAtom b span, hb, hsame⟩
  | .list items i, hatoms, hordered => by
    obtain ⟨ds, hds, hsame⟩ := toData_toValues items hatoms hordered
    refine ⟨.list ds { span }, ?_, hsame⟩
    rw [toValue, Value.toDatum, hds, Except.map]
  | .vector items i, hatoms, hordered => by
    obtain ⟨ds, hds, hsame⟩ := toData_toValues items hatoms hordered
    refine ⟨.vector ds { span }, ?_, hsame⟩
    rw [toValue, Value.toDatum, hds, Except.map]
  | .set items i, hatoms, hordered => by
    rw [isOrdered, Bool.and_eq_true, decide_eq_true_eq] at hordered
    obtain ⟨ds, hds, hsame⟩ := toData_toValues items hatoms hordered.2
    refine ⟨.set ds { span }, ?_, hsame⟩
    rw [toValue, setOf_of_distinct (pairwise_of_length_le (by rw [length_toValues]; exact hordered.1)),
      Value.toDatum, hds, Except.map]
  | .map entries i, hatoms, hordered => by
    rw [isOrdered, Bool.and_eq_true, decide_eq_true_eq] at hordered
    obtain ⟨es, hes, hsame⟩ := toDataEntries_toEntries entries hatoms hordered.2
    refine ⟨.map es { span }, ?_, hsame⟩
    rw [toValue, mapOf_of_distinct (pairwise_of_length_le (by rw [length_toEntries]; exact hordered.1)),
      Value.toDatum, hes, Except.map]

theorem toData_toValues [Libraries] : ∀ ds : List Datum, (∀ a ∈ atomsOfAll ds, a.IsSound ∧ a.isNaN = false) →
    areOrdered ds = true → ∃ ds', toData span (toValues ds) = .ok ds' ∧ sameShapes ds' ds = true
  | [], _, _ => ⟨[], rfl, rfl⟩
  | d :: ds, hatoms, hordered => by
    rw [areOrdered, Bool.and_eq_true] at hordered
    rw [atomsOfAll, List.forall_mem_append] at hatoms
    obtain ⟨d', hd, hsame⟩ := toDatum_toValue d hatoms.1 hordered.1
    obtain ⟨ds', hds, hsames⟩ := toData_toValues ds hatoms.2 hordered.2
    refine ⟨d' :: ds', ?_, by rw [sameShapes, hsame, hsames, Bool.and_self]⟩
    rw [toValues, toData, hd, hds]
    rfl

theorem toDataEntries_toEntries [Libraries] : ∀ es : List (Datum × Datum),
    (∀ a ∈ atomsOfEntries es, a.IsSound ∧ a.isNaN = false) → entriesOrdered es = true →
    ∃ es', toDataEntries span (toEntries es) = .ok es' ∧ sameEntries es' es = true
  | [], _, _ => ⟨[], rfl, rfl⟩
  | (k, v) :: es, hatoms, hordered => by
    rw [entriesOrdered, Bool.and_eq_true, Bool.and_eq_true] at hordered
    rw [atomsOfEntries, List.forall_mem_append, List.forall_mem_append] at hatoms
    obtain ⟨k', hk, hsamek⟩ := toDatum_toValue k hatoms.1.1 hordered.1.1
    obtain ⟨v', hv, hsamev⟩ := toDatum_toValue v hatoms.1.2 hordered.1.2
    obtain ⟨es', hes, hsames⟩ := toDataEntries_toEntries es hatoms.2 hordered.2
    refine ⟨(k', v') :: es', ?_, by rw [sameEntries, hsamek, hsamev, hsames, Bool.and_self, Bool.and_self]⟩
    rw [toEntries, toDataEntries, hk, hv, hes]
    rfl

end

end Datum

/-! ### Values that can be code -/

namespace Value

/-- A name is what some text is parsed to, and a pattern is well-formed, as every compiled one is. -/
def IsSound [Libraries] : Value → Prop
  | .keyword s => ∃ text, s = Symbol.parse text
  | .symbol s => ∃ text, s = Symbol.parse text
  | .regex source => Libraries.isPattern source = true
  | _ => True

variable {span : Span}

/-- A value and what the code denotes that it becomes. -/
def ComesBack [Libraries] (span : Span) (x y : Value) : Prop := ∃ d, x.toDatum span = .ok d ∧ y = d.toValue

theorem toData_ok [Libraries] {xs : List Value} {ds : List Datum} (h : toData span xs = .ok ds) :
    List.Forall₂ (ComesBack span) xs (Datum.toValues ds) := by
  induction xs generalizing ds with
  | nil =>
    cases h
    exact .nil
  | cons x xs ih =>
    rw [toData] at h
    obtain ⟨d, hd, h⟩ := bind_ok h
    obtain ⟨ds', hds, h⟩ := bind_ok h
    cases h
    exact .cons ⟨d, hd, rfl⟩ (ih hds)

theorem toDataEntries_ok [Libraries] {es : List (Value × Value)} {fs : List (Datum × Datum)}
    (h : toDataEntries span es = .ok fs) :
    List.Forall₂ (fun e f => ComesBack span e.1 f.1 ∧ ComesBack span e.2 f.2) es (Datum.toEntries fs) := by
  induction es generalizing fs with
  | nil =>
    cases h
    exact .nil
  | cons e es ih =>
    rw [toDataEntries] at h
    obtain ⟨k, hk, h⟩ := bind_ok h
    obtain ⟨v, hv, h⟩ := bind_ok h
    obtain ⟨fs', hfs, h⟩ := bind_ok h
    cases h
    exact .cons ⟨⟨k, hk, rfl⟩, ⟨v, hv, rfl⟩⟩ (ih hfs)

theorem pairwise_of_forall₂ {α : Type} {R S T : α → α → Prop} {xs ys : List α} (h : List.Forall₂ R xs ys)
    (hxs : xs.Pairwise S) (himp : ∀ {x x' y y'}, R x y → R x' y' → S x x' → T y y') : ys.Pairwise T := by
  induction h with
  | nil => exact .nil
  | cons hxy hrest ih =>
    obtain ⟨hx, hxs⟩ := List.pairwise_cons.mp hxs
    refine .cons (fun y' hy' => ?_) (ih hxs)
    obtain ⟨x', hx', hxy'⟩ := exists_of_forall₂ hrest hy'
    exact himp hxy hxy' (hx x' hx')

/-- Stands in for a value: a proper value equal to it. -/
def StandsFor (x y : Value) : Prop := x.isProper = true ∧ y.isProper = true ∧ eq y x = true

/-- What stands for different values is different. -/
theorem StandsFor.apart {x x' y y' : Value} (h : StandsFor x y) (h' : StandsFor x' y') (hne : eq x x' = false) :
    eq y y' = false := by
  obtain ⟨hx, hy, hyx⟩ := h
  obtain ⟨hx', hy', hyx'⟩ := h'
  rw [Bool.eq_false_iff]
  intro hsame
  have hxy := (lawful hy).symm hx hyx
  rw [(lawful hx).trans hy hx' hxy ((lawful hy).trans hy' hx' hsame hyx')] at hne
  cases hne

theorem eqs_of_standsFor {xs ys : List Value} (h : List.Forall₂ StandsFor xs ys) : eqs ys xs = true :=
  eqs_iff.mpr (h.imp fun _ _ hxy => hxy.2.2).flip

theorem eq_setOf_of_standsFor {xs ys : List Value} (hxs : membersProper xs = true)
    (h : List.Forall₂ StandsFor xs ys) : eq (setOf ys) (.set xs) = true := by
  rw [setOf_of_distinct (pairwise_of_forall₂ h (membersProper_iff.mp hxs).2 StandsFor.apart)]
  simp only [eq, h.length_eq, beq_self_eq_true, Bool.true_and, eqMembers_iff]
  intro y hy
  obtain ⟨x, hx, -, -, hyx⟩ := exists_of_forall₂ h hy
  exact ⟨x, hx, hyx⟩

theorem eq_mapOf_of_standsFor {es fs : List (Value × Value)} (hes : entriesProper es = true)
    (h : List.Forall₂ (fun e f => StandsFor e.1 f.1 ∧ StandsFor e.2 f.2) es fs) : eq (mapOf fs) (.map es) = true := by
  rw [mapOf_of_distinct (pairwise_of_forall₂ h (entriesProper_iff.mp hes).2
    fun hef hef' hne => hef.1.apart hef'.1 hne)]
  simp only [eq, h.length_eq, beq_self_eq_true, Bool.true_and, eqEntries_iff]
  intro f hf
  obtain ⟨e, he, hkey, hvalue⟩ := exists_of_forall₂ h hf
  exact ⟨e, he, hkey.2.2, hvalue.2.2⟩

/-- The code of a value denotes the value. -/
theorem toValue_toDatum [Libraries] {v : Value} (hv : v.isProper = true) (hnan : v.hasNaN = false)
    (hsound : ∀ x ∈ v.leaves, x.IsSound) {d : Datum} (h : v.toDatum span = .ok d) : eq d.toValue v = true := by
  induction v using inductionOn_parts generalizing d with
  | h v ih =>
    -- Each part comes back as something that stands for it; what holds it is put together again below.
    have hpart : ∀ x ∈ v.parts, x.isProper = true → ∀ {y : Value}, ComesBack span x y → StandsFor x y := by
      rintro x hx hproper y ⟨d, hd, rfl⟩
      exact ⟨hproper, d.isProper_toValue, ih x hx hproper (hasNaN_parts hnan hx)
        (fun y hy => hsound y (mem_leaves_of_parts hx hy)) hd⟩
    have hself := eq_refl_of_hasNaN hnan
    cases v with
    | list items | vector items =>
      rw [toDatum] at h
      obtain ⟨ds, hds, rfl⟩ := map_ok h
      exact eqs_of_standsFor (forall₂_of_mem (toData_ok hds) fun x hx y _ hxy =>
        hpart x hx (areProper_iff.mp hv x hx) hxy)
    | set items =>
      rw [toDatum] at h
      obtain ⟨ds, hds, rfl⟩ := map_ok h
      exact eq_setOf_of_standsFor hv (forall₂_of_mem (toData_ok hds) fun x hx y _ hxy =>
        hpart x hx ((membersProper_iff.mp hv).1 x hx) hxy)
    | map entries =>
      rw [toDatum] at h
      obtain ⟨fs, hfs, rfl⟩ := map_ok h
      refine eq_mapOf_of_standsFor hv (forall₂_of_mem (toDataEntries_ok hfs) fun e he f _ hef => ?_)
      obtain ⟨hk, hw⟩ := (entriesProper_iff.mp hv).1 e he
      exact ⟨hpart e.1 (key_mem_parts he) hk hef.1, hpart e.2 (value_mem_parts he) hw hef.2⟩
    | regex source =>
      have hformed : Libraries.isPattern source = true := hsound _ List.mem_cons_self
      cases h
      rw [Datum.ofAtom, Datum.toValue, Atom.toValue, if_pos hformed]
      exact hself
    | keyword s =>
      obtain ⟨text, rfl⟩ : ∃ text, s = Symbol.parse text := hsound _ List.mem_cons_self
      cases h
      rw [Datum.ofAtom, Datum.toValue, Atom.toValue, keywordNamed, Symbol.toText_parse]
      exact hself
    | symbol s =>
      obtain ⟨text, rfl⟩ : ∃ text, s = Symbol.parse text := hsound _ List.mem_cons_self
      cases h
      rw [Datum.ofAtom, Datum.toValue, Atom.toValue, symbolNamed, Symbol.toText_parse]
      exact hself
    | nil | bool | char | int | float | str =>
      cases h
      exact hself
    | _ => cases h

/-- Code that is made a value and then code has the same shape, and a value that is made code and then a value is
the same value. -/
theorem toValue_toDatum_inverse [Libraries] (span : Span) :
    (∀ d : Datum, d.hasNaN = false → (∀ a ∈ d.atoms, a.IsSound) → d.isOrdered = true →
      ∃ d', d.toValue.toDatum span = .ok d' ∧ d'.sameShape d = true) ∧
    ∀ (v : Value) (d : Datum), Built v → v.hasNaN = false → (∀ x ∈ v.leaves, x.IsSound) →
      v.toDatum span = .ok d → eq d.toValue v = true := by
  constructor
  · intro d hnan hsound hordered
    refine Datum.toDatum_toValue d (fun a ha => ⟨hsound a ha, ?_⟩) hordered
    exact Bool.eq_false_iff.mpr (List.any_eq_false.mp hnan a ha)
  · intro v d hv hnan hsound h
    exact toValue_toDatum hv.isProper hnan hsound h

/-- A name with two slashes, a set of one pattern and a map of one entry. -/
def singleEntries : Datum :=
  .list [.atom (.symbol "a/b/c") {}, .set [.atom (.regex "x+") {}] {},
    .map [(.atom (.keyword "/") {}, .atom (.float ⟨0x3FF8000000000000⟩) {})] {}] {}

/-- A map with a set as a key, whose value is a list, and a pattern as another. -/
def twoEntries : Value :=
  .map [(.set [symbolNamed "ns/x", .int 3], .list [.float ⟨0x8000000000000000⟩, keywordNamed "k"]),
    (.regex "x+", .vector [])]

theorem toValue_toDatum_inverse_entries :
    (∃ d', singleEntries.toValue.toDatum Span.start = .ok d' ∧ d'.sameShape singleEntries = true) ∧
      ∃ d, twoEntries.toDatum Span.start = .ok d ∧ eq d.toValue twoEntries = true := by
  obtain ⟨hcode, hvalue⟩ := toValue_toDatum_inverse Span.start
  have hpattern : Libraries.isPattern "x+" = true := by decide +kernel
  constructor
  · refine hcode singleEntries (by decide +kernel) ?_ (by decide +kernel)
    have hatoms : singleEntries.atoms
        = [.symbol "a/b/c", .regex "x+", .keyword "/", .float ⟨0x3FF8000000000000⟩] := rfl
    rw [hatoms]
    simp only [List.forall_mem_cons]
    exact ⟨trivial, hpattern, trivial, trivial, by simp⟩
  · refine ⟨_, rfl, hvalue twoEntries _ (built_iff_isProper.mpr (by decide +kernel)) (by decide +kernel) ?_ rfl⟩
    have hleaves : twoEntries.leaves
        = [symbolNamed "ns/x", .int 3, .float ⟨0x8000000000000000⟩, keywordNamed "k", .regex "x+"] := rfl
    rw [hleaves]
    simp only [List.forall_mem_cons]
    exact ⟨⟨_, rfl⟩, trivial, trivial, ⟨_, rfl⟩, hpattern, by simp⟩

end Value

end LispMachine
