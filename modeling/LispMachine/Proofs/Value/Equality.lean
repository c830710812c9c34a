import Mathlib.Data.List.Forall2
import LispMachine.Value.Data

/-! # Equal values

Values are compared by their contents, maps and sets regardless of order, so that a map with two equal keys or
a set with two equal members would upset the comparison.  No such value is ever built: `isProper` holds of
what the reader and the machine make of proper parts (`isProper_setOf`, `isProper_mapOf`, `isProper_toValue`).
On proper values equality is symmetric and transitive, and equal values have equal hashes (`lawful`).  It is
not reflexive: nothing equals a number that is not one. -/

namespace LispMachine

/-! ### Numbers -/

namespace Double

variable {x y z : Double}

theorem eq_iff : x.eq y = true ↔ x.isNaN = false ∧ y.isNaN = false ∧ x.key = y.key := by
  simp [eq, and_assoc]

theorem eq_symm (h : x.eq y = true) : y.eq x = true := by
  rw [eq_iff] at h ⊢
  exact ⟨h.2.1, h.1, h.2.2.symm⟩

theorem eq_trans (h : x.eq y = true) (h' : y.eq z = true) : x.eq z = true := by
  rw [eq_iff] at h h' ⊢
  exact ⟨h.1, h'.2.1, h.2.2.trans h'.2.2⟩

/-- Numbers at one place of the number line are the same word, or both are zero. -/
theorem bits_of_key (h : x.key = y.key) : x.isZero = true ∧ y.isZero = true ∨ x = y := by
  have hx := x.bits.toNat_lt
  have hy := y.bits.toNat_lt
  have hword : x.bits.toNat = y.bits.toNat → x = y := by
    intro hsame
    obtain ⟨bits⟩ := x
    obtain ⟨bits'⟩ := y
    exact congrArg mk (UInt64.toNat_inj.mp hsame)
  simp only [key, isNegative, magnitude, decide_eq_true_eq] at h
  simp only [isZero, magnitude, beq_iff_eq]
  split at h <;> split at h
  · exact .inr (hword (by omega))
  · exact .inl (by omega)
  · exact .inl (by omega)
  · exact .inr (hword (by omega))

theorem hash32_of_eq (h : x.eq y = true) : x.hash32 = y.hash32 := by
  rcases bits_of_key (eq_iff.mp h).2.2 with ⟨hx, hy⟩ | rfl
  · simp only [hash32, hx, hy, if_true]
  · rfl

end Double

namespace Value

/-! ### Proper values -/

mutual
/-- No map in the value has two equal keys, and no set two equal members. -/
def isProper : Value → Bool
  | .list items => areProper items
  | .vector items => areProper items
  | .map entries => entriesProper entries
  | .set items => membersProper items
  | _ => true
termination_by structural v => v

def areProper : List Value → Bool
  | [] => true
  | x :: xs => isProper x && areProper xs
termination_by structural xs => xs

def entriesProper : List (Value × Value) → Bool
  | [] => true
  | (k, v) :: es => isProper k && isProper v && (es.all fun e => !eq k e.1) && entriesProper es
termination_by structural es => es

def membersProper : List Value → Bool
  | [] => true
  | x :: xs => isProper x && (xs.all fun y => !eq x y) && membersProper xs
termination_by structural xs => xs
end

/-- The values directly inside a value. -/
def parts : Value → List Value
  | .list items => items
  | .vector items => items
  | .set items => items
  | .map entries => entries.flatMap fun e => [e.1, e.2]
  | _ => []

theorem sizeOf_parts {x v : Value} (h : x ∈ v.parts) : sizeOf x < sizeOf v := by
  cases v with
  | list items | vector items | set items =>
    have hlt : sizeOf x < sizeOf items := List.sizeOf_lt_of_mem h
    simp only [list.sizeOf_spec, vector.sizeOf_spec, set.sizeOf_spec]
    omega
  | map entries =>
    obtain ⟨⟨k, w⟩, he, hx⟩ := List.mem_flatMap.mp h
    have hlt := List.sizeOf_lt_of_mem he
    simp only [Prod.mk.sizeOf_spec] at hlt
    simp only [List.mem_cons, List.not_mem_nil, or_false] at hx
    simp only [map.sizeOf_spec]
    rcases hx with rfl | rfl <;> omega
  | _ => cases h

/-- What holds of a value if it holds of the values inside holds of all values. -/
theorem inductionOn_parts {P : Value → Prop} (h : ∀ v, (∀ x ∈ v.parts, P x) → P v) (v : Value) : P v :=
  h v fun x _ => inductionOn_parts h x
termination_by sizeOf v
decreasing_by exact sizeOf_parts ‹_›

theorem areProper_iff {xs : List Value} : areProper xs = true ↔ ∀ x ∈ xs, x.isProper = true := by
  induction xs with
  | nil => simp [areProper]
  | cons x xs ih => simp [areProper, ih]

theorem membersProper_iff {xs : List Value} :
    membersProper xs = true ↔ (∀ x ∈ xs, x.isProper = true) ∧ xs.Pairwise fun x y => eq x y = false := by
  induction xs with
  | nil => simp [membersProper]
  | cons x xs ih =>
    simp only [membersProper, ih, Bool.and_eq_true, List.all_eq_true, Bool.not_eq_true', List.forall_mem_cons,
      List.pairwise_cons]
    tauto

theorem entriesProper_iff {es : List (Value × Value)} :
    entriesProper es = true ↔ (∀ e ∈ es, e.1.isProper = true ∧ e.2.isProper = true) ∧
      es.Pairwise fun e f => eq e.1 f.1 = false := by
  induction es with
  | nil => simp [entriesProper]
  | cons e es ih =>
    simp only [entriesProper, ih, Bool.and_eq_true, List.all_eq_true, Bool.not_eq_true', List.forall_mem_cons,
      List.pairwise_cons]
    tauto

/-! ### Comparing contents -/

attribute [local simp] eq eqs eqMembers eqEntries

theorem eqs_iff {xs ys : List Value} : eqs xs ys = true ↔ List.Forall₂ (fun x y => eq x y = true) xs ys := by
  induction xs generalizing ys with
  | nil => cases ys <;> simp
  | cons x xs ih => cases ys <;> simp [ih]

theorem eqMembers_iff {xs ys : List Value} :
    eqMembers xs ys = true ↔ ∀ x ∈ xs, ∃ y ∈ ys, eq x y = true := by
  induction xs with
  | nil => simp
  | cons x xs ih => simp [ih]

theorem eqEntries_iff {es fs : List (Value × Value)} :
    eqEntries es fs = true ↔ ∀ e ∈ es, ∃ f ∈ fs, eq e.1 f.1 = true ∧ eq e.2 f.2 = true := by
  induction es with
  | nil => simp
  | cons e es ih => simp [ih]

/-- Where every item of one list has a partner in another list of the same length, and no two items share
one, the second list can be put in the order of the partners. -/
theorem exists_matching {α : Type} {R : α → α → Prop} {xs ys : List α} (hlength : xs.length = ys.length)
    (hpartner : ∀ x ∈ xs, ∃ y ∈ ys, R x y) (hown : xs.Pairwise fun x x' => ∀ y ∈ ys, R x y → ¬ R x' y) :
    ∃ zs, zs.Perm ys ∧ List.Forall₂ R xs zs := by
  induction xs generalizing ys with
  | nil =>
    obtain rfl : ys = [] := List.length_eq_zero_iff.mp hlength.symm
    exact ⟨[], .refl _, .nil⟩
  | cons x xs ih =>
    obtain ⟨hx, hxs⟩ := List.pairwise_cons.mp hown
    obtain ⟨y, hy, hxy⟩ := hpartner x List.mem_cons_self
    obtain ⟨front, back, rfl⟩ := List.append_of_mem hy
    have hmiddle : (y :: (front ++ back)).Perm (front ++ y :: back) := List.perm_middle.symm
    have hrest : ∀ x' ∈ xs, ∃ y' ∈ front ++ back, R x' y' := by
      intro x' hx'
      obtain ⟨y', hy', hr⟩ := hpartner x' (List.mem_cons_of_mem _ hx')
      rcases List.mem_cons.mp (hmiddle.mem_iff.mpr hy') with rfl | hmem
      · exact absurd hr (hx x' hx' y' hy hxy)
      · exact ⟨y', hmem, hr⟩
    have hlength' : xs.length = (front ++ back).length := by
      have hsame := hmiddle.length_eq
      rw [← hlength] at hsame
      simpa using hsame.symm
    obtain ⟨zs, hperm, hforall⟩ := ih hlength' hrest
      (hxs.imp fun hown' y' hy' => hown' y' (hmiddle.mem_iff.mp (List.mem_cons_of_mem _ hy')))
    exact ⟨y :: zs, (hperm.cons y).trans hmiddle, .cons hxy hforall⟩

/-! ### Hashes -/

attribute [local simp] hash32 hashItems hashMembers hashEntries

theorem hashMembers_of_forall₂ {xs ys : List Value}
    (h : List.Forall₂ (fun x y => hash32 x = hash32 y) xs ys) : hashMembers xs = hashMembers ys := by
  induction h with
  | nil => rfl
  | cons hxy _ ih => simp [hxy, ih]

theorem hashEntries_of_forall₂ {es fs : List (Value × Value)}
    (h : List.Forall₂ (fun e f => hash32 e.1 = hash32 f.1 ∧ hash32 e.2 = hash32 f.2) es fs) :
    hashEntries es = hashEntries fs := by
  induction h with
  | nil => rfl
  | cons hef _ ih => simp [hef.1, hef.2, ih]

theorem hashMembers_perm {xs ys : List Value} (h : xs.Perm ys) : hashMembers xs = hashMembers ys := by
  induction h with
  | nil => rfl
  | cons x _ ih => simp [ih]
  | swap x y xs => simp only [hashMembers, ← UInt32.add_assoc, UInt32.add_comm (hash32 y)]
  | trans _ _ ih ih' => exact ih.trans ih'

theorem hashEntries_perm {es fs : List (Value × Value)} (h : es.Perm fs) : hashEntries es = hashEntries fs := by
  induction h with
  | nil => rfl
  | cons e _ ih => simp [ih]
  | swap e f es =>
    simp only [hashEntries, ← UInt32.add_assoc, UInt32.add_comm (hash32 f.1 ^^^ hash32 f.2)]
  | trans _ _ ih ih' => exact ih.trans ih'

/-! ### The laws of equality -/

/-- What follows from being equal to a value, among proper values. -/
structure Lawful (a : Value) : Prop where
  symm : ∀ {b}, b.isProper = true → eq a b = true → eq b a = true
  hash : ∀ {b}, b.isProper = true → eq a b = true → hash32 a = hash32 b
  trans : ∀ {b c}, b.isProper = true → c.isProper = true → eq a b = true → eq b c = true → eq a c = true

theorem Lawful.of_same {a : Value} (h : ∀ b, eq a b = true → b = a) : Lawful a where
  symm _ hab := by
    obtain rfl := h _ hab
    exact hab
  hash _ hab := by rw [h _ hab]
  trans _ _ hab hbc := by rwa [h _ hab] at hbc

section Collections

variable {xs ys zs : List Value} {es fs gs : List (Value × Value)}

theorem eqs_symm (hlawful : ∀ x ∈ xs, Lawful x) (hys : ∀ y ∈ ys, y.isProper = true) (h : eqs xs ys = true) :
    eqs ys xs = true := by
  induction xs generalizing ys with
  | nil => cases ys <;> simp_all
  | cons x xs ih =>
    cases ys with
    | nil => simp at h
    | cons y ys =>
      simp only [eqs, Bool.and_eq_true, List.forall_mem_cons] at hlawful hys h ⊢
      exact ⟨hlawful.1.symm hys.1 h.1, ih hlawful.2 hys.2 h.2⟩

theorem eqs_trans (hlawful : ∀ x ∈ xs, Lawful x) (hys : ∀ y ∈ ys, y.isProper = true)
    (hzs : ∀ z ∈ zs, z.isProper = true) (h : eqs xs ys = true) (h' : eqs ys zs = true) : eqs xs zs = true := by
  induction xs generalizing ys zs with
  | nil => cases ys <;> simp_all
  | cons x xs ih =>
    cases ys with
    | nil => simp at h
    | cons y ys =>
      cases zs with
      | nil => simp at h'
      | cons z zs =>
        simp only [eqs, Bool.and_eq_true, List.forall_mem_cons] at hlawful hys hzs h h' ⊢
        exact ⟨hlawful.1.trans hys.1 hzs.1 h.1 h'.1, ih hlawful.2 hys.2 hzs.2 h.2 h'.2⟩

theorem hashItems_of_eqs (hlawful : ∀ x ∈ xs, Lawful x) (hys : ∀ y ∈ ys, y.isProper = true)
    (h : eqs xs ys = true) (start : UInt32) : hashItems start xs = hashItems start ys := by
  induction xs generalizing ys start with
  | nil => cases ys <;> simp_all
  | cons x xs ih =>
    cases ys with
    | nil => simp at h
    | cons y ys =>
      simp only [eqs, Bool.and_eq_true, List.forall_mem_cons] at hlawful hys h
      rw [hashItems, hashItems, hlawful.1.hash hys.1 h.1, ih hlawful.2 hys.2 h.2]

/-- No two members of a proper set have one partner, so that the members of an equal set are theirs in another
order. -/
theorem exists_members (hlawful : ∀ x ∈ xs, Lawful x) (hxs : membersProper xs = true)
    (hys : membersProper ys = true) (hlength : xs.length = ys.length) (h : eqMembers xs ys = true) :
    ∃ zs, zs.Perm ys ∧ List.Forall₂ (fun x y => eq x y = true) xs zs := by
  obtain ⟨hproper, hdistinct⟩ := membersProper_iff.mp hxs
  refine exists_matching hlength (eqMembers_iff.mp h) (hdistinct.imp_of_mem ?_)
  intro x x' hx hx' hne y hy hxy hxy'
  have hy' := (membersProper_iff.mp hys).1 y hy
  have hsame := (hlawful x hx).trans hy' (hproper x' hx') hxy ((hlawful x' hx').symm hy' hxy')
  rw [hne] at hsame
  cases hsame

theorem exists_entries (hlawful : ∀ e ∈ es, Lawful e.1 ∧ Lawful e.2) (hes : entriesProper es = true)
    (hfs : entriesProper fs = true) (hlength : es.length = fs.length) (h : eqEntries es fs = true) :
    ∃ gs, gs.Perm fs ∧ List.Forall₂ (fun e f => eq e.1 f.1 = true ∧ eq e.2 f.2 = true) es gs := by
  obtain ⟨hproper, hdistinct⟩ := entriesProper_iff.mp hes
  refine exists_matching hlength (eqEntries_iff.mp h) (hdistinct.imp_of_mem ?_)
  intro e e' he he' hne f hf hef hef'
  have hf' := ((entriesProper_iff.mp hfs).1 f hf).1
  have hsame := (hlawful e he).1.trans hf' (hproper e' he').1 hef.1 ((hlawful e' he').1.symm hf' hef'.1)
  rw [hne] at hsame
  cases hsame

end Collections

/-- Items related one by one are related with their partners. -/
theorem exists_of_forall₂ {α : Type} {R : α → α → Prop} {xs ys : List α} (h : List.Forall₂ R xs ys) {y : α}
    (hy : y ∈ ys) : ∃ x ∈ xs, R x y := by
  induction h with
  | nil => cases hy
  | cons hxy _ ih =>
    rcases List.mem_cons.mp hy with rfl | hy
    · exact ⟨_, List.mem_cons_self, hxy⟩
    · obtain ⟨x, hx, hr⟩ := ih hy
      exact ⟨x, List.mem_cons_of_mem _ hx, hr⟩

theorem forall₂_of_mem {α : Type} {R S : α → α → Prop} {xs ys : List α} (h : List.Forall₂ R xs ys)
    (himp : ∀ x ∈ xs, ∀ y ∈ ys, R x y → S x y) : List.Forall₂ S xs ys := by
  induction h with
  | nil => exact .nil
  | cons hxy _ ih =>
    exact .cons (himp _ List.mem_cons_self _ List.mem_cons_self hxy)
      (ih fun x hx y hy => himp x (List.mem_cons_of_mem _ hx) y (List.mem_cons_of_mem _ hy))

theorem Lawful.ofList {xs : List Value} (hlawful : ∀ x ∈ xs, Lawful x) : Lawful (.list xs) where
  symm {b} hb hab := by
    cases b with
    | list ys | vector ys =>
      simp only [isProper, areProper_iff, eq] at hb hab ⊢
      exact eqs_symm hlawful hb hab
    | _ => simp at hab
  hash {b} hb hab := by
    cases b with
    | list ys | vector ys =>
      simp only [isProper, areProper_iff, eq, hash32] at hb hab ⊢
      exact hashItems_of_eqs hlawful hb hab 1
    | _ => simp at hab
  trans {b c} hb hc hab hbc := by
    cases b with
    | list ys | vector ys =>
      cases c with
      | list zs | vector zs =>
        simp only [isProper, areProper_iff, eq] at hb hc hab hbc ⊢
        exact eqs_trans hlawful hb hc hab hbc
      | _ => simp at hbc
    | _ => simp at hab

/-- To equality and to hashes a vector is the list of its items. -/
theorem Lawful.ofVector {xs : List Value} (h : Lawful (.list xs)) : Lawful (.vector xs) := by
  have hfrom : ∀ b, eq (.vector xs) b = eq (.list xs) b := by intro b; cases b <;> rfl
  have hto : ∀ b, eq b (.vector xs) = eq b (.list xs) := by intro b; cases b <;> rfl
  refine ⟨?_, ?_, ?_⟩
  · intro b hb hab
    rw [hto]
    exact h.symm hb (by rwa [← hfrom])
  · intro b hb hab
    exact h.hash hb (by rwa [← hfrom])
  · intro b c hb hc hab hbc
    rw [hfrom]
    exact h.trans hb hc (by rwa [← hfrom]) hbc

theorem Lawful.ofSet {xs : List Value} (hlawful : ∀ x ∈ xs, Lawful x) (hxs : membersProper xs = true) :
    Lawful (.set xs) := by
  refine ⟨?_, ?_, ?_⟩ <;> intro b
  · intro hb hab
    cases b with
    | set ys =>
      simp only [eq, Bool.and_eq_true, beq_iff_eq, isProper] at hab hb ⊢
      obtain ⟨zs, hperm, hsame⟩ := exists_members hlawful hxs hb hab.1 hab.2
      refine ⟨hab.1.symm, eqMembers_iff.mpr fun y hy => ?_⟩
      obtain ⟨x, hx, hxy⟩ := exists_of_forall₂ hsame (hperm.mem_iff.mpr hy)
      exact ⟨x, hx, (hlawful x hx).symm ((membersProper_iff.mp hb).1 y hy) hxy⟩
    | _ => simp at hab
  · intro hb hab
    cases b with
    | set ys =>
      simp only [eq, Bool.and_eq_true, beq_iff_eq, isProper] at hab hb
      obtain ⟨zs, hperm, hsame⟩ := exists_members hlawful hxs hb hab.1 hab.2
      have hhash := forall₂_of_mem hsame fun x hx y hy hxy =>
        (hlawful x hx).hash ((membersProper_iff.mp hb).1 y (hperm.mem_iff.mp hy)) hxy
      rw [hash32, hash32, hashMembers_of_forall₂ hhash, hashMembers_perm hperm]
    | _ => simp at hab
  · intro c hb hc hab hbc
    cases b with
    | set ys =>
      cases c with
      | set zs =>
        simp only [eq, Bool.and_eq_true, beq_iff_eq, isProper] at hab hbc hb hc ⊢
        refine ⟨hab.1.trans hbc.1, eqMembers_iff.mpr fun x hx => ?_⟩
        obtain ⟨y, hy, hxy⟩ := eqMembers_iff.mp hab.2 x hx
        obtain ⟨z, hz, hyz⟩ := eqMembers_iff.mp hbc.2 y hy
        exact ⟨z, hz, (hlawful x hx).trans ((membersProper_iff.mp hb).1 y hy)
          ((membersProper_iff.mp hc).1 z hz) hxy hyz⟩
      | _ => simp at hbc
    | _ => simp at hab

theorem Lawful.ofMap {es : List (Value × Value)} (hlawful : ∀ e ∈ es, Lawful e.1 ∧ Lawful e.2)
    (hes : entriesProper es = true) : Lawful (.map es) := by
  refine ⟨?_, ?_, ?_⟩ <;> intro b
  · intro hb hab
    cases b with
    | map fs =>
      simp only [eq, Bool.and_eq_true, beq_iff_eq, isProper] at hab hb ⊢
      obtain ⟨gs, hperm, hsame⟩ := exists_entries hlawful hes hb hab.1 hab.2
      refine ⟨hab.1.symm, eqEntries_iff.mpr fun f hf => ?_⟩
      obtain ⟨e, he, hkey, hvalue⟩ := exists_of_forall₂ hsame (hperm.mem_iff.mpr hf)
      obtain ⟨hk, hv⟩ := (entriesProper_iff.mp hb).1 f hf
      exact ⟨e, he, (hlawful e he).1.symm hk hkey, (hlawful e he).2.symm hv hvalue⟩
    | _ => simp at hab
  · intro hb hab
    cases b with
    | map fs =>
      simp only [eq, Bool.and_eq_true, beq_iff_eq, isProper] at hab hb
      obtain ⟨gs, hperm, hsame⟩ := exists_entries hlawful hes hb hab.1 hab.2
      have hproper := fun f hf => (entriesProper_iff.mp hb).1 f (hperm.mem_iff.mp hf)
      have hhash := forall₂_of_mem hsame fun e he f hf hef =>
        (⟨(hlawful e he).1.hash (hproper f hf).1 hef.1, (hlawful e he).2.hash (hproper f hf).2 hef.2⟩ :
          hash32 e.1 = hash32 f.1 ∧ hash32 e.2 = hash32 f.2)
      rw [hash32, hash32, hashEntries_of_forall₂ hhash, hashEntries_perm hperm]
    | _ => simp at hab
  · intro c hb hc hab hbc
    cases b with
    | map fs =>
      cases c with
      | map gs =>
        simp only [eq, Bool.and_eq_true, beq_iff_eq, isProper] at hab hbc hb hc ⊢
        refine ⟨hab.1.trans hbc.1, eqEntries_iff.mpr fun e he => ?_⟩
        obtain ⟨f, hf, hef⟩ := eqEntries_iff.mp hab.2 e he
        obtain ⟨g, hg, hfg⟩ := eqEntries_iff.mp hbc.2 f hf
        obtain ⟨hfk, hfv⟩ := (entriesProper_iff.mp hb).1 f hf
        obtain ⟨hgk, hgv⟩ := (entriesProper_iff.mp hc).1 g hg
        exact ⟨g, hg, (hlawful e he).1.trans hfk hgk hef.1 hfg.1, (hlawful e he).2.trans hfv hgv hef.2 hfg.2⟩
      | _ => simp at hbc
    | _ => simp at hab

theorem Lawful.ofFloat (x : Double) : Lawful (.float x) where
  symm {b} _ hab := by
    cases b with
    | float y => exact Double.eq_symm hab
    | _ => simp at hab
  hash {b} _ hab := by
    cases b with
    | float y => exact Double.hash32_of_eq hab
    | _ => simp at hab
  trans {b c} _ _ hab hbc := by
    cases b with
    | float y =>
      cases c with
      | float z => exact Double.eq_trans hab hbc
      | _ => simp at hbc
    | _ => simp at hab

/-- References are one thing if they have one place. -/
theorem Lawful.ofObject (o : ObjectRef) : Lawful (.object o) where
  symm {b} _ hab := by
    cases b with
    | object p =>
      simp only [eq, beq_iff_eq] at hab ⊢
      exact hab.symm
    | _ => cases hab
  hash {b} _ hab := by
    cases b with
    | object p =>
      simp only [eq, beq_iff_eq] at hab
      rw [hash32, hash32, hab]
    | _ => cases hab
  trans {b c} _ _ hab hbc := by
    cases b with
    | object p =>
      cases c with
      | object q =>
        simp only [eq, beq_iff_eq] at hab hbc ⊢
        exact hab.trans hbc
      | _ => cases hbc
    | _ => cases hab

theorem Lawful.ofVar (r : VarRef) : Lawful (.var r) where
  symm {b} _ hab := by
    cases b with
    | var s =>
      simp only [eq, beq_iff_eq] at hab ⊢
      exact hab.symm
    | _ => cases hab
  hash {b} _ hab := by
    cases b with
    | var s =>
      simp only [eq, beq_iff_eq] at hab
      rw [hash32, hash32, hab]
    | _ => cases hab
  trans {b c} _ _ hab hbc := by
    cases b with
    | var s =>
      cases c with
      | var t =>
        simp only [eq, beq_iff_eq] at hab hbc ⊢
        exact hab.trans hbc
      | _ => cases hbc
    | _ => cases hab

/-- Equality of proper values is symmetric and transitive, and agrees with hashes. -/
theorem lawful {a : Value} (ha : a.isProper = true) : Lawful a := by
  induction a using inductionOn_parts with
  | h a ih =>
    cases a with
    | float x => exact .ofFloat x
    | object o => exact .ofObject o
    | var r => exact .ofVar r
    | list xs => exact .ofList fun x hx => ih x hx (areProper_iff.mp ha x hx)
    | vector xs => exact .ofVector (.ofList fun x hx => ih x hx (areProper_iff.mp ha x hx))
    | set xs => exact .ofSet (fun x hx => ih x hx ((membersProper_iff.mp ha).1 x hx)) ha
    | map es =>
      refine .ofMap (fun e he => ?_) ha
      obtain ⟨hk, hv⟩ := (entriesProper_iff.mp ha).1 e he
      exact ⟨ih e.1 (List.mem_flatMap.mpr ⟨e, he, by simp⟩) hk, ih e.2 (List.mem_flatMap.mpr ⟨e, he, by simp⟩) hv⟩
    | _ => exact .of_same fun b hab => by cases b <;> first | (cases hab; done) | simp_all

theorem eq_comm_of_isProper {a b : Value} (ha : a.isProper = true) (hb : b.isProper = true) : eq a b = eq b a :=
  Bool.eq_iff_iff.mpr ⟨(lawful ha).symm hb, (lawful hb).symm ha⟩

theorem hashCode_of_eq {a b : Value} (ha : a.isProper = true) (hb : b.isProper = true) (h : eq a b = true) :
    a.hashCode = b.hashCode := by
  rw [hashCode, hashCode, (lawful ha).hash hb h]

/-! ### What is built of proper values -/

theorem mem_insertMember {x z : Value} {xs : List Value} (h : z ∈ insertMember x xs) : z = x ∨ z ∈ xs := by
  induction xs with
  | nil => exact .inl (List.mem_singleton.mp h)
  | cons y ys ih =>
    rw [insertMember] at h
    split at h
    · exact (List.mem_cons.mp h).imp_right (List.mem_cons_of_mem _)
    · rcases List.mem_cons.mp h with rfl | h
      · exact .inr List.mem_cons_self
      · exact (ih h).imp_right (List.mem_cons_of_mem _)

theorem mem_insertEntry {k v : Value} {e : Value × Value} {es : List (Value × Value)}
    (h : e ∈ insertEntry k v es) : e = (k, v) ∨ e ∈ es := by
  induction es with
  | nil => exact .inl (List.mem_singleton.mp h)
  | cons f fs ih =>
    rw [insertEntry] at h
    split at h
    · exact (List.mem_cons.mp h).imp_right (List.mem_cons_of_mem _)
    · rcases List.mem_cons.mp h with rfl | h
      · exact .inr List.mem_cons_self
      · exact (ih h).imp_right (List.mem_cons_of_mem _)

/-- What differs from a value differs from its equals. -/
theorem eq_eq_false_of_eq {x y z : Value} (hx : x.isProper = true) (hy : y.isProper = true)
    (hz : z.isProper = true) (hyx : eq y x = true) (hyz : eq y z = false) : eq x z = false := by
  by_contra hne
  have hsame := (lawful hy).trans hx hz hyx (by simpa using hne)
  rw [hyz] at hsame
  cases hsame

theorem membersProper_insertMember {x : Value} {xs : List Value} (hx : x.isProper = true)
    (h : membersProper xs = true) : membersProper (insertMember x xs) = true := by
  induction xs with
  | nil => simp [insertMember, membersProper, hx]
  | cons y ys ih =>
    simp only [membersProper, Bool.and_eq_true, List.all_eq_true, Bool.not_eq_true'] at h
    obtain ⟨⟨hy, hdiffers⟩, hys⟩ := h
    rw [insertMember]
    split
    · rename_i hyx
      simp only [membersProper, Bool.and_eq_true, List.all_eq_true, Bool.not_eq_true']
      exact ⟨⟨hx, fun z hz => eq_eq_false_of_eq hx hy ((membersProper_iff.mp hys).1 z hz) hyx (hdiffers z hz)⟩,
        hys⟩
    · rename_i hyx
      simp only [membersProper, Bool.and_eq_true, List.all_eq_true, Bool.not_eq_true']
      refine ⟨⟨hy, fun z hz => ?_⟩, ih hys⟩
      rcases mem_insertMember hz with rfl | hz
      · exact Bool.not_eq_true _ ▸ hyx
      · exact hdiffers z hz

theorem entriesProper_insertEntry {k v : Value} {es : List (Value × Value)} (hk : k.isProper = true)
    (hv : v.isProper = true) (h : entriesProper es = true) : entriesProper (insertEntry k v es) = true := by
  induction es with
  | nil => simp [insertEntry, entriesProper, hk, hv]
  | cons f fs ih =>
    simp only [entriesProper, Bool.and_eq_true, List.all_eq_true, Bool.not_eq_true'] at h
    obtain ⟨⟨⟨hf, hf'⟩, hdiffers⟩, hfs⟩ := h
    rw [insertEntry]
    split
    · rename_i hfk
      simp only [entriesProper, Bool.and_eq_true, List.all_eq_true, Bool.not_eq_true']
      exact ⟨⟨⟨hk, hv⟩, fun g hg =>
        eq_eq_false_of_eq hk hf ((entriesProper_iff.mp hfs).1 g hg).1 hfk (hdiffers g hg)⟩, hfs⟩
    · rename_i hfk
      simp only [entriesProper, Bool.and_eq_true, List.all_eq_true, Bool.not_eq_true']
      refine ⟨⟨⟨hf, hf'⟩, fun g hg => ?_⟩, ih hfs⟩
      rcases mem_insertEntry hg with rfl | hg
      · exact Bool.not_eq_true _ ▸ hfk
      · exact hdiffers g hg

/-! ### Hereditary properties -/

/-- A property that simple values have, that a sequence has just if its items do, and that goes from a map or a set
to what is in it, and stays with it under insertion. -/
structure Hereditary (P : Value → Prop) : Prop where
  nil : P .nil
  bool : ∀ b, P (.bool b)
  char : ∀ c, P (.char c)
  int : ∀ n, P (.int n)
  float : ∀ x, P (.float x)
  str : ∀ s, P (.str s)
  regex : ∀ s, P (.regex s)
  keyword : ∀ s, P (.keyword s)
  symbol : ∀ s, P (.symbol s)
  list : ∀ {items}, P (.list items) ↔ ∀ x ∈ items, P x
  vector : ∀ {items}, P (.vector items) ↔ ∀ x ∈ items, P x
  emptySet : P (.set [])
  members : ∀ {items}, P (.set items) → ∀ x ∈ items, P x
  addMember : ∀ {x items}, P x → P (.set items) → P (.set (insertMember x items))
  emptyMap : P (.map [])
  entries : ∀ {es}, P (.map es) → ∀ e ∈ es, P e.1 ∧ P e.2
  addEntry : ∀ {k v es}, P k → P v → P (.map es) → P (.map (insertEntry k v es))

theorem hereditary_isProper : Hereditary fun v => v.isProper = true where
  nil := rfl
  bool := fun _ => rfl
  char := fun _ => rfl
  int := fun _ => rfl
  float := fun _ => rfl
  str := fun _ => rfl
  regex := fun _ => rfl
  keyword := fun _ => rfl
  symbol := fun _ => rfl
  list := areProper_iff
  vector := areProper_iff
  emptySet := rfl
  members := fun h => (membersProper_iff.mp h).1
  addMember := membersProper_insertMember
  emptyMap := rfl
  entries := fun h => (entriesProper_iff.mp h).1
  addEntry := entriesProper_insertEntry

section Hereditary

variable {P : Value → Prop} (hP : Hereditary P)

include hP

theorem Hereditary.addMembers {xs ys : List Value} (hxs : ∀ x ∈ xs, P x) (hys : P (.set ys)) :
    P (.set (xs.foldl (fun ys x => insertMember x ys) ys)) := by
  induction xs generalizing ys with
  | nil => exact hys
  | cons x xs ih =>
    obtain ⟨hx, hxs⟩ := List.forall_mem_cons.mp hxs
    exact ih hxs (hP.addMember hx hys)

theorem Hereditary.addEntries {es fs : List (Value × Value)} (hes : ∀ e ∈ es, P e.1 ∧ P e.2)
    (hfs : P (.map fs)) : P (.map (es.foldl (fun fs e => insertEntry e.1 e.2 fs) fs)) := by
  induction es generalizing fs with
  | nil => exact hfs
  | cons e es ih =>
    obtain ⟨he, hes⟩ := List.forall_mem_cons.mp hes
    exact ih hes (hP.addEntry he.1 he.2 hfs)

theorem Hereditary.ofSet {xs : List Value} (h : ∀ x ∈ xs, P x) : P (setOf xs) := hP.addMembers h hP.emptySet

theorem Hereditary.ofMap {es : List (Value × Value)} (h : ∀ e ∈ es, P e.1 ∧ P e.2) : P (mapOf es) :=
  hP.addEntries h hP.emptyMap

theorem Hereditary.toValue_atom [Libraries] (a : Atom) : P a.toValue := by
  cases a with
  | nil => exact hP.nil
  | bool b => exact hP.bool b
  | char c => exact hP.char c
  | int n => exact hP.int n
  | float x => exact hP.float x
  | str s => exact hP.str s
  | regex s =>
    rw [Atom.toValue]
    split
    · exact hP.regex s
    · exact hP.nil
  | keyword k => exact hP.keyword _
  | symbol s => exact hP.symbol _

end Hereditary

mutual

/-- What is quoted has the property. -/
theorem Hereditary.toValue [Libraries] {P : Value → Prop} (hP : Hereditary P) : ∀ d : Datum, P d.toValue
  | .atom a _ => hP.toValue_atom a
  | .list items _ => hP.list.mpr (hP.toValues items)
  | .vector items _ => hP.vector.mpr (hP.toValues items)
  | .set items _ => hP.ofSet (hP.toValues items)
  | .map entries _ => hP.ofMap (hP.toEntries entries)

theorem Hereditary.toValues [Libraries] {P : Value → Prop} (hP : Hereditary P) : ∀ ds :
    List Datum, ∀ x ∈ Datum.toValues ds, P x
  | [] => by simp [Datum.toValues]
  | d :: ds => by
    simp only [Datum.toValues, List.forall_mem_cons]
    exact ⟨hP.toValue d, hP.toValues ds⟩

theorem Hereditary.toEntries [Libraries] {P : Value → Prop} (hP : Hereditary P) :
    ∀ es : List (Datum × Datum), ∀ e ∈ Datum.toEntries es, P e.1 ∧ P e.2
  | [] => by simp [Datum.toEntries]
  | (k, v) :: es => by
    simp only [Datum.toEntries, List.forall_mem_cons]
    exact ⟨⟨hP.toValue k, hP.toValue v⟩, hP.toEntries es⟩

end

end Value

/-- What is quoted denotes proper values. -/
theorem Datum.isProper_toValue [Libraries] (d : Datum) :
    d.toValue.isProper = true := Value.hereditary_isProper.toValue d

end LispMachine
