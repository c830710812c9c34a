import LispMachine.Form.Template
import LispMachine.Proofs.Value.Renaming

/-! # What a template stands for

A template is a value once it is known which name each of its symbols stands for and which value each of its
unquoted forms has.  `fill?` is that value: the elements of a collection come in their order, each of them
once, and where an element is spliced in, the elements of its sequence come in its place.  Putting other
names and values in, which one renaming of symbols leads to, leads to the renamed value (`fill?_rename`). -/

namespace LispMachine.Template

/-- What the symbols and the unquoted forms of a template stand for. -/
structure Filling where
  name : String → String
  value : Datum → Value

/-- What an element with a value puts into a collection: the elements of the value, if these are spliced in. -/
def contribution? : Value × Bool → Option (List Value)
  | (v, true) => v.items?
  | (v, false) => some [v]

/-- The value of an element whose elements are not spliced in. -/
def whole? : Value × Bool → Option Value
  | (_, true) => none
  | (v, false) => some v

mutual
/-- The value of an element, and whether its elements are spliced in.  There is none if something that is not
a sequence would have to be spliced in, or something into a map. -/
def fill? [Libraries] (f : Filling) : Datum → Option (Value × Bool)
  | .atom (.symbol name) _ => some (.symbolNamed (f.name name), false)
  | .atom a _ => some (a.toValue, false)
  | .list items i =>
    match unquoted? (.list items i) with
    | some (inner, splice) => some (f.value inner, splice)
    | none => do return (.list (← fillItems? f items), false)
  | .vector items _ => do return (.vector (← fillItems? f items), false)
  | .set items _ => do return (.setOf (← fillItems? f items), false)
  | .map entries _ => do return (.mapOf (← fillEntries? f entries), false)
termination_by structural d => d

/-- The values of elements in a row. -/
def fillItems? [Libraries] (f : Filling) : List Datum → Option (List Value)
  | [] => some []
  | d :: ds => do
    let vs ← contribution? (← fill? f d)
    let rest ← fillItems? f ds
    return vs ++ rest
termination_by structural ds => ds

def fillEntries? [Libraries] (f : Filling) : List (Datum × Datum) → Option (List (Value × Value))
  | [] => some []
  | (k, v) :: es => do
    let key ← whole? (← fill? f k)
    let value ← whole? (← fill? f v)
    let rest ← fillEntries? f es
    return (key, value) :: rest
termination_by structural es => es
end

mutual
/-- The symbols of a template, those in unquoted forms left out. -/
def symbolsOf : Datum → List String
  | .atom (.symbol name) _ => [name]
  | .atom _ _ => []
  | .list items i => if (unquoted? (.list items i)).isSome then [] else symbolsOfAll items
  | .vector items _ => symbolsOfAll items
  | .set items _ => symbolsOfAll items
  | .map entries _ => symbolsOfEntries entries
termination_by structural d => d

def symbolsOfAll : List Datum → List String
  | [] => []
  | d :: ds => symbolsOf d ++ symbolsOfAll ds
termination_by structural ds => ds

def symbolsOfEntries : List (Datum × Datum) → List String
  | [] => []
  | (k, v) :: es => symbolsOf k ++ symbolsOf v ++ symbolsOfEntries es
termination_by structural es => es
end

mutual
/-- The unquoted forms of a template. -/
def formsOf : Datum → List Datum
  | .atom _ _ => []
  | .list items i =>
    match unquoted? (.list items i) with
    | some (inner, _) => [inner]
    | none => formsOfAll items
  | .vector items _ => formsOfAll items
  | .set items _ => formsOfAll items
  | .map entries _ => formsOfEntries entries
termination_by structural d => d

def formsOfAll : List Datum → List Datum
  | [] => []
  | d :: ds => formsOf d ++ formsOfAll ds
termination_by structural ds => ds

def formsOfEntries : List (Datum × Datum) → List Datum
  | [] => []
  | (k, v) :: es => formsOf k ++ formsOf v ++ formsOfEntries es
termination_by structural es => es
end

/-! ### Renaming -/

theorem rename_atom [Libraries] (ρ : Symbol → Symbol) {a : Atom} (ha : ∀ name, a ≠ .symbol name) :
    Value.rename ρ a.toValue = a.toValue := by
  refine Value.rename_of_fixed ρ a.toValue ?_
  cases a with
  | symbol name => exact absurd rfl (ha name)
  | regex source =>
    rw [Atom.toValue]
    split <;> nofun
  | _ => nofun

section Rename

variable {f g : Filling} {ρ : Symbol → Symbol}

/-- The second filling gives renamed what the first one gives. -/
structure Renames (ρ : Symbol → Symbol) (f g : Filling) (names : List String) (forms : List Datum) : Prop where
  names : ∀ x ∈ names, Symbol.parse (g.name x) = ρ (Symbol.parse (f.name x))
  values : ∀ d ∈ forms, g.value d = (f.value d).rename ρ

theorem Renames.of_append {xs ys : List String} {ds es : List Datum} (h : Renames ρ f g (xs ++ ys) (ds ++ es)) :
    Renames ρ f g xs ds ∧ Renames ρ f g ys es :=
  ⟨⟨fun x hx => h.names x (List.mem_append_left ys hx), fun d hd => h.values d (List.mem_append_left es hd)⟩,
    ⟨fun x hx => h.names x (List.mem_append_right xs hx), fun d hd => h.values d (List.mem_append_right ds hd)⟩⟩

theorem contribution?_rename (v : Value) (splice : Bool) :
    contribution? (v.rename ρ, splice) = (contribution? (v, splice)).map (List.map (Value.rename ρ)) := by
  cases splice with
  | true => exact Value.items?_rename ρ v
  | false => rfl

mutual
/-- The renamed names and values fill a template to the renamed value. -/
theorem fill?_rename [Libraries] (hρ : Function.Injective ρ) (d : Datum) (h : Renames ρ f g (symbolsOf d) (formsOf d)) :
    fill? g d = (fill? f d).map fun r => (r.1.rename ρ, r.2) := by
  match d with
  | .atom a i =>
    cases a with
    | symbol name =>
      have hname := h.names name (List.mem_singleton_self name)
      simp [fill?, Value.symbolNamed, Value.rename, hname]
    | _ => simp [fill?, rename_atom ρ]
  | .list items i =>
    cases hinner : unquoted? (.list items i) with
    | some r =>
      have hvalue := h.values r.1 (by simp [formsOf, hinner])
      simp [fill?, hinner, hvalue]
    | none =>
      simp only [symbolsOf, formsOf, hinner, Option.isSome_none, Bool.false_eq_true, if_false] at h
      have hitems := fillItems?_rename hρ items h
      cases hf : fillItems? f items <;> simp [fill?, hinner, hitems, hf]
  | .vector items i =>
    have hitems := fillItems?_rename hρ items h
    cases hf : fillItems? f items <;> simp [fill?, hitems, hf]
  | .set items i =>
    have hitems := fillItems?_rename hρ items h
    cases hf : fillItems? f items <;> simp [fill?, hitems, hf, Value.rename_setOf hρ]
  | .map entries i =>
    have hentries := fillEntries?_rename hρ entries h
    cases hf : fillEntries? f entries <;> simp [fill?, hentries, hf, Value.rename_mapOf hρ]

theorem fillItems?_rename [Libraries] (hρ : Function.Injective ρ) (ds : List Datum)
    (h : Renames ρ f g (symbolsOfAll ds) (formsOfAll ds)) :
    fillItems? g ds = (fillItems? f ds).map (List.map (Value.rename ρ)) := by
  match ds with
  | [] => rfl
  | d :: ds =>
    obtain ⟨hd, hds⟩ := h.of_append
    rw [fillItems?, fillItems?, fill?_rename hρ d hd, fillItems?_rename hρ ds hds]
    cases fill? f d with
    | none => rfl
    | some r => cases hvs : contribution? r <;> cases fillItems? f ds <;> simp [contribution?_rename, hvs]

theorem fillEntries?_rename [Libraries] (hρ : Function.Injective ρ) (es : List (Datum × Datum))
    (h : Renames ρ f g (symbolsOfEntries es) (formsOfEntries es)) :
    fillEntries? g es = (fillEntries? f es).map (List.map fun e => (e.1.rename ρ, e.2.rename ρ)) := by
  match es with
  | [] => rfl
  | (k, v) :: es =>
    obtain ⟨hkv, hes⟩ := h.of_append
    obtain ⟨hk, hv⟩ := hkv.of_append
    rw [fillEntries?, fillEntries?, fill?_rename hρ k hk, fill?_rename hρ v hv, fillEntries?_rename hρ es hes]
    cases fill? f k with
    | none => rfl
    | some key =>
      cases fill? f v with
      | none => simp
      | some value =>
        obtain ⟨key, splice⟩ := key
        obtain ⟨value, splice'⟩ := value
        cases splice <;> cases splice' <;> cases fillEntries? f es <;> simp [whole?]
end

end Rename

end LispMachine.Template
