import Mathlib.Data.List.Forall2
import LispMachine.Proofs.ClassFile.Image

/-! # Classes loaded from images

Whatever class file loads from the image of a class file says the same about everything that is not written as
a number: the names, the flags, and the methods one by one, each with its parameters and with code if there was
code (`Outlined`).  This holds of every class file that can be loaded at all, also where a double does not read
back (`outlined_of_ofBytes`). -/

namespace LispMachine

namespace Json

/-! ### Items and members -/

theorem Like.items {js : List Json} {j' : Json} (h : Like (.arr js) j') :
    ∃ js', j' = .arr js' ∧ List.Forall₂ Like js js' := by
  cases h with
  | arr hlength hitems => exact ⟨_, rfl, List.forall₂_iff_zip.mpr ⟨hlength, hitems _⟩⟩

theorem Like.members {ms : List (String × Json)} {j' : Json} (h : Like (.obj ms) j') :
    ∃ ms', j' = .obj ms' ∧ ms.map Prod.fst = ms'.map Prod.fst ∧
      List.Forall₂ Like (ms.map Prod.snd) (ms'.map Prod.snd) := by
  cases h with
  | obj hkeys hvalues =>
    have hlength := congrArg List.length hkeys
    simp only [List.length_map] at hlength
    exact ⟨_, rfl, hkeys, List.forall₂_iff_zip.mpr ⟨by simpa using hlength, hvalues _⟩⟩

/-! ### Values without numbers -/

/-- There is no number in the value, so that only the value itself is like it. -/
def Exact (j : Json) : Prop := ∀ j', Like j j' → j' = j

theorem exact_str (s : String) : Exact (.str s) := by
  rintro j' ⟨⟩
  rfl

theorem exact_bool (b : Bool) : Exact (.bool b) := by
  rintro j' ⟨⟩
  rfl

theorem eq_of_likes {js js' : List Json} (hexact : ∀ j ∈ js, Exact j) (h : List.Forall₂ Like js js') : js' = js := by
  induction h with
  | nil => rfl
  | cons hlike _ ih =>
    rw [hexact _ List.mem_cons_self _ hlike, ih fun j hj => hexact j (List.mem_cons_of_mem _ hj)]

theorem exact_arr {js : List Json} (h : ∀ j ∈ js, Exact j) : Exact (.arr js) := by
  intro j' hj'
  obtain ⟨js', rfl, hitems⟩ := hj'.items
  rw [eq_of_likes h hitems]

theorem exact_map {α : Type} {encode : α → Json} (h : ∀ a, Exact (encode a)) (as : List α) :
    Exact (.arr (as.map encode)) :=
  exact_arr fun j hj => by
    obtain ⟨a, -, rfl⟩ := List.mem_map.mp hj
    exact h a

theorem exact_obj {ms : List (String × Json)} (h : ∀ m ∈ ms, Exact m.2) : Exact (.obj ms) := by
  intro j' hj'
  obtain ⟨ms', rfl, hkeys, hvalues⟩ := hj'.members
  have hsame : ms'.map Prod.snd = ms.map Prod.snd := by
    refine eq_of_likes (fun j hj => ?_) hvalues
    obtain ⟨m, hm, rfl⟩ := List.mem_map.mp hj
    exact h m hm
  rw [List.zip_of_prod hkeys.symm hsame, ← List.zip_of_prod rfl rfl]

/-! ### Members -/

/-- The last member under a key has its like in the other object. -/
theorem Like.member? {j j' v : Json} {key : String} (h : Like j j') (hv : j.member? key = some v) :
    ∃ v', j'.member? key = some v' ∧ Like v v' := by
  cases j with
  | obj ms =>
    obtain ⟨ms', rfl, hkeys, hvalues⟩ := h.members
    have hpairs : List.Forall₂ (fun m m' => m.1 = m'.1 ∧ Like m.2 m'.2) ms ms' := by
      clear hv h
      induction ms generalizing ms' with
      | nil =>
        obtain rfl := List.map_eq_nil_iff.mp hkeys.symm
        exact .nil
      | cons m ms ih =>
        cases ms' with
        | nil => cases hkeys
        | cons m' ms' =>
          obtain ⟨hkey, hkeys⟩ := List.cons.inj hkeys
          cases hvalues with
          | cons hvalue hvalues => exact .cons ⟨hkey, hvalue⟩ (ih ms' hkeys hvalues)
    have hfind : ∀ {l l' : List (String × Json)}, List.Forall₂ (fun m m' => m.1 = m'.1 ∧ Like m.2 m'.2) l l' →
        ∀ {m}, l.find? (fun m => m.1 == key) = some m →
          ∃ m', l'.find? (fun m => m.1 == key) = some m' ∧ Like m.2 m'.2 := by
      intro l l' hl
      induction hl with
      | nil => exact nofun
      | @cons a a' l l' hhead _ ih =>
        intro m hm
        rw [List.find?_cons] at hm ⊢
        rw [← hhead.1]
        split at hm
        · cases hm
          exact ⟨a', rfl, hhead.2⟩
        · exact ih hm
    obtain ⟨m, hm, rfl⟩ := Option.map_eq_some_iff.mp hv
    obtain ⟨m', hm', hlike⟩ := hfind (List.rel_reverse hpairs) hm
    exact ⟨m'.2, by rw [Json.member?, hm']; rfl, hlike⟩
  | _ => cases hv

/-- A member without numbers is decoded to what it stands for. -/
theorem Like.field? {α : Type} {decode : Json → Option α} {j j' v : Json} {key : String} {a b : α}
    (h : Like j j') (hv : j.member? key = some v) (hexact : Exact v) (hdecode : decode v = some a)
    (hb : j'.field? key decode = some b) : b = a := by
  obtain ⟨v', hv', hlike⟩ := h.member? hv
  rw [Json.field?, hv', hexact v' hlike, Option.bind_some, hdecode] at hb
  exact (Option.some.inj hb).symm

/-- Items that are decoded one by one. -/
theorem forall₂_of_list? {α : Type} {decode : Json → Option α} {js : List Json} {j' : Json} {as : List α}
    (hlike : Like (.arr js) j') (h : j'.list? decode = some as) :
    List.Forall₂ (fun j a => ∃ j', Like j j' ∧ decode j' = some a) js as := by
  obtain ⟨js', rfl, hitems⟩ := hlike.items
  clear hlike
  replace h : List.mapM decode _ = some as := h
  induction hitems generalizing as with
  | nil =>
    cases h
    exact .nil
  | cons hitem _ ih =>
    rw [List.mapM_cons] at h
    obtain ⟨a, ha, h⟩ := Option.bind_eq_some_iff.mp h
    obtain ⟨rest, hrest, h⟩ := Option.bind_eq_some_iff.mp h
    cases h
    exact .cons ⟨_, hitem, ha⟩ (ih hrest)

end Json

open Json

/-! ### Types and methods -/

theorem Ty.exact (ty : Ty) : Exact ty.toJson := by
  cases ty with
  | any => exact exact_str _
  | void => exact exact_str _
  | prim p => exact exact_obj fun m hm => List.mem_singleton.mp hm ▸ exact_str _
  | cls name => exact exact_obj fun m hm => List.mem_singleton.mp hm ▸ exact_str _

theorem ClassFlags.exact (f : ClassFlags) : Exact f.toJson := by
  refine exact_obj fun m hm => ?_
  simp only [List.mem_cons, List.not_mem_nil, or_false] at hm
  rcases hm with rfl | rfl | rfl <;> exact exact_bool _

/-- The method is the same up to what its code is, if it has code. -/
structure MethodDef.Outlined (m m' : MethodDef) : Prop where
  same : m' = { m with code := m'.code }
  hasCode : m'.code.isSome = m.code.isSome

theorem MethodDef.outlined_of_ofJson? [Libraries] {m m' : MethodDef} {j' : Json} (hlike : Like m.toJson j')
    (h : MethodDef.ofJson? j' = some m') : m.Outlined m' := by
  simp only [MethodDef.ofJson?, Option.bind_eq_bind, Option.bind_eq_some_iff] at h
  obtain ⟨name, hname, params, hparams, paramNames, hnames, ret, hret, isStatic, hstatic, isVariadic, hvariadic,
    code, hcode, heq⟩ := h
  cases heq
  have hcodes : code.isSome = m.code.isSome := by
    have hmember : m.toJson.member? "code" = some (.ofOption (m.code.map Code.toJson)) := rfl
    obtain ⟨v', hv', hv⟩ := hlike.member? hmember
    rw [optionalField?, optional?, hv'] at hcode
    cases hm : m.code with
    | none =>
      rw [hm] at hv
      cases hv
      cases hcode
      rfl
    | some c =>
      rw [hm] at hv
      cases hv
      obtain ⟨c', -, rfl⟩ := Option.map_eq_some_iff.mp hcode
      rfl
  refine ⟨?_, hcodes⟩
  obtain rfl : name = m.name := hlike.field? rfl (exact_str _) rfl hname
  obtain rfl : params = m.params :=
    hlike.field? rfl (exact_map Ty.exact _) (Ty.encodes_list _).decoded hparams
  obtain rfl : paramNames = m.paramNames :=
    hlike.field? rfl (exact_map exact_str _) (encodes_strings _).decoded hnames
  obtain rfl : ret = m.ret := hlike.field? rfl m.ret.exact m.ret.encodes.decoded hret
  obtain rfl : isStatic = m.isStatic := hlike.field? rfl (exact_bool _) rfl hstatic
  obtain rfl : isVariadic = m.isVariadic := hlike.field? rfl (exact_bool _) rfl hvariadic
  rfl

/-! ### Classes -/

namespace ClassFile

/-- The class is the same up to the code of its methods, its fields and its call sites. -/
structure Outlined (c c' : ClassFile) : Prop where
  name : c'.name = c.name
  superclass : c'.superclass = c.superclass
  interfaces : c'.interfaces = c.interfaces
  flags : c'.flags = c.flags
  methods : List.Forall₂ MethodDef.Outlined c.methods c'.methods

theorem outlined_of_ofJson? [Libraries] {c c' : ClassFile} {j' : Json} (hlike : Like c.toJson j')
    (h : ClassFile.ofJson? j' = some c') : c.Outlined c' := by
  have hmember : ∀ {key : String} {v : Json}, key ≠ "source" →
      (Json.obj [("name", .str c.name), ("superclass", .str c.superclass), ("interfaces", .ofStrings c.interfaces),
        ("flags", c.flags.toJson), ("fields", .arr (c.fields.map FieldDef.toJson)),
        ("methods", .arr (c.methods.map MethodDef.toJson)),
        ("call_sites", .arr (c.sites.map SiteSpec.toJson))]).member? key = some v →
      c.toJson.member? key = some v := by
    intro key v hkey hv
    cases hsource : c.source with
    | none => rwa [ClassFile.toJson, hsource, List.append_nil]
    | some s =>
      rw [ClassFile.toJson, hsource, member?, List.reverse_append, List.reverse_singleton, List.singleton_append,
        List.find?_cons_of_neg (by simpa using hkey.symm)]
      exact hv
  simp only [ClassFile.ofJson?, Option.bind_eq_bind, Option.bind_eq_some_iff] at h
  obtain ⟨name, hname, superclass, hsuper, interfaces, hinterfaces, flags, hflags, fields, -, methods, hmethods,
    sites, -, source, -, heq⟩ := h
  cases heq
  refine ⟨?_, ?_, ?_, ?_, ?_⟩
  · exact hlike.field? (hmember (by decide) rfl) (exact_str c.name) rfl hname
  · exact hlike.field? (hmember (by decide) rfl) (exact_str c.superclass) rfl hsuper
  · exact hlike.field? (hmember (by decide) rfl) (exact_map exact_str c.interfaces)
      (encodes_strings c.interfaces).decoded hinterfaces
  · exact hlike.field? (hmember (by decide) rfl) c.flags.exact c.flags.encodes.decoded hflags
  · have hlist : c.toJson.member? "methods" = some (.arr (c.methods.map MethodDef.toJson)) :=
      hmember (by decide) rfl
    obtain ⟨v', hv', hv⟩ := hlike.member? hlist
    rw [field?, hv', Option.bind_some] at hmethods
    refine (List.forall₂_map_left_iff.mp (forall₂_of_list? hv hmethods)).imp ?_
    rintro m m' ⟨j', hm, hm'⟩
    exact MethodDef.outlined_of_ofJson? hm hm'

/-- What the image of a class file loads as. -/
theorem outlined_of_ofBytes [Libraries] {c c' : ClassFile} (h : ofBytes c.toBytes = .ok c') : c.Outlined c' := by
  have hbody : ofBody? c.bodyText.toUTF8.toList = some c' := ofBody?_of_ofBytes _ h
  rw [ofBody?, fromUTF8?_toUTF8] at hbody
  simp only [Option.bind_eq_bind, Option.bind_some, Option.bind_eq_some_iff] at hbody
  obtain ⟨j', hparse, hdecode⟩ := hbody
  exact outlined_of_ofJson? (Libraries.like_of_parse _ _ hparse) hdecode

end ClassFile

/-! ### Numbers of slots -/

theorem Json.word?_lt {bits n : Nat} {j : Json} (h : j.word? bits = some n) : n < 2 ^ bits := by
  obtain ⟨m, -, h⟩ := Option.bind_eq_some_iff.mp h
  split at h
  · cases h
    assumption
  · cases h

/-- What is among decoded items was decoded from one of them. -/
theorem exists_of_mapM {α β : Type} {decode : α → Option β} {xs : List α} {ys : List β} {y : β}
    (h : xs.mapM decode = some ys) (hy : y ∈ ys) : ∃ x, decode x = some y := by
  induction xs generalizing ys with
  | nil =>
    cases h
    cases hy
  | cons x xs ih =>
    rw [List.mapM_cons] at h
    obtain ⟨z, hz, h⟩ := Option.bind_eq_some_iff.mp h
    obtain ⟨rest, hrest, h⟩ := Option.bind_eq_some_iff.mp h
    cases h
    rcases List.mem_cons.mp hy with rfl | hy
    · exact ⟨x, hz⟩
    · exact ih hrest hy

theorem Code.maxLocals_lt {c : Code} {j : Json} (h : Code.ofJson? j = some c) : c.maxLocals < 2 ^ 16 := by
  simp only [Code.ofJson?, Option.bind_eq_bind, Option.bind_eq_some_iff] at h
  obtain ⟨_, -, _, -, _, -, _, -, _, -, slots, hslots, heq⟩ := h
  cases heq
  obtain ⟨v, -, hv⟩ := Option.bind_eq_some_iff.mp hslots
  exact word?_lt hv

theorem MethodDef.maxLocals_lt {m : MethodDef} {code : Code} {j : Json} (h : MethodDef.ofJson? j = some m)
    (hcode : m.code = some code) : code.maxLocals < 2 ^ 16 := by
  simp only [MethodDef.ofJson?, Option.bind_eq_bind, Option.bind_eq_some_iff] at h
  obtain ⟨_, -, _, -, _, -, _, -, _, -, _, -, decoded, hdecoded, heq⟩ := h
  cases heq
  obtain rfl : decoded = some code := hcode
  rw [optionalField?] at hdecoded
  split at hdecoded
  · cases hdecoded
  · obtain ⟨c, hc, heq⟩ := Option.map_eq_some_iff.mp hdecoded
    cases heq
    exact Code.maxLocals_lt hc

/-- An image keeps the number of slots of a method in sixteen bits. -/
theorem ClassFile.maxLocals_lt [Libraries] {bytes : List UInt8} {c : ClassFile} {m : MethodDef} {code : Code}
    (h : ofBody? bytes = some c) (hm : m ∈ c.methods) (hcode : m.code = some code) : code.maxLocals < 2 ^ 16 := by
  simp only [ofBody?, ClassFile.ofJson?, Option.bind_eq_bind, Option.bind_eq_some_iff] at h
  obtain ⟨_, -, _, -, _, -, _, -, _, -, _, -, _, -, methods, hmethods, _, -, _, -, heq⟩ := h
  cases heq
  obtain ⟨v, -, hv⟩ := Option.bind_eq_some_iff.mp hmethods
  obtain ⟨items, -, hitems⟩ := Option.bind_eq_some_iff.mp hv
  obtain ⟨j, hj⟩ := exists_of_mapM hitems hm
  exact MethodDef.maxLocals_lt hj hcode

end LispMachine
