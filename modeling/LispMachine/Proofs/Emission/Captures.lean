import Mathlib.Data.List.Nodup
import Mathlib.Data.List.Perm.Subperm
import LispMachine.Proofs.ClassFile.Loading
import LispMachine.Proofs.Emission.Instances

/-! # Captured locals

A class that captures a local keeps one record of it, with a field of its own: the spelling of the name, or the first
of the names numbered from it, that no other field of the class has (`captureField_first`).  A sequence of captures
keeps the records apart (`captures_run`), and so an instance of a closure finds in each field what it was made from
(`captures_read_back`). -/

namespace LispMachine.Emission

open Form Machine

/-! ### Field names -/

section Names

variable {c : ClassContext} {base name : String} {taken : List String} {ty : Ty}

/-- A name with a number. -/
def numberedName (base : String) (n : Nat) : String := base ++ "_" ++ toString n

/-- The names tried for a field, in order. -/
def candidate (base : String) : Nat → String
  | 0 => base
  | n + 1 => numberedName base (n + 1)

theorem toString_inj {m n : Nat} (h : toString m = toString n) : m = n := by
  have hdigits := congrArg (fun s => Nat.ofDigitChars 10 s.toList 0) h
  simpa [Nat.toString_eq_ofList_toDigits] using hdigits

theorem numberedName_ne (base : String) (n : Nat) : base ≠ numberedName base n := by
  intro h
  have hlength := congrArg String.length h
  have hseparator : "_".length = 1 := rfl
  simp only [numberedName, String.length_append] at hlength
  omega

theorem candidate_injective (base : String) : Function.Injective (candidate base) := by
  intro m n h
  cases m with
  | zero =>
    cases n with
    | zero => rfl
    | succ n => exact absurd h (numberedName_ne base _)
  | succ m =>
    cases n with
    | zero => exact absurd h.symm (numberedName_ne base _)
    | succ n => exact toString_inj (by simpa [candidate, numberedName] using h)

/-- Of more names than are taken, one is not. -/
theorem exists_candidate_free (base : String) (taken : List String) : ∃ n ≤ taken.length, candidate base n ∉ taken := by
  by_contra! hall
  have hnodup : ((List.range (taken.length + 1)).map (candidate base)).Nodup :=
    List.Nodup.map (candidate_injective base) List.nodup_range
  have hsubset : (List.range (taken.length + 1)).map (candidate base) ⊆ taken := by
    intro x hx
    obtain ⟨n, hn, rfl⟩ := List.mem_map.1 hx
    exact hall n (Nat.le_of_lt_succ (List.mem_range.1 hn))
  have hlength := (List.subperm_of_subset hnodup hsubset).length_le
  rw [List.length_map, List.length_range] at hlength
  omega

/-- A field name is the first that is not taken. -/
def IsFirstFree (taken : List String) (base field : String) : Prop :=
  ∃ n, field = candidate base n ∧ candidate base n ∉ taken ∧ ∀ m < n, candidate base m ∈ taken

theorem freshField_first {fuel n : Nat} (htried : ∀ m ≤ n, candidate base m ∈ taken)
    (hfree : ∃ k ≤ n + fuel, candidate base k ∉ taken) :
    IsFirstFree taken base (FormM.freshField taken base fuel (n + 1)) := by
  induction fuel generalizing n with
  | zero =>
    obtain ⟨k, hk, hnot⟩ := hfree
    exact absurd (htried k hk) hnot
  | succ fuel ih =>
    rw [FormM.freshField]
    split
    · rename_i hcontains
      refine ih (fun m hm => ?_) (by rwa [Nat.add_right_comm])
      rcases Nat.le_succ_iff.1 hm with hm | rfl
      · exact htried m hm
      · exact List.contains_iff_mem.1 hcontains
    · rename_i hcontains
      refine ⟨n + 1, rfl, fun hmem => hcontains (List.contains_iff_mem.2 hmem), fun m hm => ?_⟩
      exact htried m (Nat.le_of_lt_succ hm)

/-- The names of the fields a class has and is to get. -/
def takenFields (captures : List Capture) (fields : List FieldDef) : List String :=
  captures.map Capture.field ++ fields.map FieldDef.name

/-- The search for a field name ends with the first name that is not taken. -/
theorem captureField_first (c : ClassContext) (name : String) :
    IsFirstFree (takenFields c.captures c.file.fields) (munge name) (FormM.captureField c name) := by
  unfold FormM.captureField
  dsimp only
  split
  · rename_i hcontains
    refine freshField_first (fun m hm => ?_) ?_
    · rw [Nat.le_zero.1 hm]
      exact List.contains_iff_mem.1 hcontains
    · rw [Nat.zero_add]
      exact exists_candidate_free _ _
  · rename_i hcontains
    exact ⟨0, rfl, fun hmem => hcontains (List.contains_iff_mem.2 hmem), fun m hm => absurd hm (Nat.not_lt_zero m)⟩

end Names

/-! ### Records -/

section Records

variable {c c' : ClassContext} {asked : List (String × Ty)} {name : String} {ty : Ty} {s : FormState}

/-- What a class has captured when it has been asked for some locals in order: of each the first time, under the type it
then had, in the first field that was free. -/
structure Captured (c c' : ClassContext) (asked : List (String × Ty)) : Prop where
  same : c' = { c with captures := c'.captures }
  names : c'.captures.map Capture.name = (asked.map Prod.fst).eraseDups
  once : (c'.captures.map Capture.name).Nodup
  types : ∀ r ∈ c'.captures, asked.find? (fun q => q.1 == r.name) = some (r.name, r.ty)
  fields : ∀ i r, c'.captures[i]? = some r →
    IsFirstFree (takenFields (c'.captures.take i) c.file.fields) (munge r.name) r.field

/-- The record of a local, made if there is none. -/
def recordFor (c : ClassContext) (name : String) (ty : Ty) : Capture :=
  (c.captures.find? fun r => r.name == name).getD { name, field := FormM.captureField c name, ty }

/-- The class with that record. -/
def capturing (c : ClassContext) (name : String) (ty : Ty) : ClassContext :=
  match c.captures.find? fun r => r.name == name with
  | some _ => c
  | none => { c with captures := c.captures ++ [recordFor c name ty] }

/-- The current class stands where the work at hand says. -/
theorem currentClass_at (h : FormM.currentClass s = .ok c s) :
    ∃ i, FormM.ownerIndex s = .ok i s ∧ s.classes[i]? = some c := by
  obtain ⟨s₁, s₂, h₁, h⟩ := State.ok_of_bind h
  cases h₁
  obtain ⟨i, s₁, howner, h⟩ := State.ok_of_bind h
  cases hc : s.classes[i]? with
  | none =>
    rw [hc] at h
    cases h
  | some c' =>
    rw [hc] at h
    cases h
    exact ⟨i, howner, hc⟩

theorem currentClass_of_at {i : Nat} (howner : FormM.ownerIndex s = .ok i s) (hc : s.classes[i]? = some c) :
    FormM.currentClass s = .ok c s := by
  rw [FormM.currentClass, State.bind_of_ok (State.get_eq s), State.bind_of_ok howner, hc]
  rfl

theorem ownerIndex_modify {i : Nat} (howner : FormM.ownerIndex s = .ok i s) (f : ClassContext → ClassContext) :
    FormM.ownerIndex { s with classes := s.classes.modify i f } = .ok i { s with classes := s.classes.modify i f } := by
  unfold FormM.ownerIndex at howner ⊢
  rw [State.bind_of_ok (State.get_eq _)] at howner ⊢
  cases hmethods : s.methods with
  | cons m rest =>
    simp only [hmethods] at howner ⊢
    cases howner
    rfl
  | nil =>
    have hempty : (s.classes.modify i f).isEmpty = s.classes.isEmpty := by simp [Array.isEmpty]
    simp only [hmethods, hempty, Array.size_modify] at howner ⊢
    cases hnone : s.classes.isEmpty with
    | true =>
      simp only [hnone, if_true] at howner
      cases howner
    | false =>
      simp only [hnone, Bool.false_eq_true, if_false] at howner ⊢
      cases howner
      rfl

/-- Capturing a local gives its record, which is in the class then. -/
theorem capture_run (hclass : FormM.currentClass s = .ok c s) (hmode : c.mode ≠ .type) (name : String) (ty : Ty) :
    ∃ t, FormM.capture name ty s = .ok (recordFor c name ty) t ∧
      FormM.currentClass t = .ok (capturing c name ty) t := by
  rw [FormM.capture, State.bind_of_ok hclass, if_neg hmode]
  cases hfind : c.captures.find? fun r => r.name == name with
  | some r =>
    refine ⟨s, by simp only [recordFor, hfind]; rfl, ?_⟩
    rw [capturing, hfind]
    exact hclass
  | none =>
    have hrecord : recordFor c name ty = { name, field := FormM.captureField c name, ty } := by
      rw [recordFor, hfind]
      rfl
    obtain ⟨i, howner, hc⟩ := currentClass_at hclass
    let record := recordFor c name ty
    let grow (c : ClassContext) : ClassContext := { c with captures := c.captures ++ [record] }
    refine ⟨_, ?_, currentClass_of_at (ownerIndex_modify howner grow) ?_⟩
    · dsimp only
      rw [FormM.modifyClass, bind_assoc, State.bind_of_ok howner, ← hrecord]
      rfl
    · rw [Array.getElem?_modify, if_pos rfl, hc, capturing, hfind]
      rfl

theorem Captured.start (hempty : c.captures = []) : Captured c c [] where
  same := rfl
  names := by
    rw [hempty]
    rfl
  once := by simp [hempty]
  types := by simp [hempty]
  fields := by simp [hempty]

theorem recordFor_name (c : ClassContext) (name : String) (ty : Ty) : (recordFor c name ty).name = name := by
  unfold recordFor
  cases hfind : c.captures.find? fun r => r.name == name with
  | none => rfl
  | some r => simpa using List.find?_some hfind

theorem recordFor_mem (c : ClassContext) (name : String) (ty : Ty) :
    recordFor c name ty ∈ (capturing c name ty).captures := by
  unfold capturing
  split
  · rename_i r hfind
    rw [recordFor, hfind]
    exact List.mem_of_find?_eq_some hfind
  · exact List.mem_append_right _ (List.mem_singleton.2 rfl)

theorem capturing_captures (c : ClassContext) (name : String) (ty : Ty) :
    c.captures <+: (capturing c name ty).captures := by
  unfold capturing
  split
  · exact List.prefix_refl _
  · exact List.prefix_append _ _

/-- The locals asked for are those with a record. -/
theorem Captured.mem_asked (h : Captured c c' asked) :
    name ∈ asked.map Prod.fst ↔ ∃ r ∈ c'.captures, r.name = name := by
  rw [← List.mem_eraseDups, ← h.names, List.mem_map]

/-- A record keeps the type of the first time. -/
theorem Captured.types_append (h : Captured c c' asked) (more : List (String × Ty)) :
    ∀ r ∈ c'.captures, (asked ++ more).find? (fun q => q.1 == r.name) = some (r.name, r.ty) := by
  intro r hr
  rw [List.find?_append, h.types r hr]
  rfl

/-- A local that has a record is asked for again. -/
theorem Captured.again (h : Captured c c' asked) (ty : Ty) (hname : name ∈ asked.map Prod.fst) :
    Captured c c' (asked ++ [(name, ty)]) where
  same := h.same
  names := by
    have hknown : [name].removeAll (asked.map Prod.fst) = [] := by simp [List.removeAll, hname]
    rw [List.map_append, List.map_singleton, List.eraseDups_append, hknown, h.names]
    exact (List.append_nil _).symm
  once := h.once
  types := h.types_append _
  fields := h.fields

/-- A local is asked for the first time. -/
theorem Captured.first (h : Captured c c' asked) (ty : Ty) (hname : name ∉ asked.map Prod.fst) :
    Captured c { c' with captures := c'.captures ++ [{ name, field := FormM.captureField c' name, ty }] }
      (asked ++ [(name, ty)]) where
  same := by rw [h.same]
  names := by
    have hnew : [name].removeAll (asked.map Prod.fst) = [name] := by simp [List.removeAll, hname]
    rw [List.map_append, List.map_append, h.names, List.eraseDups_append, List.map_singleton, List.map_singleton, hnew]
    rfl
  once := by
    rw [List.map_append, List.map_singleton]
    refine List.Nodup.append h.once (List.nodup_singleton _) (List.disjoint_singleton.2 ?_)
    rwa [h.names, List.mem_eraseDups]
  types r hr := by
    rcases List.mem_append.1 hr with hr | hr
    · exact h.types_append _ r hr
    · obtain rfl := List.mem_singleton.1 hr
      have hnone : asked.find? (fun q => q.1 == name) = none :=
        List.find?_eq_none.2 fun q hq heq => hname (List.mem_map.2 ⟨q, hq, by simpa using heq⟩)
      rw [List.find?_append, hnone]
      simp
  fields i r hr := by
    rw [List.getElem?_append] at hr
    split at hr
    · rename_i hlt
      rw [List.take_append_of_le_length (Nat.le_of_lt hlt)]
      exact h.fields i r hr
    · rename_i hge
      obtain ⟨hi, rfl⟩ := List.getElem?_eq_some_iff.1 hr
      obtain rfl : i = c'.captures.length := by
        simp only [List.length_singleton] at hi
        omega
      have hfile : c'.file = c.file := by rw [h.same]
      rw [List.take_left, ← hfile]
      simpa using captureField_first c' name

/-- One more local is captured. -/
theorem Captured.capturing (h : Captured c c' asked) (name : String) (ty : Ty) :
    Captured c (capturing c' name ty) (asked ++ [(name, ty)]) := by
  cases hfind : c'.captures.find? fun r => r.name == name with
  | some r =>
    rw [Emission.capturing, hfind]
    exact h.again ty (h.mem_asked.2 ⟨r, List.mem_of_find?_eq_some hfind, by simpa using List.find?_some hfind⟩)
  | none =>
    have hrecord : recordFor c' name ty = { name, field := FormM.captureField c' name, ty } := by
      rw [recordFor, hfind]
      rfl
    rw [Emission.capturing, hfind, hrecord]
    refine h.first ty fun hname => ?_
    obtain ⟨r, hr, hname⟩ := h.mem_asked.1 hname
    exact List.find?_eq_none.1 hfind r hr (by simpa using hname)

/-- Locals that are captured one after the other. -/
theorem captures_run (hclass : FormM.currentClass s = .ok c' s) (hmode : c'.mode ≠ .type) (h : Captured c c' asked)
    (calls : List (String × Ty)) :
    ∃ records c'' t, (calls.mapM fun q => FormM.capture q.1 q.2) s = .ok records t ∧
      FormM.currentClass t = .ok c'' t ∧ Captured c c'' (asked ++ calls) ∧ c'.captures <+: c''.captures ∧
      List.Forall₂ (fun q r => r.name = q.1 ∧ r ∈ c''.captures) calls records := by
  induction calls generalizing c' s asked with
  | nil => exact ⟨[], c', s, rfl, hclass, by rwa [List.append_nil], List.prefix_refl _, .nil⟩
  | cons q calls ih =>
    obtain ⟨name, ty⟩ := q
    obtain ⟨s₁, hcapture, hclass₁⟩ := capture_run hclass hmode name ty
    have h₁ := h.capturing name ty
    have hmode₁ : (Emission.capturing c' name ty).mode ≠ .type := by
      rw [h₁.same]
      rw [h.same] at hmode
      exact hmode
    obtain ⟨records, c'', t, hrest, hclass', h', hprefix, hrecords⟩ := ih hclass₁ hmode₁ h₁
    have hfirst : (recordFor c' name ty).name = name ∧ recordFor c' name ty ∈ c''.captures :=
      ⟨recordFor_name .., hprefix.subset (recordFor_mem ..)⟩
    refine ⟨recordFor c' name ty :: records, c'', t, ?_, hclass', by simpa using h',
      (capturing_captures c' name ty).trans hprefix, .cons hfirst hrecords⟩
    rw [List.mapM_cons, State.bind_of_ok hcapture, State.bind_of_ok hrest]
    rfl

/-- A record is not like an earlier one, nor like a declared field. -/
theorem Captured.field_ne (h : Captured c c' asked) {i j : Nat} {r r' : Capture} (hr : c'.captures[i]? = some r)
    (hr' : c'.captures[j]? = some r') (hlt : i < j) : r.field ≠ r'.field := by
  intro heq
  obtain ⟨n, hn, hfree, -⟩ := h.fields j r' hr'
  rw [← hn, ← heq] at hfree
  have hearlier : r ∈ c'.captures.take j := List.mem_of_getElem? ((List.getElem?_take_of_lt hlt).trans hr)
  exact hfree (List.mem_append_left _ (List.mem_map_of_mem hearlier))

/-- A field belongs to one local. -/
theorem Captured.eq_of_field (h : Captured c c' asked) {r r' : Capture} (hr : r ∈ c'.captures) (hr' : r' ∈ c'.captures)
    (hfield : r.field = r'.field) : r = r' := by
  obtain ⟨i, hi⟩ := List.getElem?_of_mem hr
  obtain ⟨j, hj⟩ := List.getElem?_of_mem hr'
  rcases Nat.lt_trichotomy i j with hlt | rfl | hlt
  · exact absurd hfield (h.field_ne hi hj hlt)
  · exact Option.some.inj (hi.symm.trans hj)
  · exact absurd hfield.symm (h.field_ne hj hi hlt)

theorem Captured.apart (h : Captured c c' asked) {r : Capture} (hr : r ∈ c'.captures) :
    ∀ f ∈ c.file.fields, f.name ≠ r.field := by
  intro f hf heq
  obtain ⟨i, hi⟩ := List.getElem?_of_mem hr
  obtain ⟨n, hn, hfree, -⟩ := h.fields i r hi
  rw [← hn, ← heq] at hfree
  exact hfree (List.mem_append_right _ (List.mem_map_of_mem hf))

/-- A local has one record. -/
theorem Captured.eq_of_name (h : Captured c c' asked) {r r' : Capture} (hr : r ∈ c'.captures) (hr' : r' ∈ c'.captures)
    (hname : r.name = r'.name) : r = r' :=
  List.inj_on_of_nodup_map h.once hr hr' hname

end Records

/-! ### Instances of closures -/

section Closures

variable {c : ClassContext} {file : ClassFile} {cls : ClassInfo} {w w' : World} {o : ObjectRef}

/-- The built-in root class has nothing to set up. -/
theorem superConstructor_object [Libraries] (hroot : w.registry.find? Names.object = Host.registry.find? Names.object)
    (fuel : Nat)
    (receiver : Value) (args : List Value) :
    Machine.superConstructor (call (fuel + 1)) Names.object [] receiver args w = .ok () w := by
  have hobject : Host.registry.find? Names.object = some { Host.objectClass with serial := 0, layout := [] } := rfl
  rw [Machine.superConstructor, State.bind_of_ok (State.get_eq w), hroot, hobject]
  rfl

/-- The fields of a new instance hold what it was made from. -/
theorem newInstance_captures [Libraries] (hfile : finishedFile c .captures = .ok file)
    (hregistered : Registered file cls w w')
    (hconcrete : c.file.flags.isAbstract = false)
    (hother : ∀ m ∈ c.file.methods, m.name = Names.constructor → m.params ≠ c.captures.map Capture.ty)
    (hsuper : c.file.superclass = Names.object) (hname : c.file.name ≠ Names.object)
    (hroot : w.registry.find? Names.object = Host.registry.find? Names.object) (fuel : Nat)
    (hfuel : 3 * c.captures.length + 4 ≤ fuel) (vs : List Value) :
    ∃ o w'', newInstance (call fuel) c.file.name (c.captures.map Capture.ty) vs w' = .ok (.object o) w'' ∧
      ∀ (i : Nat) (r : Capture), c.captures[i]? = some r →
        (∀ (j : Nat) (r' : Capture), i < j → c.captures[j]? = some r' → r'.field ≠ r.field) →
        w''.getField o r.field = .ok (held r.ty ((vs[i]?).getD .nil)) := by
  obtain ⟨fuel, rfl⟩ : ∃ n, fuel = n + 1 + 1 := ⟨fuel - 2, by omega⟩
  have htypes : (storedFields c .captures).map Prod.snd = c.captures.map Capture.ty := List.map_map ..
  have hlength : (storedFields c .captures).length = c.captures.length := List.length_map ..
  have hplan : ConstructorPlan.captures ≠ .none := by simp
  have hmade : Constructible cls c.file.superclass [] (storedFields c .captures) :=
    constructible_of_finished hplan hfile hconcrete (by rwa [htypes]) hregistered
  obtain ⟨hsame, -, -, hfields⟩ := finishedFile_ok hfile
  have hfind (n : String) : w'.registry.find? n = if c.file.name = n then some cls else w.registry.find? n :=
    hsame ▸ hregistered.find n
  have hlayout : ∀ f ∈ capturedValues c.captures vs 0, f.1 ∈ cls.layout := by
    intro f hf
    have hfield : f.1 ∈ c.captures.map Capture.field := capturedValues_names c.captures vs 0 ▸ List.mem_map_of_mem hf
    obtain ⟨r, hr, hname⟩ := List.mem_map.1 hfield
    exact hname ▸ hregistered.layout _ (hfields r hr) rfl
  have hroot' : (w'.allocate cls).2.registry.find? Names.object = Host.registry.find? Names.object :=
    (hfind Names.object).trans ((if_neg hname).trans hroot)
  obtain ⟨-, hmakes⟩ := hmade.makes ((hfind _).trans (if_pos rfl)) (fuel + 1) vs
  rw [hsuper, htypes, hlength] at hmakes
  obtain ⟨w₁, hstore⟩ := (World.made_allocate w' cls).exists_storeFields hlayout
  have hnew := hmakes _ w₁ (by rw [List.length_nil]; omega) (superConstructor_object hroot' fuel _ _) hstore
  refine ⟨_, w₁, hnew, fun i r hr hlater => ?_⟩
  rw [(storeCaptures_ok (World.made_allocate w' cls) hstore).2 i r hr hlater, Nat.zero_add]

/-- A class of functions that extends the root class, can be instantiated, and has captured nothing yet. -/
structure IsClosure (c : ClassContext) : Prop where
  mode : c.mode = .closure
  fresh : c.captures = []
  superclass : c.file.superclass = Names.object
  apart : c.file.name ≠ Names.object
  concrete : c.file.flags.isAbstract = false

/-- A class whose image reads back has a slot for each capture and one for the instance: an image counts the slots of
a method in sixteen bits. -/
theorem captures_lt_of_image [Libraries] (hfile : finishedFile c .captures = .ok file)
    (hread : ClassFile.ofBytes file.toBytes = .ok file) : c.captures.length + 1 < 2 ^ 16 := by
  obtain ⟨d, hfinished, hinit⟩ := exists_finishedFile c (show ConstructorPlan.captures ≠ .none by simp)
  cases hfinished.symm.trans hfile
  obtain ⟨code, hcode, -, -, hslots⟩ := hinit.code
  have hparams : d.params.length = c.captures.length := by
    simp [hinit.takes, storedFields, ConstructorPlan.superParams, ConstructorPlan.ownFields]
  rw [← hparams, ← hslots]
  exact ClassFile.maxLocals_lt (ClassFile.ofBody?_of_ofBytes _ hread)
    (List.mem_append_right _ (List.mem_singleton_self d)) hcode

/-- Whatever locals a function captures, each has one record, in a field of its own, and the records stand in the order
in which the locals are first asked for.  When the class is finished and defined from its image, a new instance holds
the values it is made from in the fields of the records, except that a local of type `void` holds nothing.  The image
bounds the number of records: the slots of the constructor are numbered in sixteen bits. -/
theorem captures_read_back [Libraries] {c : ClassContext} {s : FormState} (hclosure : IsClosure c)
    (hclass : FormM.currentClass s = .ok c s) (calls : List (String × Ty)) :
    ∃ records c' t file,
      (calls.mapM fun q => FormM.capture q.1 q.2) s = .ok records t ∧ FormM.currentClass t = .ok c' t ∧
      Captured c c' calls ∧ records.length = calls.length ∧
      (∀ p ∈ calls.zip records, p.2 ∈ c'.captures ∧ p.2.name = p.1.1 ∧ (∀ f ∈ c.file.fields, f.name ≠ p.2.field) ∧
        ∀ q ∈ calls.zip records,
          (p.1.1 = q.1.1 → p.2 = q.2) ∧ (p.1.1 ≠ q.1.1 → p.2.field ≠ q.2.field)) ∧
      finishedFile c' .captures = .ok file ∧
      (ClassFile.ofBytes file.toBytes = .ok file → c'.captures.length + 1 < 2 ^ 16) ∧
      ∀ w cls w', ClassFile.ofBytes file.toBytes = .ok file → defineClass file w = .ok cls w' →
        (∀ m ∈ c.file.methods, m.name = Names.constructor → m.params ≠ c'.captures.map Capture.ty) →
        w.registry.find? Names.object = Host.registry.find? Names.object →
        ∀ (vs : List Value) (fuel : Nat), vs.length = c'.captures.length → 3 * vs.length + 4 ≤ fuel →
          ∃ o w'', newInstance (call fuel) cls.name (c'.captures.map Capture.ty) vs w' = .ok (.object o) w'' ∧
            ∀ q ∈ c'.captures.zip vs, w''.getField o q.1.field = .ok (if q.1.ty = .void then .nil else q.2) := by
  have hmode : c.mode ≠ .type := by simp [hclosure.mode]
  obtain ⟨records, c', t, hrun, hclass', hcaptured, -, hrecords⟩ := captures_run hclass hmode
    (.start hclosure.fresh) calls
  obtain ⟨d, hfile, -⟩ := exists_finishedFile c' (show ConstructorPlan.captures ≠ .none by simp)
  have hsame : c'.file = c.file := by rw [hcaptured.same]
  have hrecord (p : (String × Ty) × Capture) (hp : p ∈ calls.zip records) : p.2.name = p.1.1 ∧ p.2 ∈ c'.captures :=
    List.forall₂_iff_zip.1 hrecords |>.2 hp
  refine ⟨records, c', t, _, hrun, hclass', hcaptured, hrecords.length_eq.symm, fun p hp => ?_, hfile,
    captures_lt_of_image hfile, ?_⟩
  · obtain ⟨hname, hmem⟩ := hrecord p hp
    refine ⟨hmem, hname, hcaptured.apart hmem, fun q hq => ?_⟩
    obtain ⟨hname', hmem'⟩ := hrecord q hq
    refine ⟨fun heq => hcaptured.eq_of_name hmem hmem' (by rw [hname, hname', heq]), fun hne heq => hne ?_⟩
    rw [← hname, ← hname', hcaptured.eq_of_field hmem hmem' heq]
  · intro w cls w' hread hdefine hother hroot vs fuel hlength hfuel
    have hregistered := defineClass_ok hread hdefine
    have hname : cls.name = c'.file.name := hregistered.name
    obtain ⟨o, w'', hnew, hfields⟩ := newInstance_captures hfile hregistered (by rw [hsame]; exact hclosure.concrete)
      (by rwa [hsame]) (by rw [hsame]; exact hclosure.superclass) (by rw [hsame]; exact hclosure.apart) hroot
      fuel (hlength ▸ hfuel) vs
    refine ⟨o, w'', hname ▸ hnew, fun q hq => ?_⟩
    obtain ⟨i, hi⟩ := List.getElem?_of_mem hq
    obtain ⟨hr, hv⟩ := List.getElem?_zip_eq_some.1 hi
    rw [hfields i q.1 hr fun j r' hj hr' => (hcaptured.field_ne hr hr' hj).symm, hv]
    rfl

/-- The world with the built-in classes. -/
def builtinWorld : World := { registry := Host.registry, current := Names.userSpace }

/-- A function that has captured some locals. -/
def capturedBy (captures : List Capture) : ClassContext where
  file := { name := "user$fn__1", superclass := Names.object }
  mode := .closure
  captures := captures

/-- The work on that function. -/
def working (captures : List Capture) : FormState where
  world := builtinWorld
  classes := #[capturedBy captures]

/-- The class of such a function can be defined if its image reads back. -/
theorem exists_defineClass_capturedBy [Libraries] (captures : List Capture)
    (hloadable : ∃ file, finishedFile (capturedBy captures) .captures = .ok file ∧ file.fits = true ∧
      file.doubles = [] ∧ file.toJson.depth ≤ Json.imageDepth) :
    ∃ file cls w', finishedFile (capturedBy captures) .captures = .ok file ∧
      ClassFile.ofBytes file.toBytes = .ok file ∧ defineClass file builtinWorld = .ok cls w' := by
  obtain ⟨file, hfile, hfits, hdoubles, hdepth⟩ := hloadable
  have hread : ClassFile.ofBytes file.toBytes = .ok file :=
    ClassFile.ofBytes_image _ (ClassFile.ofBody?_bodyText hfits (by simp [hdoubles]) hdepth)
  have hverified : Verifier.checkClass file = .ok () := finishedFile_checks (by simp [capturedBy]) hfile
  obtain ⟨-, hsuper, hinterfaces, -⟩ := finishedFile_ok hfile
  have hparents : ∀ name ∈ file.superclass :: file.interfaces, builtinWorld.registry.contains name = true := by
    rw [hsuper, hinterfaces]
    exact List.forall_mem_singleton.2 rfl
  obtain ⟨cls, w', hdefine⟩ := exists_defineClass hread hverified hparents
  exact ⟨file, cls, w', hfile, hread, hdefine⟩

/-- Two locals whose names are spelled alike in fields. -/
def alike : List Capture := [⟨"a-b", "a_b", .any⟩, ⟨"a_b", "a_b_1", .long⟩]

/-- A function captures `a-b` and `a_b`, the first one twice; its instances tell the two apart. -/
theorem captures_read_back_alike :
    ∃ t file cls w' o w'',
      ([("a-b", Ty.any), ("a_b", .long), ("a-b", .long)].mapM fun q => FormM.capture q.1 q.2) (working [])
        = .ok (alike ++ alike.take 1) t ∧
      finishedFile (capturedBy alike) .captures = .ok file ∧ defineClass file builtinWorld = .ok cls w' ∧
      newInstance (call 10) cls.name [.any, .long] [.bool true, .int 2] w' = .ok (.object o) w'' ∧
      w''.getField o "a_b" = .ok (.bool true) ∧ w''.getField o "a_b_1" = .ok (.int 2) := by
  have hclosure : IsClosure (capturedBy []) := ⟨rfl, rfl, rfl, by decide, rfl⟩
  obtain ⟨records, c', t, file, hrun, hclass, -, -, -, hfile, -, hinstance⟩ :=
    captures_read_back (s := working []) hclosure rfl [("a-b", Ty.any), ("a_b", .long), ("a-b", .long)]
  have hrun' : ([("a-b", Ty.any), ("a_b", .long), ("a-b", .long)].mapM fun q => FormM.capture q.1 q.2) (working [])
      = .ok (alike ++ alike.take 1) (working alike) := rfl
  cases hrun'.symm.trans hrun
  have hclass' : FormM.currentClass (working alike) = .ok (capturedBy alike) (working alike) := rfl
  cases hclass'.symm.trans hclass
  obtain ⟨file', cls, w', hfile', hread, hdefine⟩ :=
    exists_defineClass_capturedBy alike ⟨_, rfl, by decide, rfl, by decide⟩
  cases hfile.symm.trans hfile'
  obtain ⟨o, w'', hnew, hfields⟩ := hinstance builtinWorld cls w' hread hdefine (by simp [capturedBy]) rfl
    [.bool true, .int 2] 10 rfl (by decide)
  have hfirst := hfields (⟨"a-b", "a_b", .any⟩, .bool true) (by simp [capturedBy, alike])
  have hsecond := hfields (⟨"a_b", "a_b_1", .long⟩, .int 2) (by simp [capturedBy, alike])
  exact ⟨_, _, cls, w', o, w'', hrun', hfile, hdefine, hnew, hfirst, hsecond⟩

/-- A function that captures a local of type `void` and is made from a text does not hold the text. -/
theorem void_capture_reads_nil :
    ∃ file cls w' o w'',
      ([("message", Ty.void)].mapM fun q => FormM.capture q.1 q.2) (working [])
        = .ok [⟨"message", "message", .void⟩] (working [⟨"message", "message", .void⟩]) ∧
      finishedFile (capturedBy [⟨"message", "message", .void⟩]) .captures = .ok file ∧
      defineClass file builtinWorld = .ok cls w' ∧
      newInstance (call 10) cls.name [.void] [.str "boom"] w' = .ok (.object o) w'' ∧
      w''.getField o "message" = .ok .nil ∧ Value.str "boom" ≠ .nil := by
  obtain ⟨file, cls, w', hfile, hread, hdefine⟩ :=
    exists_defineClass_capturedBy [⟨"message", "message", .void⟩] ⟨_, rfl, by decide, rfl, by decide⟩
  have hregistered := defineClass_ok hread hdefine
  have hname : cls.name = "user$fn__1" := hregistered.name.trans (finishedFile_ok hfile).1
  obtain ⟨o, w'', hnew, hfields⟩ := newInstance_captures hfile hregistered rfl (by simp [capturedBy]) rfl (by decide)
    rfl 10 (by decide) [.str "boom"]
  have hmessage := hfields 0 ⟨"message", "message", .void⟩ rfl fun j r' hj hr' => by
    cases j with
    | zero => cases hj
    | succ j => cases hr'
  exact ⟨file, cls, w', o, w'', rfl, hfile, hdefine, hname ▸ hnew, hmessage, nofun⟩

end Closures

end LispMachine.Emission
