import Mathlib.Data.Fintype.EquivFin
import Mathlib.Data.List.Perm.Subperm
import LispMachine.Proofs.Registry.Subclassing
import LispMachine.Proofs.World.Resolution

/-! # Field lookup along the superclasses

The search for a field goes from superclass to superclass and keeps no account of where it has been, so it is given as
a relation, `FieldSearch`: on a cycle of superclasses a search for a field that is not declared there has no result.
It ends for every field and every class just where the superclasses have no cycle (`acyclic_iff`), and it then finds
what `findField?` gives (`Acyclic.fieldSearch`).

A class may be registered under a name that others already extend.  Registering one closes a cycle just where its
superclass is at or below its own name (`acyclic_register`); a registry that was built without such a registration
is searched in finitely many steps (`Built.fieldSearch_ends`). -/

namespace LispMachine

namespace Registry

open Relation (ReflTransGen TransGen)

/-- A registered class and its superclass. -/
def Inherits (r : Registry) (sub sup : String) : Prop := ∃ c, r.find? sub = some c ∧ c.superclass = some sup

/-- No class is above itself along the superclasses. -/
def Acyclic (r : Registry) : Prop := ∀ name, ¬ TransGen r.Inherits name name

/-- The search for a field from a class on, and its result. -/
inductive FieldSearch (r : Registry) (field : String) : String → Option (ClassInfo × FieldInfo) → Prop
  | missing {cls : String} : r.find? cls = none → FieldSearch r field cls none
  | found {cls : String} {c : ClassInfo} {f : FieldInfo} :
      r.find? cls = some c → c.declaredField? field = some f → FieldSearch r field cls (some (c, f))
  | top {cls : String} {c : ClassInfo} :
      r.find? cls = some c → c.declaredField? field = none → c.superclass = none → FieldSearch r field cls none
  | up {cls sup : String} {c : ClassInfo} {result : Option (ClassInfo × FieldInfo)} :
      r.find? cls = some c → c.declaredField? field = none → c.superclass = some sup →
      FieldSearch r field sup result → FieldSearch r field cls result

variable {r r' : Registry} {field cls a b : String} {c c' : ClassInfo}

theorem Inherits.extends (h : r.Inherits a b) : r.Extends a b := by
  obtain ⟨c, hc, hsup⟩ := h
  exact ⟨c, hc, by simp [ClassInfo.parents, hsup]⟩

theorem Inherits.unique {b' : String} (h : r.Inherits a b) (h' : r.Inherits a b') : b = b' := by
  obtain ⟨c, hc, hsup⟩ := h
  obtain ⟨c', hc', hsup'⟩ := h'
  obtain rfl := Option.some.inj (hc.symm.trans hc')
  exact Option.some.inj (hsup.symm.trans hsup')

/-! ### Where the search ends -/

theorem inherits_iff : r.Inherits a b ↔ (r.find? a).bind ClassInfo.superclass = some b :=
  Option.bind_eq_some_iff.symm

/-- Classes that are listed before their superclasses have no cycle. -/
theorem acyclic_of_ordered (h : r.classes.entries.all (fun e => e.2.superclass.all fun sup =>
    r.classes.keys.idxOf e.1 < r.classes.keys.idxOf sup) = true) : r.Acyclic := by
  have hup : ∀ {a b : String}, TransGen r.Inherits a b → r.classes.keys.idxOf a < r.classes.keys.idxOf b := by
    have hstep : ∀ {a b : String}, r.Inherits a b → r.classes.keys.idxOf a < r.classes.keys.idxOf b := by
      rintro a b ⟨c, hc, hsup⟩
      simpa [hsup] using List.all_eq_true.1 h _ (Table.mem_of_lookup hc)
    intro a b hpath
    induction hpath with
    | single hab => exact hstep hab
    | tail _ hbc ih => exact Nat.lt_trans ih (hstep hbc)
  exact fun name hcycle => Nat.lt_irrefl _ (hup hcycle)

/-- With a step left for every registered class that was not visited yet, the lookup is the search. -/
theorem fieldSearch_fieldAlong (h : r.Acyclic) {fuel : Nat} {visited : List String} (hnodup : visited.Nodup)
    (hvisited : ∀ name ∈ visited, name ∈ r.classes.keys ∧ TransGen r.Inherits name cls)
    (hfuel : r.classes.entries.length + 1 ≤ visited.length + fuel) :
    r.FieldSearch field cls (r.fieldAlong field fuel cls) := by
  induction fuel generalizing cls visited with
  | zero =>
    have hle : visited.length ≤ r.classes.keys.length :=
      (List.Nodup.subperm hnodup fun name hname => (hvisited name hname).1).length_le
    rw [Table.keys, List.length_map] at hle
    omega
  | succ fuel ih =>
    rw [fieldAlong]
    cases hfind : r.find? cls with
    | none => exact .missing hfind
    | some c =>
      dsimp only
      cases hdecl : c.declaredField? field with
      | some f => exact .found hfind hdecl
      | none =>
        cases hsup : c.superclass with
        | none => exact .top hfind hdecl hsup
        | some sup =>
          have hedge : r.Inherits cls sup := ⟨c, hfind, hsup⟩
          -- a class that came up before would be on a cycle
          have hnew : cls ∉ visited := fun hmem => h cls (hvisited cls hmem).2
          refine .up hfind hdecl hsup (ih (List.nodup_cons.2 ⟨hnew, hnodup⟩) (List.forall_mem_cons.2 ⟨⟨?_, ?_⟩, ?_⟩)
            (by rw [List.length_cons]; omega))
          · exact List.mem_map_of_mem (Table.mem_of_lookup hfind)
          · exact .single hedge
          · exact fun name hname => ⟨(hvisited name hname).1, (hvisited name hname).2.tail hedge⟩

/-- Without a cycle every search ends, with the answer of the lookup. -/
theorem Acyclic.fieldSearch (h : r.Acyclic) (field cls : String) :
    r.FieldSearch field cls (r.findField? cls field) :=
  fieldSearch_fieldAlong h List.nodup_nil (by simp) (by simp)

/-- A search for a field that no class of a cycle declares would go round for ever. -/
theorem not_fieldSearch_of_cycle {result : Option (ClassInfo × FieldInfo)} (hcycle : TransGen r.Inherits cls cls)
    (hdecl : ∀ name c, r.find? name = some c → c.declaredField? field = none) :
    ¬ r.FieldSearch field cls result := by
  intro h
  induction h with
  | missing hfind =>
    obtain ⟨_, ⟨_, hc, -⟩, -⟩ := TransGen.head'_iff.1 hcycle
    cases hfind.symm.trans hc
  | found hfind hfound => cases hfound.symm.trans (hdecl _ _ hfind)
  | top hfind _ htop =>
    obtain ⟨_, ⟨_, hc, hsup⟩, -⟩ := TransGen.head'_iff.1 hcycle
    obtain rfl := Option.some.inj (hfind.symm.trans hc)
    cases htop.symm.trans hsup
  | up hfind _ hsup _ ih =>
    obtain ⟨next, hstep, hback⟩ := TransGen.head'_iff.1 hcycle
    obtain rfl := hstep.unique ⟨_, hfind, hsup⟩
    exact ih (TransGen.tail' hback hstep)

/-- Some name is no class's field. -/
theorem exists_undeclared (r : Registry) :
    ∃ field, ∀ name c, r.find? name = some c → c.declaredField? field = none := by
  let declared := r.classes.entries.flatMap fun e => e.2.fields.map FieldInfo.name
  obtain ⟨field, hfield⟩ := Infinite.exists_notMem_finset declared.toFinset
  refine ⟨field, fun name c hc => List.find?_eq_none.2 fun f hf hname => hfield ?_⟩
  obtain rfl : f.name = field := by simpa using hname
  simp only [List.mem_toFinset, declared, List.mem_flatMap, List.mem_map]
  exact ⟨(name, c), Table.mem_of_lookup hc, f, hf, rfl⟩

/-- The superclasses have no cycle just where the search for any field from any class on has a result. -/
theorem acyclic_iff : r.Acyclic ↔ ∀ field cls, ∃ result, r.FieldSearch field cls result := by
  constructor
  · exact fun h field cls => ⟨_, h.fieldSearch field cls⟩
  · intro hends cls hcycle
    obtain ⟨field, hfield⟩ := r.exists_undeclared
    obtain ⟨result, hresult⟩ := hends field cls
    exact not_fieldSearch_of_cycle hcycle hfield hresult

/-! ### Registrations -/

/-- A class is registered as it was given, with a serial and a layout. -/
theorem register_superclass (h : r.register c = .ok (c', r')) : c'.superclass = c.superclass := by
  obtain ⟨⟨inherited, rfl⟩, -⟩ := register_eq h
  rfl

/-- A class can be registered once its parents are. -/
theorem exists_register (hparents : ∀ name ∈ c.parents, r.contains name = true) :
    ∃ c' r', r.register c = .ok (c', r') := by
  have hinterfaces : c.interfaces.find? (fun i => !r.contains i) = none :=
    List.find?_eq_none.2 fun i hi => by simp [hparents i (List.mem_append_right _ hi)]
  unfold register
  rw [hinterfaces]
  cases hsup : c.superclass with
  | none => exact ⟨_, _, rfl⟩
  | some sup =>
    obtain ⟨s, hs⟩ := find?_of_contains (hparents sup (by simp [ClassInfo.parents, hsup]))
    simp only [hs]
    exact ⟨_, _, rfl⟩

/-- Registering a class sets the superclass of its name and no other. -/
theorem inherits_register (h : r.register c = .ok (c', r')) :
    r'.Inherits a b ↔ if c.name = a then c.superclass = some b else r.Inherits a b := by
  have hsup := register_superclass h
  have hfind := (register_ok h).2 a
  by_cases hname : c.name = a
  · rw [if_pos hname] at hfind ⊢
    simp [Inherits, hfind, hsup]
  · rw [if_neg hname] at hfind ⊢
    simp only [Inherits, hfind]

/-- What is at or below a name stays so when a class is registered under it, and nothing comes to be. -/
theorem below_register (h : r.register c = .ok (c', r')) :
    ReflTransGen r'.Inherits a c.name ↔ ReflTransGen r.Inherits a c.name := by
  constructor <;> intro hpath
  · induction hpath using ReflTransGen.head_induction_on with
    | refl => exact .refl
    | @head low next hstep _ ih =>
      by_cases hname : c.name = low
      · exact hname ▸ .refl
      · exact .head (by simpa [inherits_register h, hname] using hstep) ih
  · induction hpath using ReflTransGen.head_induction_on with
    | refl => exact .refl
    | @head low next hstep _ ih =>
      by_cases hname : c.name = low
      · exact hname ▸ .refl
      · exact .head (by simpa [inherits_register h, hname] using hstep) ih

/-- A path that is new after a registration leads through the name. -/
theorem path_register (h : r.register c = .ok (c', r')) (hpath : TransGen r'.Inherits a b) :
    TransGen r.Inherits a b ∨ (ReflTransGen r'.Inherits a c.name ∧ TransGen r'.Inherits c.name b) := by
  induction hpath using TransGen.head_induction_on with
  | @single low hstep =>
    by_cases hname : c.name = low
    · exact .inr ⟨hname ▸ .refl, hname ▸ .single hstep⟩
    · exact .inl (.single (by simpa [inherits_register h, hname] using hstep))
  | @head low next hstep hrest ih =>
    by_cases hname : c.name = low
    · exact .inr ⟨hname ▸ .refl, hname ▸ .head hstep hrest⟩
    · rcases ih with hold | ⟨hto, hfrom⟩
      · exact .inl (.head (by simpa [inherits_register h, hname] using hstep) hold)
      · exact .inr ⟨.head hstep hto, hfrom⟩

/-- Registering a class closes a cycle just where its superclass is at or below the name it is registered under. -/
theorem acyclic_register (hr : r.Acyclic) (h : r.register c = .ok (c', r')) :
    r'.Acyclic ↔ ∀ sup, c.superclass = some sup → ¬ ReflTransGen r.Inherits sup c.name := by
  have hself : ∀ sup, r'.Inherits c.name sup ↔ c.superclass = some sup := fun sup => by
    rw [inherits_register h, if_pos rfl]
  constructor
  · intro hacyclic sup hsup hbelow
    exact hacyclic c.name (.head' ((hself sup).2 hsup) ((below_register h).2 hbelow))
  · intro hapart name hcycle
    rcases path_register h hcycle with hold | ⟨hto, hfrom⟩
    · exact hr name hold
    · obtain ⟨sup, hstep, hup⟩ := TransGen.head'_iff.1 (hfrom.trans_left hto)
      exact hapart sup ((hself sup).1 hstep) ((below_register h).1 hup)

/-- Registries made from the built-in one by registering classes, none of them below itself. -/
inductive Built : Registry → Prop
  | host : Built Host.registry
  | register {r r' : Registry} {c c' : ClassInfo} : Built r → r.register c = .ok (c', r') →
      (∀ sup, c.superclass = some sup → ¬ ReflTransGen r.Inherits sup c.name) → Built r'

end Registry

theorem Host.registry_acyclic : Host.registry.Acyclic := Registry.acyclic_of_ordered (by decide +kernel)

namespace Registry

theorem Built.acyclic {r : Registry} (h : Built r) : r.Acyclic := by
  induction h with
  | host => exact Host.registry_acyclic
  | register _ hregister hapart ih => exact (acyclic_register ih hregister).2 hapart

/-- Field lookup ends for every class and every field where no registration placed a class below itself, and it goes on
to end after the next registration just where that one does not either. -/
theorem Built.fieldSearch_ends {r : Registry} (h : Built r) :
    r.Acyclic ∧ (∀ field cls, r.FieldSearch field cls (r.findField? cls field)) ∧
      ∀ c c' r', r.register c = .ok (c', r') →
        ((∀ field cls, ∃ result, r'.FieldSearch field cls result) ↔
          ∀ sup, c.superclass = some sup → ¬ Relation.ReflTransGen r.Inherits sup c.name) := by
  refine ⟨h.acyclic, h.acyclic.fieldSearch, fun c c' r' hregister => ?_⟩
  rw [← acyclic_iff]
  exact acyclic_register h.acyclic hregister

/-- A class below the root class is registered. -/
theorem fieldSearch_ends_named : ∃ c r, Host.registry.register (Host.named "t.A") = .ok (c, r) ∧
    r.Acyclic ∧ ∀ field, r.FieldSearch field "t.A" (r.findField? "t.A" field) := by
  obtain ⟨c, r, hregister⟩ := exists_register (r := Host.registry) (c := Host.named "t.A") (by decide +kernel)
  have hbuilt : Built r := .register .host hregister fun sup hsup hbelow => by
    obtain rfl : Names.object = sup := Option.some.inj hsup
    rcases Relation.reflTransGen_iff_eq_or_transGen.1 hbelow with heq | hpath
    · exact absurd heq (by decide)
    · -- nothing is above the root class
      obtain ⟨_, hstep, -⟩ := Relation.TransGen.head'_iff.1 hpath
      obtain ⟨info, hinfo, hmem⟩ := hstep.extends
      simp [Host.registry_layered.rooted info hinfo] at hmem
  exact ⟨c, r, hregister, hbuilt.fieldSearch_ends.1, fun field => hbuilt.fieldSearch_ends.2.1 field "t.A"⟩

/-- A class is registered, then one below it, then the first again, below the second.  All three registrations
succeed, and some field is searched for in vain, without end. -/
theorem fieldSearch_endless : ∃ c₁ r₁ c₂ r₂ c₃ r₃, Host.registry.register (Host.named "t.A") = .ok (c₁, r₁) ∧
    r₁.register (Host.below "t.A" (Host.named "t.B")) = .ok (c₂, r₂) ∧
    r₂.register (Host.below "t.B" (Host.named "t.A")) = .ok (c₃, r₃) ∧
    ¬ r₃.Acyclic ∧ ∃ field, ∀ result, ¬ r₃.FieldSearch field "t.A" result := by
  obtain ⟨c₁, r₁, h₁⟩ := exists_register (r := Host.registry) (c := Host.named "t.A") (by decide +kernel)
  obtain ⟨c₂, r₂, h₂⟩ := exists_register (r := r₁) (c := Host.below "t.A" (Host.named "t.B")) fun name hname => by
    obtain rfl : name = "t.A" := by simpa [Host.below, Host.named, ClassInfo.parents] using hname
    exact contains_of_find? ((register_ok h₁).2 "t.A")
  obtain ⟨c₃, r₃, h₃⟩ := exists_register (r := r₂) (c := Host.below "t.B" (Host.named "t.A")) fun name hname => by
    obtain rfl : name = "t.B" := by simpa [Host.below, Host.named, ClassInfo.parents] using hname
    exact contains_of_find? ((register_ok h₂).2 "t.B")
  have hup : r₃.Inherits "t.A" "t.B" := (inherits_register h₃).2 rfl
  have hback : r₃.Inherits "t.B" "t.A" := (inherits_register h₃).2 ((inherits_register h₂).2 rfl)
  have hcycle : Relation.TransGen r₃.Inherits "t.A" "t.A" := .head hup (.single hback)
  obtain ⟨field, hfield⟩ := r₃.exists_undeclared
  exact ⟨c₁, r₁, c₂, r₂, c₃, r₃, h₁, h₂, h₃, fun h => h _ hcycle, field,
    fun _ => not_fieldSearch_of_cycle hcycle hfield⟩

end Registry

end LispMachine
