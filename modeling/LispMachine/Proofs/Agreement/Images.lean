import LispMachine.Proofs.Agreement.Passing

/-! # Numbers in images

Between the code that a form is compiled into and the code that is run stands the image that its class is loaded from,
and a number need not come back from its text as it was: a form that is a number alone can have one value where it is
interpreted and another where it is compiled (`fraction_read_back`). -/

namespace LispMachine.Agreement

open Form Machine

/-- What the image of a class file reads back as. -/
def reread? (file : ClassFile) : Option ClassFile :=
  (Json.parse? Json.imageDepth (file.toJson.print [])).bind ClassFile.ofJson?

theorem ofBytes_of_reread {file file' : ClassFile} (h : reread? file = some file') :
    ClassFile.ofBytes file.toBytes = .ok file' := by
  refine ClassFile.ofBytes_image _ ?_
  have hparse : Libraries.parseJson? file.bodyText = Json.parse? Json.imageDepth (file.toJson.print []) := by
    rw [← Json.toList_render]
    rfl
  rw [ClassFile.ofBody?, fromUTF8?_toUTF8]
  simp only [Option.bind_eq_bind, Option.bind_some]
  rw [hparse]
  exact h

theorem loadClass_of_reread {file file' : ClassFile} (h : reread? file = some file') (s : FormState) :
    loadClass file s = loadUnread file' s := by
  rw [loadClass, defineClass, defineImage, ofBytes_of_reread h]
  rfl

/-- A top-level form that is no block is compiled into a class, and what its image reads back as is run. -/
theorem compileTop_of_reread {fuel n : Nat} {d e : Datum} {w : World} {s₁ s₂ : FormState}
    {q : ClassInfo × FormState → Bool}
    (hexpand : Expansion.expand (handlers fuel).call d { world := w } = .ok (e, n) s₁)
    (hblock : Session.block? e s₁ = .ok none s₂)
    (hbuild : (State.answer? (Session.buildTop (handlers fuel) e s₂)).any (fun r => (reread? r.1).any fun file =>
      (State.answer? (loadUnread file r.2)).any q) = true) :
    ∃ cls s, Session.compileTop (fuel + 1) d w = Session.runClass (handlers fuel).call cls s.world ∧
      q (cls, s) = true := by
  obtain ⟨file, s₃, hfile, hreread⟩ := State.exists_answer hbuild
  obtain ⟨file', hfile', hload⟩ := (Option.any_eq_true _ _).1 hreread
  obtain ⟨cls, s₄, hcls, hq⟩ := State.exists_answer hload
  rw [← loadClass_of_reread hfile'] at hcls
  exact ⟨cls, s₄, compileTop_of_class hexpand hblock hfile hcls, hq⟩

/-- The form `0.9452706955539223`. -/
def fraction : Datum := .ofAtom (.float ⟨0x3FEE3FA85468AE3C⟩) default

/-- The value is the number next to that of `fraction`. -/
def isNextToFraction (v : Value) : Bool :=
  match v with
  | .float x => x == ⟨0x3FEE3FA85468AE3D⟩
  | _ => false

theorem isNextToFraction_iff {v : Value} : isNextToFraction v = true ↔ v = .float ⟨0x3FEE3FA85468AE3D⟩ := by
  unfold isNextToFraction
  split <;> simp_all

/-- In a fresh session the form `0.9452706955539223` is that number where it is interpreted, and the next number above
it where it is compiled. -/
theorem fraction_read_back :
    ∃ x y w w', Session.evaluateTop 5 fraction (World.start {}) = .ok (.float x) w ∧
      Session.compileTop 6 fraction (World.start {}) = .ok (.float y) w' ∧ x.isFinite = true ∧ x ≠ y := by
  have hexpand : ∀ w, Expansion.expand (handlers 5).call fraction { world := w }
      = .ok (fraction, 0) { world := w } := fun _ => rfl
  have hblock : ∀ w, Session.block? fraction { world := w } = .ok none { world := w } := fun _ => rfl
  obtain ⟨cls, s, hcompile, hvalue⟩ := compileTop_of_reread (hexpand (World.start {})) (hblock _)
    (q := fun r => (State.answer? (Session.runClass (handlers 5).call r.1 r.2.world)).any fun a => isNextToFraction a.1)
    (by rw [World.start_eq]; decide +kernel)
  obtain ⟨v, w', hrun, hnext⟩ := State.exists_answer hvalue
  obtain rfl := isNextToFraction_iff.1 hnext
  exact ⟨_, _, _, w', rfl, hcompile.trans hrun, by decide, by decide⟩

end LispMachine.Agreement
