import LispMachine.Proofs.Emission.Forms

/-! # Names, members and definitions

The code of names, of constructors, members and instance tests, of definitions and assignments, and of
namespace forms. -/

namespace LispMachine.Emission

open Form

/-! ### Names -/

section Names

variable {T : Terms} {v₀ : View} {k : Nat} {s t : FormState} {u : Unit}

/-- A name that means a local was bound in one of the frames around. -/
theorem lookup_local {scopes : Scopes} {w : World} {name : String} {level : Nat} {scope : ScopeKind}
    {b : Binding} (h : scopes.lookup w name level = .ok (some (.local scope b))) :
    ∃ f ∈ scopes.frames, b ∈ f.bindings ∧ scope = if f.level < level then .closure else f.kind := by
  unfold Scopes.lookup at h
  split at h
  · have hsimple := Except.ok.inj h
    unfold Scopes.lookupSimple? at hsimple
    cases hlex : scopes.lexical? name level with
    | none =>
        rw [hlex] at hsimple
        simp only at hsimple
        split at hsimple
        · cases hsimple
        · split at hsimple
          · cases hsimple
          · unfold Scopes.lookupDotted? at hsimple
            split at hsimple
            · split at hsimple
              · cases hsimple
              · obtain ⟨c, -, hc⟩ := Option.map_eq_some_iff.1 hsimple
                cases hc
            · cases hsimple
    | some found =>
        rw [hlex] at hsimple
        obtain ⟨rfl, rfl⟩ : found.1 = scope ∧ found.2 = b := by simpa using hsimple
        obtain ⟨f, hf, hfound⟩ := List.exists_of_findSome?_eq_some hlex
        obtain ⟨b', hb', rfl⟩ := Option.map_eq_some_iff.1 hfound
        exact ⟨f, hf, List.mem_of_find?_eq_some hb', rfl⟩
  · obtain ⟨q, -, h⟩ := bind_ok h
    split at h
    · have hvar := Except.ok.inj h
      obtain ⟨v, -, hv⟩ := Option.map_eq_some_iff.1 hvar
      cases hv
    · have hfield := Except.ok.inj h
      obtain ⟨f, -, hf⟩ := Option.map_eq_some_iff.1 hfield
      cases hf

theorem resolve_run {name : String} {r : Resolution} (hrun : resolve name s = .ok r t) :
    s = t ∧ s.scopes.lookup s.world name s.methods.length = .ok (some r) := by
  obtain ⟨found, s₁, h₁, hrun⟩ := State.ok_of_bind hrun
  obtain ⟨s₂, s₃, h₃, h₁⟩ := State.ok_of_bind h₁
  cases h₃
  obtain ⟨hfound, rfl⟩ := ofExcept_ok h₁
  cases found with
  | none => cases hrun
  | some r' =>
      cases hrun
      exact ⟨rfl, hfound⟩

theorem Grown.loadThis (g : Grown T v₀ k (view s)) (hslot : 0 < (view s).code.nextSlot) {owner : String}
    (hrun : loadThis s = .ok owner t) :
    Grown T v₀ (k + 1) (view t) ∧ Pushed 1 (view s) (view t) := by
  obtain ⟨name, s₁, h₁, hrun⟩ := State.ok_of_bind hrun
  obtain rfl := className_ok g.methods_ne h₁
  obtain ⟨⟨⟩, s₂, h₂, hrun⟩ := State.ok_of_bind hrun
  cases hrun
  refine g.emitValue h₂ rfl ?_ rfl
  intro n hn
  obtain rfl := Option.some.inj hn
  exact hslot

/-- An instruction that turns the value on top into another leaves what is below alone. -/
theorem Pushed.replace {i : Instruction} {v : View} {a : Nat} {pop ty : Ty} (hp : Pushed a v (view s))
    (hrun : FormM.emit i s = .ok u t) (he : i.effect (view s).sites = .ok (.ops [pop] (some ty))) :
    Pushed ty.width v (view t) := by
  rcases hp with hdead | hp
  · refine .inl ?_
    rcases emit_ok hrun with ⟨-, hview⟩ | ⟨hlive, _⟩
    · rw [hview, hdead]
    · rw [View.reach_of_live hlive] at hdead
      cases hdead
  · refine (widths_emit hrun he).imp_right ?_
    rintro ⟨rest, hs, ht⟩
    rw [hp] at hs
    obtain ⟨-, rfl⟩ := List.cons.inj hs
    exact ht

theorem Grown.loadField (g : Grown T v₀ k (view s)) (hslot : 0 < (view s).code.nextSlot)
    {field : String} {ty : Ty} (hrun : loadField field ty s = .ok u t) :
    Grown T v₀ (k + ty.width) (view t) ∧ Pushed ty.width (view s) (view t) := by
  obtain ⟨owner, s₁, h₁, hrun⟩ := State.ok_of_bind hrun
  obtain ⟨g₁, hp₁⟩ := g.loadThis hslot h₁
  have g₂ := (g₁.emitResult hrun rfl (Nat.le_add_left ..) (by simp [Instruction.slot?]) rfl).1
  exact ⟨g₂, hp₁.replace hrun rfl⟩

theorem Grown.loadBinding (g : Grown T v₀ k (view s)) {f : ScopeFrame} {b : Binding}
    (hown : ¬ (f.level < (view s).methods.length ∨ f.kind = .closure))
    (hstored : Stored (view s).code.nextSlot (view s).methods.length f b)
    (hrun : loadBinding b s = .ok u t) :
    Grown T v₀ (k + b.ty.width) (view t) ∧ Pushed b.ty.width (view s) (view t) := by
  rw [Stored, if_neg hown] at hstored
  unfold Form.loadBinding at hrun
  cases hslot : b.slot with
  | «local» n =>
      rw [hslot] at hrun hstored
      refine g.emitValue hrun rfl ?_ rfl
      intro m hm
      obtain rfl := Option.some.inj hm
      exact hstored
  | this =>
      rw [hslot] at hrun hstored
      refine g.emitValue hrun rfl ?_ rfl
      intro m hm
      obtain rfl := Option.some.inj hm
      exact hstored
  | field name =>
      rw [hslot] at hrun hstored
      exact g.loadField hstored hrun
  | none =>
      rw [hslot] at hrun
      cases hrun

theorem Grown.loadCapture (g : Grown T v₀ k (view s)) (hslot : 0 < (view s).code.nextSlot) {b : Binding}
    (hrun : loadCapture b s = .ok u t) :
    ∃ w, Grown T v₀ (k + w) (view t) ∧ Pushed w (view s) (view t) := by
  obtain ⟨r, s₁, h₁, hrun⟩ := State.ok_of_bind hrun
  rcases capture_ok g.methods_ne h₁ with hview | hview
  · rw [← hview] at g hslot ⊢
    exact ⟨_, g.loadField hslot hrun⟩
  · have g₁ : Grown T v₀ k (view s₁) := by
      rw [hview]
      exact g.onClass fun c => ⟨rfl, List.prefix_refl _⟩
    have hpushed := g₁.loadField (by rw [hview]; exact hslot) hrun
    refine ⟨_, hpushed.1, ?_⟩
    have hwidths : (view s₁).widths = (view s).widths := by
      rw [hview]
      rfl
    simpa only [Pushed, hwidths] using hpushed.2

theorem pushed_emitCall {spec : SiteSpec} (g : Grown T v₀ k (view s)) (hargs : spec.argTypes = [])
    (hret : spec.ret ≠ .void) (hrun : FormM.emitCall spec s = .ok u t) :
    Pushed spec.ret.width (view s) (view t) := by
  obtain ⟨s₁, hview, hsites, h₁⟩ := emitCall_ok g.methods_ne hrun
  have heffect : (Instruction.invokeDynamic (view s).sites.length).effect (view s₁).sites
      = .ok (.ops [] (some spec.ret)) := by
    simp [Instruction.effect, hsites, hargs, hret]
  have hwidths : (view s₁).widths = (view s).widths := by
    rw [hview]
    rfl
  refine (widths_emit h₁ heffect).imp_right ?_
  rintro ⟨rest, hs, ht⟩
  rw [ht, ← hwidths, hs]
  rfl

/-- A name leaves what it means on top. -/
theorem Grown.compileName (g : Grown T v₀ k (view s)) {name : String} {span : Span}
    (hrun : compileName name span s = .ok u t) :
    ∃ w, Grown T v₀ (k + w) (view t) ∧ Pushed w (view s) (view t) := by
  obtain ⟨r, s₁, h₁, hrun⟩ := State.ok_of_bind hrun
  obtain ⟨rfl, hlookup⟩ := resolve_run h₁
  cases r with
  | «local» scope b =>
      obtain ⟨f, hf, hb, hscope⟩ := lookup_local hlookup
      have hstored := g.valid.stored f hf b hb
      by_cases hown : f.level < (view s).methods.length ∨ f.kind = .closure
      · -- the local belongs to a method around this one
        have hclosure : scope = .closure := by
          rw [hscope]
          rcases hown with hlt | hkind
          · exact if_pos hlt
          · split
            · rfl
            · exact hkind
        rw [Stored, if_pos hown] at hstored
        rw [hclosure] at hrun
        exact g.loadCapture hstored hrun
      · have hkind : scope = f.kind := by
          rw [hscope]
          exact if_neg fun hlt => hown (.inl hlt)
        have hother : scope ≠ .closure := fun hclosure => hown (.inr (hkind ▸ hclosure))
        have hload : Form.loadBinding b s = .ok u t := by
          cases scope with
          | closure => exact absurd rfl hother
          | _ => exact hrun
        exact ⟨_, g.loadBinding hown hstored hload⟩
  | var v =>
      obtain ⟨w, s₂, h₂, hrun⟩ := State.ok_of_bind hrun
      cases h₂
      obtain ⟨⟨⟩, s₂, h₂, hrun⟩ := State.ok_of_bind hrun
      obtain ⟨-, rfl⟩ := ofExcept_ok h₂
      exact ⟨_, (g.emitCall hrun (Nat.zero_le _)).1, pushed_emitCall g rfl (by simp [SiteSpec.new]) hrun⟩
  | nameSpace space => exact ⟨_, g.emitConstant hrun⟩
  | cls c => exact ⟨_, g.emitConstant hrun⟩
  | staticField c f => exact ⟨_, g.emitValue hrun rfl (by simp [Instruction.slot?]) rfl⟩

theorem compileSymbol_leaves {d : Datum} (hv : Valid (view s)) (hrun : compileSymbol d s = .ok u t) :
    Leaves (view s) (view t) := by
  unfold compileSymbol at hrun
  cases hname : d.symbol? with
  | none =>
      rw [hname] at hrun
      cases hrun
  | some name =>
      rw [hname] at hrun
      obtain ⟨w, g, hp⟩ := (Grown.ofValid hv).compileName hrun
      rw [Nat.zero_add] at g
      exact ⟨w, g, .inr hp.top⟩

end Names

/-! ### Members of classes -/

section Members

variable {s t : FormState} {u : Unit} {h : Handlers}

theorem fitsDirectly_widths {r : Registry} {args params : List Ty} (hfit : fitsDirectly r args params = true) :
    params.map Ty.width = args.map Ty.width := by
  induction args generalizing params with
  | nil =>
      cases params with
      | nil => rfl
      | cons p ps => cases hfit
  | cons a args ih =>
      cases params with
      | nil => cases hfit
      | cons p ps =>
          simp only [fitsDirectly, Bool.and_eq_true] at hfit
          have hwidth : a.width = p.width := by
            cases hcode : Coercion.coerce r a p with
            | error e => simp [hcode] at hfit
            | ok code =>
                have hempty : code = [] := by simpa [hcode] using hfit.1
                have hconv := coerce_conversion hcode
                rw [hempty] at hconv
                exact hconv.eq_of_nil
          rw [List.map_cons, List.map_cons, ih hfit.2, hwidth]

theorem planConstruction_direct {r : Registry} {c : ClassInfo} {argTypes : List Ty} {m : Method}
    (hplan : planConstruction r c argTypes = .direct m) : m.params.map Ty.width = argTypes.map Ty.width := by
  unfold planConstruction at hplan
  simp only at hplan
  split at hplan
  · split at hplan
    · rename_i hdirect
      cases hplan
      rw [Bool.and_eq_true] at hdirect
      exact fitsDirectly_widths hdirect.2
    · cases hplan
  · cases hplan
  · split at hplan <;> cases hplan

theorem compileNew_leaves (hc : Compiles h) {d : Datum} (hv : Valid (view s))
    (hrun : compileNew h d s = .ok u t) : Leaves (view s) (view t) := by
  obtain ⟨⟨c, args⟩, s₁, h₁, hrun⟩ := State.ok_of_bind hrun
  have hview := aside_newParts d h₁
  rw [← hview] at hv ⊢
  refine leaves_behind_args hc hv hrun fun s₂ tys g hrun => ?_
  obtain ⟨r, s₃, h₃, hrun⟩ := State.ok_of_bind hrun
  cases h₃
  cases hplan : planConstruction s₂.world.registry c tys with
  | direct m =>
      rw [hplan] at hrun
      exact .result g hrun rfl (by rw [planConstruction_direct hplan]) rfl rfl
  | dynamic =>
      rw [hplan] at hrun
      exact .call g rfl hrun
  | none =>
      rw [hplan] at hrun
      cases hrun

theorem compileStaticCall_leaves (hc : Compiles h) {d : Datum} {c : ClassInfo} {m : Member}
    (hv : Valid (view s)) (hrun : compileStaticCall h d c m s = .ok u t) : Leaves (view s) (view t) := by
  obtain ⟨r, s₁, h₁, hrun⟩ := State.ok_of_bind hrun
  cases h₁
  refine leaves_behind_args hc hv hrun fun s₂ tys g hrun => ?_
  obtain ⟨r, s₃, h₃, hrun⟩ := State.ok_of_bind hrun
  cases h₃
  cases hres : Overload.resolveStatic s₂.world.registry
      (s.world.registry.findMethods c.name m.name true) tys with
  | unique found =>
      rw [hres] at hrun
      exact .call g rfl hrun
  | ambiguous found =>
      rw [hres] at hrun
      exact .call g rfl hrun
  | noMatch =>
      rw [hres] at hrun
      cases hrun

theorem compileStaticMember_leaves (hc : Compiles h) {d : Datum} {c : ClassInfo} {m : Member}
    (hv : Valid (view s)) (hrun : compileStaticMember h d c m s = .ok u t) : Leaves (view s) (view t) := by
  obtain ⟨r, s₁, h₁, hrun⟩ := State.ok_of_bind hrun
  cases h₁
  cases hfield : staticField? s.world.registry c m with
  | some found =>
      rw [hfield] at hrun
      exact .result (.ofValid hv) hrun rfl rfl rfl rfl
  | none =>
      rw [hfield] at hrun
      cases hname : m.field with
      | some field =>
          rw [hname] at hrun
          cases hrun
      | none =>
          rw [hname] at hrun
          exact compileStaticCall_leaves hc hv hrun

/-- The receiver is the first operand. -/
theorem compileInstanceMember_leaves (hc : Compiles h) {d : Datum} {m : Member} (hv : Valid (view s))
    (hrun : compileInstanceMember h d m s = .ok u t) : Leaves (view s) (view t) := by
  obtain ⟨⟨⟩, s₁, h₁, hrun⟩ := State.ok_of_bind hrun
  obtain ⟨g₁, htop₁⟩ := (Grown.ofValid hv).compileBoxed hc h₁
  obtain ⟨receiver, s₂, h₂, hrun⟩ := State.ok_of_bind hrun
  obtain ⟨rfl, -⟩ := topType_ok h₂
  -- where control gets, the receiver takes the one slot above the base
  have hreceiver : (view s₁).stack.isUnreachable = false → ((view s₁).widths.take 1).sum = 1 := by
    intro hlive
    obtain htop := htop₁.resolve_left (by rw [View.reach_of_live hlive]; simp)
    obtain ⟨rest, hrest⟩ := List.head?_eq_some_iff.1 htop
    rw [hrest]
    rfl
  cases hfield : m.field with
  | some field =>
      simp only [hfield] at hrun
      obtain ⟨dead, s₂, h₂, hrun⟩ := State.ok_of_bind hrun
      obtain ⟨rfl, rfl⟩ := isUnreachable_run g₁ h₂
      split at hrun
      · rename_i hdead
        cases hrun
        exact .of_dead g₁ (reach_of_dead hdead)
      · rename_i hlive
        rw [Bool.not_eq_true] at hlive
        obtain ⟨r, s₂, h₂, hrun⟩ := State.ok_of_bind hrun
        cases h₂
        obtain ⟨tys, s₂, h₂, hrun⟩ := State.ok_of_bind hrun
        obtain ⟨rfl, htys⟩ := topTypes_run h₂
        refine .call g₁ ?_ hrun
        have hsum := congrArg List.sum (topTypes_ok htys).2
        rw [List.sum_reverse_nat, ← View.widths, hreceiver hlive] at hsum
        exact hsum
  | none =>
      simp only [hfield] at hrun
      obtain ⟨⟨⟩, s₂, h₂, hrun⟩ := State.ok_of_bind hrun
      obtain ⟨j, g₂, htys⟩ := g₁.compileArgs hc h₂
      obtain ⟨dead, s₃, h₃, hrun⟩ := State.ok_of_bind hrun
      obtain ⟨rfl, rfl⟩ := isUnreachable_run g₂ h₃
      split at hrun
      · rename_i hdead
        cases hrun
        exact .of_dead g₂ (reach_of_dead hdead)
      · rename_i hlive
        rw [Bool.not_eq_true] at hlive
        obtain ⟨tys, s₃, h₃, hrun⟩ := State.ok_of_bind hrun
        obtain ⟨rfl, htys₁⟩ := topTypes_run h₃
        obtain ⟨r, s₃, h₃, hrun⟩ := State.ok_of_bind hrun
        cases h₃
        obtain ⟨hlive₁, hsum⟩ := htys 1 tys hlive htys₁
        refine .call g₂ ?_ hrun
        rw [hreceiver hlive₁, Nat.add_comm] at hsum
        exact hsum

theorem compileDot_leaves (hc : Compiles h) {d : Datum} (hv : Valid (view s))
    (hrun : compileDot h d s = .ok u t) : Leaves (view s) (view t) := by
  obtain ⟨m, s₁, h₁, hrun⟩ := State.ok_of_bind hrun
  obtain ⟨-, rfl⟩ := ofExcept_ok h₁
  obtain ⟨target, s₂, h₂, hrun⟩ := State.ok_of_bind hrun
  have hview := aside_staticTarget _ h₂
  rw [← hview] at hv ⊢
  cases target with
  | some c => exact compileStaticMember_leaves hc hv hrun
  | none => exact compileInstanceMember_leaves hc hv hrun

theorem compileInstanceTest_leaves (hc : Compiles h) {d : Datum} (hv : Valid (view s))
    (hrun : compileInstanceTest h d s = .ok u t) : Leaves (view s) (view t) := by
  obtain ⟨⟨c, value⟩, s₁, h₁, hrun⟩ := State.ok_of_bind hrun
  have hview := aside_instanceTestParts d h₁
  rw [← hview] at hv ⊢
  obtain ⟨⟨⟩, s₂, h₂, hrun⟩ := State.ok_of_bind hrun
  obtain ⟨g, -⟩ := (Grown.ofValid hv).compileBoxed hc h₂
  exact .result g hrun rfl rfl rfl rfl

end Members

/-! ### Definitions and assignments -/

section Definitions

variable {s t : FormState} {u : Unit} {h : Handlers}

theorem compileDef_leaves (hc : Compiles h) {d : Datum} (hv : Valid (view s))
    (hrun : compileDef h d s = .ok u t) : Leaves (view s) (view t) := by
  obtain ⟨p, s₁, h₁, hrun⟩ := State.ok_of_bind hrun
  obtain ⟨-, rfl⟩ := ofExcept_ok h₁
  obtain ⟨var, s₁, h₁, hrun⟩ := State.ok_of_bind hrun
  have hview := aside_internTarget _ _ h₁
  rw [← hview] at hv ⊢
  cases hinit : p.init with
  | some init =>
      simp only [hinit] at hrun
      obtain ⟨⟨⟩, s₂, h₂, hrun⟩ := State.ok_of_bind hrun
      obtain ⟨g, -⟩ := (Grown.ofValid hv).compileBoxed hc h₂
      exact .result g hrun rfl rfl rfl rfl
  | none =>
      simp only [hinit] at hrun
      exact .result (.ofValid hv) hrun rfl rfl rfl rfl

/-- The value goes through a local, so that it is left when the field has been set. -/
theorem compileFieldAssignment_leaves (hc : Compiles h) {b : Binding} {field : String} {value : Datum}
    (hv : Valid (view s)) (hslot : 0 < (view s).code.nextSlot)
    (hrun : compileFieldAssignment h b field value s = .ok u t) : Leaves (view s) (view t) := by
  obtain ⟨owner, s₁, h₁, hrun⟩ := State.ok_of_bind hrun
  obtain ⟨g₁, -⟩ := (Grown.ofValid hv).loadThis hslot h₁
  obtain ⟨⟨⟩, s₂, h₂, hrun⟩ := State.ok_of_bind hrun
  obtain ⟨w, g₂, hw⟩ := g₁.compilePart hc h₂
  obtain ⟨⟨⟩, s₃, h₃, hrun⟩ := State.ok_of_bind hrun
  obtain ⟨g₃, -⟩ := g₂.coerceTop hw.top (atSpan_ok h₃)
  obtain ⟨temp, s₄, h₄, hrun⟩ := State.ok_of_bind hrun
  obtain ⟨g₄, htemp, -⟩ := g₃.allocSlot h₄
  obtain ⟨⟨⟩, s₅, h₅, hrun⟩ := State.ok_of_bind hrun
  obtain ⟨g₅, htemp⟩ := g₄.store htemp h₅
  obtain ⟨⟨⟩, s₆, h₆, hrun⟩ := State.ok_of_bind hrun
  obtain ⟨g₆, -, htemp⟩ := g₅.load htemp h₆
  obtain ⟨⟨⟩, s₇, h₇, hrun⟩ := State.ok_of_bind hrun
  have g₇ : Grown (terms (view s)) (view s) 0 (view s₇) := by
    have g₇ := g₆.emitDrop h₇ rfl (by simp [Ty.width]) (by simp [Instruction.slot?]) rfl
    simpa [Ty.width] using g₇
  rw [← slots_emit h₇] at htemp
  obtain ⟨⟨⟩, s₈, h₈, hrun⟩ := State.ok_of_bind hrun
  obtain ⟨g₈, hp₈, htemp⟩ := g₇.load htemp h₈
  rw [modifyCode_ok hrun]
  rw [Nat.zero_add] at g₈
  exact ⟨_, g₈.freeSlot htemp, .inr hp₈.top⟩

theorem compileSet_leaves (hc : Compiles h) {d : Datum} (hv : Valid (view s))
    (hrun : compileSet h d s = .ok u t) : Leaves (view s) (view t) := by
  obtain ⟨⟨target, name, value⟩, s₁, h₁, hrun⟩ := State.ok_of_bind hrun
  obtain ⟨-, rfl⟩ := ofExcept_ok h₁
  obtain ⟨r, s₁, h₁, hrun⟩ := State.ok_of_bind hrun
  obtain ⟨rfl, hlookup⟩ := resolve_run h₁
  cases r with
  | var v =>
      obtain ⟨w, s₂, h₂, hrun⟩ := State.ok_of_bind hrun
      cases h₂
      obtain ⟨⟨⟩, s₂, h₂, hrun⟩ := State.ok_of_bind hrun
      obtain ⟨-, rfl⟩ := ofExcept_ok h₂
      obtain ⟨⟨⟩, s₃, h₃, hrun⟩ := State.ok_of_bind hrun
      obtain ⟨g, -⟩ := (Grown.ofValid hv).compileBoxed hc h₃
      exact .result g hrun rfl rfl rfl rfl
  | «local» scope b =>
      obtain ⟨f, hf, hb, hscope⟩ := lookup_local hlookup
      have hstored := hv.stored f hf b hb
      dsimp only at hrun
      split at hrun
      · rename_i hfield
        rw [Bool.and_eq_true, decide_eq_true_eq] at hfield
        cases hslot : b.slot with
        | field field =>
            rw [hslot] at hrun
            refine compileFieldAssignment_leaves hc hv ?_ hrun
            unfold Stored at hstored
            split at hstored
            · exact hstored
            · rwa [hslot] at hstored
        | _ =>
            rw [hslot] at hrun
            cases hrun
      · cases hrun
  | _ => cases hrun

theorem compileVar_leaves {d : Datum} (hv : Valid (view s)) (hrun : compileVar d s = .ok u t) :
    Leaves (view s) (view t) := by
  obtain ⟨v, s₁, h₁, hrun⟩ := State.ok_of_bind hrun
  have hview := aside_namedVar d h₁
  rw [← hview] at hv ⊢
  exact .result (.ofValid hv) hrun rfl rfl rfl rfl

end Definitions

/-! ### Namespaces -/

section Spaces

variable {s t : FormState} {u : Unit}

theorem Leaves.constant {c : Constant} (hv : Valid (view s)) (hrun : FormM.emitConstant c s = .ok u t) :
    Leaves (view s) (view t) := by
  obtain ⟨g, hp⟩ := (Grown.ofValid hv).emitConstant hrun
  rw [Nat.zero_add] at g
  exact ⟨_, g, .inr hp.top⟩

theorem aside_enterSpace (name : String) : Aside (enterSpace name) := .lift _

theorem compileInSpace_leaves {d : Datum} (hv : Valid (view s)) (hrun : compileInSpace d s = .ok u t) :
    Leaves (view s) (view t) := by
  obtain ⟨name, s₁, h₁, hrun⟩ := State.ok_of_bind hrun
  obtain ⟨-, rfl⟩ := ofExcept_ok h₁
  obtain ⟨⟨⟩, s₁, h₁, hrun⟩ := State.ok_of_bind hrun
  have hview := aside_enterSpace name h₁
  rw [← hview] at hv ⊢
  exact .result (.ofValid hv) hrun rfl rfl rfl rfl

/-- A class that is imported and dropped again leaves the stack as it was. -/
theorem emitQuietImport_grown {T : Terms} {v₀ : View} {k : Nat} {full : String}
    (g : Grown T v₀ k (view s)) (hrun : emitQuietImport full s = .ok u t) :
    Grown T v₀ k (view t) ∧ ((view t).reach = none ∨ (view t).widths = (view s).widths) := by
  obtain ⟨⟨⟩, s₁, h₁, hrun⟩ := State.ok_of_bind hrun
  obtain ⟨g₁, hp₁⟩ := g.emitValue h₁ rfl (by simp [Instruction.slot?]) rfl
  exact ⟨g₁.popValue hp₁.top hrun, hp₁.popValue g₁ (by simp [Ty.width]) hrun⟩

theorem quietImports_grown {T : Terms} {v₀ : View} {k : Nat} {imported : List String}
    (g : Grown T v₀ k (view s)) (htop : Top 1 (view s))
    (hrun : imported.forM emitQuietImport s = .ok u t) : Grown T v₀ k (view t) ∧ Top 1 (view t) := by
  induction imported generalizing s with
  | nil =>
      cases hrun
      exact ⟨g, htop⟩
  | cons full rest ih =>
      obtain ⟨⟨⟩, s₁, h₁, hrun⟩ := State.ok_of_bind hrun
      obtain ⟨g₁, hsame⟩ := emitQuietImport_grown g h₁
      refine ih g₁ ?_ hrun
      rcases htop with hdead | htop
      · exact .inl ((emitQuietImport_grown (.ofValid g.valid) h₁).1.since.dead hdead)
      · exact hsame.imp_right fun hwidths => by rw [hwidths, htop]

theorem compileSpaceForm_leaves {d : Datum} (hv : Valid (view s))
    (hrun : compileSpaceForm d s = .ok u t) : Leaves (view s) (view t) := by
  obtain ⟨form, s₁, h₁, hrun⟩ := State.ok_of_bind hrun
  obtain ⟨-, rfl⟩ := ofExcept_ok h₁
  obtain ⟨imported, s₁, h₁, hrun⟩ := State.ok_of_bind hrun
  have hview := aside_enterForm d form h₁
  rw [← hview] at hv ⊢
  obtain ⟨⟨⟩, s₂, h₂, hrun⟩ := State.ok_of_bind hrun
  obtain ⟨g₂, hp₂⟩ := (Grown.ofValid hv).emitValue h₂ rfl (by simp [Instruction.slot?]) rfl
  obtain ⟨g₃, htop⟩ := quietImports_grown g₂ hp₂.top hrun
  rw [Nat.zero_add] at g₃
  exact ⟨_, g₃, .inr htop⟩

theorem emitImports_leaves {names : List String} (hv : Valid (view s))
    (hrun : emitImports names s = .ok u t) : Leaves (view s) (view t) := by
  induction names generalizing s with
  | nil => exact .constant hv hrun
  | cons full rest ih =>
      cases rest with
      | nil => exact .result (.ofValid hv) hrun rfl rfl rfl rfl
      | cons next rest =>
          obtain ⟨⟨⟩, s₁, h₁, hrun⟩ := State.ok_of_bind hrun
          obtain ⟨⟨⟩, s₂, h₂, hrun⟩ := State.ok_of_bind hrun
          have hquiet : emitQuietImport full s = .ok _ s₂ := (State.bind_of_ok h₁).trans h₂
          have g := (emitQuietImport_grown (.ofValid hv) hquiet).1
          exact .behind g (ih g.valid hrun)

theorem compileImport_leaves {d : Datum} (hv : Valid (view s)) (hrun : compileImport d s = .ok u t) :
    Leaves (view s) (view t) := by
  obtain ⟨names, s₁, h₁, hrun⟩ := State.ok_of_bind hrun
  have hview := aside_importAll _ h₁
  rw [← hview] at hv ⊢
  exact emitImports_leaves hv hrun

end Spaces

end LispMachine.Emission
