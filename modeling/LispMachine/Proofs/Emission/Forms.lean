import LispMachine.Proofs.Emission.Lookups
import LispMachine.Proofs.Emission.Steps

/-! # Forms without labels

Handlers compile forms as they should (`Compiles`) when the value of each form ends up on top of what was
there.  The forms here are compiled from their parts in order, without branches: bodies, arguments and
calls, collections, names, members, definitions, namespaces and templates.  Each is shown to leave its
value (`Leaves`) on the assumption that the handlers compile the parts. -/

namespace LispMachine.Emission

open Form

/-- Whatever the handlers compile leaves its value on top. -/
def Compiles (h : Handlers) : Prop :=
  ∀ ⦃d s u t⦄, Valid (view s) → h.compile d s = .ok u t → Compiled (view s) (view t)

/-- Code that leaves one value above what was there, or nothing. -/
def Leaves (v t : View) : Prop := ∃ k, Grown (terms v) v k t ∧ (k = 0 ∨ Top k t)

section Basics

variable {T : Terms} {v₀ v v' : View} {k : Nat} {s t : FormState} {u : Unit} {h : Handlers}

/-- A form is held to leaving one value, so what it leaves is on top of what was there, unchanged. -/
theorem compiled_of_emitForm {d : Datum} {code : FormM Unit} (hrun : emitForm d code s = .ok u t)
    (hcode : ∀ u, code s = .ok u t → Leaves (view s) (view t)) : Compiled (view s) (view t) := by
  obtain ⟨before, s₁, h₁, hrun⟩ := State.ok_of_bind hrun
  obtain ⟨rfl, rfl, -⟩ := stack_ok h₁
  obtain ⟨⟨⟩, s₂, h₂, hrun⟩ := State.ok_of_bind hrun
  obtain ⟨stack, s₃, h₃, hrun⟩ := State.ok_of_bind hrun
  obtain ⟨rfl, rfl, -⟩ := stack_ok h₃
  split at hrun
  · rename_i hsize
    cases hrun
    obtain ⟨k, g, htop⟩ := hcode _ (atSpan_ok h₂)
    refine ⟨k, g, ?_⟩
    rw [Bool.or_eq_true, decide_eq_true_eq] at hsize
    cases hlive : (view t).stack.isUnreachable with
    | true => exact .inl (reach_of_dead hlive)
    | false =>
        refine .inr ((g.over_of_live hlive).eq_cons ?_ ?_)
        · have hlength : (view t).stack.size = (view s).stack.size + 1 := by simpa [hlive] using hsize
          simpa [View.widths, widths, TypeStack.size, terms] using hlength
        · refine htop.imp_right fun htop => htop.resolve_left ?_
          rw [View.reach_of_live hlive]
          simp
  · cases hrun

/-- A part in tail position only where the form is. -/
theorem Grown.compile (g : Grown T v₀ k (view s)) (hc : Compiles h) {d : Datum}
    (hrun : h.compile d s = .ok u t) (htail : ∀ p, T.holds p → TailOk p (view s)) :
    ∃ w, Grown T v₀ (k + w) (view t) ∧ Pushed w (view s) (view t) :=
  g.form (hc g.valid hrun) htail

theorem tailOk_of_false (htail : v.tail = false) (p : Blueprint) : TailOk p v := by
  intro ht
  rw [htail] at ht
  cases ht

/-- A part that is not in tail position. -/
theorem Grown.compilePart (g : Grown T v₀ k (view s)) (hc : Compiles h) {d : Datum}
    (hrun : FormM.withTail false (h.compile d) s = .ok u t) :
    ∃ w, Grown T v₀ (k + w) (view t) ∧ Pushed w (view s) (view t) := by
  obtain ⟨s₁, t₁, h₁, g₁, hs₁, ht₁, hback⟩ := g.withTail hrun
  obtain ⟨w, g₂, hw⟩ := g₁.compile hc h₁ fun p _ => tailOk_of_false g₁.tail p
  refine ⟨w, hback _ g₂, ?_⟩
  simpa only [Pushed, View.reach, View.widths, ht₁, hs₁] using hw

theorem Grown.compileBoxed (g : Grown T v₀ k (view s)) (hc : Compiles h) {d : Datum}
    (hrun : compileBoxed h d s = .ok u t) : Grown T v₀ (k + 1) (view t) ∧ Top 1 (view t) := by
  obtain ⟨⟨⟩, s₁, h₁, hrun⟩ := State.ok_of_bind hrun
  obtain ⟨w, g₁, hw⟩ := g.compilePart hc h₁
  exact g₁.boxTop hw.top hrun

/-- The value of the last form of a body is left on top. -/
theorem compileBody_grown (hc : Compiles h) {body : List Datum} (hv : Valid (view s))
    (hrun : compileBody h body s = .ok u t) :
    ∃ w, Grown (terms (view s)) (view s) w (view t) ∧ Top w (view t) := by
  induction body generalizing s with
  | nil =>
      obtain ⟨g, hpushed⟩ := (Grown.ofValid hv).emitConstant hrun
      rw [Nat.zero_add] at g
      exact ⟨_, g, hpushed.top⟩
  | cons d rest ih =>
      cases rest with
      | nil =>
          obtain ⟨w, g, hw⟩ := hc hv hrun
          exact ⟨w, g, hw.top⟩
      | cons d' rest =>
          obtain ⟨⟨⟩, s₁, h₁, hrun⟩ := State.ok_of_bind hrun
          obtain ⟨⟨⟩, s₂, h₂, hrun⟩ := State.ok_of_bind hrun
          obtain ⟨w, g₁, hw⟩ := (Grown.ofValid hv).compilePart hc h₁
          have g₂ := g₁.popValue hw.top h₂
          obtain ⟨w', g₃, htop⟩ := ih g₂.valid hrun
          have g₄ := g₂.append g₃ (fun p hp => g₂.tailOk rfl g₂.tail g₂.loops hp) rfl g₂.scopes g₂.loops
            g₂.tail
          rw [Nat.zero_add] at g₄
          exact ⟨w', g₄, htop⟩

/-- Steps that push one value each, out of tail position. -/
theorem pushEach_grown {α : Type} {f : α → FormM Unit} {xs : List α}
    (hf : ∀ x ⦃T v₀ k s u t⦄, T.tail = false → Grown T v₀ k (view s) → f x s = .ok u t →
      ∃ w, Grown T v₀ (k + w) (view t) ∧ Pushed w (view s) (view t))
    (hv : Valid (view s)) (htail : (view s).tail = false) (hrun : xs.forM f s = .ok u t) :
    ∃ ws, ws.length = xs.length ∧ Grown (terms (view s)) (view s) ws.sum (view t) ∧
      ((view t).reach = none ∨ (view t).widths = ws ++ (view s).widths) := by
  induction xs generalizing s with
  | nil =>
      cases hrun
      exact ⟨[], rfl, .ofValid hv, .inr rfl⟩
  | cons x rest ih =>
      obtain ⟨⟨⟩, s₁, h₁, hrun⟩ := State.ok_of_bind hrun
      obtain ⟨w, g₁, hw⟩ := hf x htail (.ofValid hv) h₁
      have htail₁ : (view s₁).tail = false := g₁.tail.trans htail
      obtain ⟨ws, hlength, g₂, hws⟩ := ih g₁.valid htail₁ hrun
      have g₃ := g₁.append g₂ (fun p _ => tailOk_of_false htail₁ p) rfl g₁.scopes g₁.loops g₁.tail
      refine ⟨ws ++ [w], by simp [hlength], ?_, ?_⟩
      · rwa [Nat.zero_add, Nat.add_comm, ← List.sum_singleton (x := w), ← List.sum_append_nat] at g₃
      · rcases hw with hdead | hw
        · exact .inl (g₂.since.dead hdead)
        · refine hws.imp_right fun hws => ?_
          rw [hws, hw, List.append_assoc]
          rfl

/-- Each part is one value. -/
theorem compileEach_grown (hc : Compiles h) {args : List Datum} (hv : Valid (view s))
    (htail : (view s).tail = false) (hrun : args.forM h.compile s = .ok u t) :
    ∃ ws, ws.length = args.length ∧ Grown (terms (view s)) (view s) ws.sum (view t) ∧
      ((view t).reach = none ∨ (view t).widths = ws ++ (view s).widths) := by
  refine pushEach_grown ?_ hv htail hrun
  intro d T v₀ k s u t htail g hrun
  exact g.compile hc hrun fun p _ => tailOk_of_false (g.tail.trans htail) p

/-- Steps that are not in tail position and add to the stack. -/
theorem Grown.outOfTail {m : FormM Unit} (g : Grown T v₀ k (view s))
    (hrun : FormM.withTail false m s = .ok u t) :
    ∃ s₁ t₁, m s₁ = .ok u t₁ ∧ Valid (view s₁) ∧ (view s₁).tail = false ∧
      (view s₁).stack = (view s).stack ∧ (view t).stack = (view t₁).stack ∧
      ∀ j, Grown (terms (view s₁)) (view s₁) j (view t₁) → Grown T v₀ (k + j) (view t) := by
  obtain ⟨s₁, t₁, h₁, g₁, hs₁, ht₁, hback⟩ := g.withTail hrun
  refine ⟨s₁, t₁, h₁, g₁.valid, g₁.tail, hs₁, ht₁, ?_⟩
  intro j g₂
  exact hback _ (g₁.append g₂ (fun p _ => tailOk_of_false g₁.tail p) rfl g₁.scopes g₁.loops g₁.tail)

/-- Where control gets behind arguments, the types on top tell the slots they take. -/
theorem Grown.compileArgs (g : Grown T v₀ k (view s)) (hc : Compiles h) {args : List Datum}
    (hrun : compileArgs h args s = .ok u t) :
    ∃ j, Grown T v₀ (k + j) (view t) ∧ ∀ n tys, (view t).stack.isUnreachable = false →
      (view t).stack.topTypes (args.length + n) = .ok tys →
      (view s).stack.isUnreachable = false ∧
        (tys.map Ty.width).sum = j + ((view s).widths.take n).sum := by
  obtain ⟨s₁, t₁, h₁, hv, htail, hs₁, ht₁, hback⟩ := g.outOfTail hrun
  obtain ⟨ws, hlength, g₁, hws⟩ := compileEach_grown hc hv htail h₁
  refine ⟨ws.sum, hback _ g₁, ?_⟩
  intro n tys hlive htys
  rw [ht₁] at hlive htys
  obtain hws := hws.resolve_left (by rw [View.reach_of_live hlive]; simp)
  refine ⟨?_, ?_⟩
  · cases hdead : (view s).stack.isUnreachable with
    | false => rfl
    | true =>
        rw [← hs₁] at hdead
        have hreach := g₁.since.dead (reach_of_dead hdead)
        rw [View.reach_of_live hlive] at hreach
        cases hreach
  · have hwidths := (topTypes_ok htys).2
    rw [← View.widths, hws, ← hlength, List.take_length_add_append] at hwidths
    rw [← List.sum_reverse_nat, hwidths, List.sum_append_nat, View.widths, hs₁, ← View.widths]

theorem topTypes_run {n : Nat} {tys : List Ty} (hrun : Form.topTypes n s = .ok tys t) :
    s = t ∧ (view s).stack.topTypes n = .ok tys := by
  obtain ⟨stack, s₁, h₁, hrun⟩ := State.ok_of_bind hrun
  obtain ⟨rfl, rfl, -⟩ := stack_ok h₁
  obtain ⟨htys, rfl⟩ := ofExcept_ok hrun
  exact ⟨rfl, htys⟩

theorem Leaves.of_dead {v : View} (g : Grown (terms v) v k v') (hdead : v'.reach = none) : Leaves v v' :=
  ⟨0, g.of_dead hdead, .inl rfl⟩

/-- What a form has compiled and dropped again does not count. -/
theorem Leaves.behind {t : View} (g : Grown (terms v) v 0 v') (h : Leaves v' t) : Leaves v t := by
  obtain ⟨k, g', htop⟩ := h
  have g₁ := g.append g' (fun p hp => g.tailOk rfl g.tail g.loops hp) rfl g.scopes g.loops g.tail
  rw [Nat.zero_add] at g₁
  exact ⟨k, g₁, htop⟩

/-- A call that takes all that stands above the base leaves its result. -/
theorem Leaves.call {spec : SiteSpec} (g : Grown (terms v) v k (view s))
    (hargs : (spec.argTypes.map Ty.width).sum = k) (hrun : FormM.emitCall spec s = .ok u t) :
    Leaves v (view t) := by
  obtain ⟨g₁, htop⟩ := g.emitCall hrun (Nat.le_of_eq hargs)
  rw [hargs, Nat.sub_self, Nat.zero_add] at g₁
  refine ⟨_, g₁, htop.imp_left fun hret => ?_⟩
  rw [hret]
  rfl

/-- An instruction that takes all that stands above the base leaves its result. -/
theorem Leaves.result {i : Instruction} {pops : List Ty} {ty : Ty} (g : Grown (terms v) v k (view s))
    (hrun : FormM.emit i s = .ok u t) (he : i.effect (view s).sites = .ok (.ops pops (some ty)))
    (hpops : (pops.map Ty.width).sum = k) (hslot : i.slot? = none) (htargets : i.targets = []) :
    Leaves v (view t) := by
  obtain ⟨g₁, htop⟩ := g.emitResult hrun he (Nat.le_of_eq hpops) (by simp [hslot]) htargets
  rw [hpops, Nat.sub_self, Nat.zero_add] at g₁
  exact ⟨_, g₁, .inr htop⟩

theorem isUnreachable_run {dead : Bool} (g : Grown T v₀ k (view s))
    (hrun : FormM.isUnreachable s = .ok dead t) : s = t ∧ dead = (view s).stack.isUnreachable :=
  isUnreachable_ok hrun g.methods_ne

end Basics

/-! ### Calls and collections -/

section Calls

variable {s t : FormState} {u : Unit} {h : Handlers}

/-- Arguments first, then what is done with them where control gets behind them. -/
theorem leaves_behind_args (hc : Compiles h) {args : List Datum} {rest : List Ty → FormM Unit}
    (hv : Valid (view s))
    (hrun : (do
      compileArgs h args
      if ← FormM.isUnreachable then return ()
      rest (← topTypes args.length)) s = .ok u t)
    (hrest : ∀ s₁ tys, Grown (terms (view s)) (view s) ((tys.map Ty.width).sum) (view s₁) →
      rest tys s₁ = .ok u t → Leaves (view s) (view t)) : Leaves (view s) (view t) := by
  obtain ⟨⟨⟩, s₁, h₁, hrun⟩ := State.ok_of_bind hrun
  obtain ⟨j, g₁, htys⟩ := (Grown.ofValid hv).compileArgs hc h₁
  obtain ⟨dead, s₂, h₂, hrun⟩ := State.ok_of_bind hrun
  obtain ⟨rfl, rfl⟩ := isUnreachable_run g₁ h₂
  split at hrun
  · rename_i hdead
    cases hrun
    exact .of_dead g₁ (reach_of_dead hdead)
  · rename_i hlive
    rw [Bool.not_eq_true] at hlive
    obtain ⟨tys, s₂, h₂, hrun⟩ := State.ok_of_bind hrun
    obtain ⟨rfl, htys₁⟩ := topTypes_run h₂
    have hsum := (htys 0 tys hlive htys₁).2
    rw [List.take_zero, List.sum_nil, Nat.add_zero] at hsum
    refine hrest s₁ tys ?_ hrun
    rwa [hsum, ← Nat.zero_add j]

theorem compileGlobalCall_leaves (hc : Compiles h) {d : Datum} {v : VarRef} (hv : Valid (view s))
    (hrun : compileGlobalCall h d v s = .ok u t) : Leaves (view s) (view t) := by
  refine leaves_behind_args hc hv hrun fun s₁ tys g hrun => ?_
  obtain ⟨w, s₂, h₂, hrun⟩ := State.ok_of_bind hrun
  cases h₂
  exact .call g rfl hrun

theorem compileCall_leaves (hc : Compiles h) {d : Datum} (hv : Valid (view s))
    (hrun : compileCall h d s = .ok u t) : Leaves (view s) (view t) :=
  leaves_behind_args hc hv hrun fun _ _ g hrun => .call g rfl hrun

/-- Each item is one boxed value. -/
theorem Grown.compileBoxedEach {T : Terms} {v₀ : View} {k : Nat} (g : Grown T v₀ k (view s))
    (hc : Compiles h) (htail : T.tail = false) {items : List Datum}
    (hrun : compileBoxedEach h items s = .ok u t) :
    Grown T v₀ (k + items.length) (view t) ∧ (items ≠ [] → Top 1 (view t)) := by
  induction items generalizing s k with
  | nil =>
      cases hrun
      exact ⟨g, fun hne => absurd rfl hne⟩
  | cons d rest ih =>
      obtain ⟨⟨⟩, s₁, h₁, hrun⟩ := State.ok_of_bind hrun
      obtain ⟨⟨⟩, s₂, h₂, hrun⟩ := State.ok_of_bind hrun
      obtain ⟨w, g₁, hw⟩ := g.compile hc h₁ fun p _ => tailOk_of_false (g.tail.trans htail) p
      obtain ⟨g₂, htop⟩ := g₁.boxTop hw.top h₂
      obtain ⟨g₃, htop'⟩ := ih g₂ hrun
      rw [Nat.add_assoc, Nat.add_comm 1] at g₃
      refine ⟨g₃, fun _ => ?_⟩
      cases rest with
      | nil =>
          cases hrun
          exact htop
      | cons d' rest => exact htop' (by simp)

theorem length_of_collectionParts {d : Datum} {kind : CollectionKind} {items : List Datum} {count : Nat}
    (h : collectionParts? d = some (kind, items, count)) :
    items.length = if kind = .map then count * 2 else count := by
  unfold collectionParts? at h
  split at h
  case h_4 entries _ =>
    cases h
    induction entries with
    | nil => rfl
    | cons e es ih => simp_all [Nat.add_mul]
  all_goals
    cases h
    try rfl

/-- A collection takes its items and is left in their place. -/
theorem compileCollection_leaves (hc : Compiles h) {d : Datum} (hv : Valid (view s))
    (hrun : compileCollection h d s = .ok u t) : Leaves (view s) (view t) := by
  unfold compileCollection at hrun
  cases hparts : collectionParts? d with
  | none =>
      rw [hparts] at hrun
      cases hrun
  | some parts =>
      obtain ⟨kind, items, count⟩ := parts
      rw [hparts] at hrun
      obtain ⟨⟨⟩, s₁, h₁, hrun⟩ := State.ok_of_bind hrun
      obtain ⟨s₂, t₂, h₂, g₂, -, -, hback⟩ := (Grown.ofValid hv).withTail h₁
      have g₁ := hback _ (g₂.compileBoxedEach hc rfl h₂).1
      refine .result g₁ hrun rfl ?_ rfl rfl
      rw [List.map_replicate, List.sum_replicate_nat, Nat.zero_add, length_of_collectionParts hparts]
      exact Nat.mul_one _

end Calls

end LispMachine.Emission
