import LispMachine.Proofs.Emission.Forms

/-! # Arms of branches

An arm ends in a hole and a jump.  While the code grows, what the hole will be filled with is taken for
granted (`Joins`): a conversion to the type that all arms agree on, at the depth of the label they jump to.
Once the arms are joined, the holes are filled with just that, and nothing is owed any more. -/

namespace LispMachine.Emission

open Form
open CodeBuffer (Item)

/-! ### Conversions in holes -/

/-- A conversion leads from the depth with the one value to the depth with the other. -/
theorem Conversion.flow {p : Blueprint} {lo base a b : Nat} {code : List Instruction}
    (h : Conversion a code b) (hlo : lo ≤ base) (ha : base + a ≤ p.room) (hb : base + b ≤ p.room) :
    Flow p lo (some (base + a)) (code.map .instruction) (some (base + b)) := by
  induction h with
  | nil a => exact .nil
  | @cons a c b i rest hi hle hrest ih =>
      obtain ⟨⟨e, he, hneeds, hpopped, hpushed⟩, hends, hslot, htargets⟩ := hi
      have hc : base + c ≤ p.room := by
        rcases hle with rfl | hle
        · obtain rfl := hrest.eq_of_nil
          exact hb
        · omega
      have hafter : afterEffect (base + a) e = base + c := by
        rw [afterEffect]
        omega
      have hfit : Fitting p lo (base + a) i e := by
        refine ⟨he _, by omega, by omega, ha, hafter ▸ hc, by simp [hslot], by simp [htargets]⟩
      have hexit : exitOf i (base + a) e = some (base + c) := by simp [exitOf, hends, hafter]
      have hfirst := Flow.instruction hfit
      rw [hexit] at hfirst
      exact hfirst.append (ih hc hb)

/-- The hole of an arm is filled so that control gets to the end of all arms with the type they agree on;
where control does not get to the end of the arm, nothing is filled in. -/
def Joins (p : Blueprint) (base : Nat) (joined : Option Ty) (last : Label) (arm : Arm) : Prop :=
  match arm.ty with
  | none => p.filling arm.hole = []
  | some ty => ∃ target, joined = some target ∧ Conversion ty.width (p.filling arm.hole) target.width ∧
      base + target.width ≤ p.room ∧ p.depthOf last = some (base + target.width)

/-- The same terms with one more hole left open. -/
def Terms.hollow (T : Terms) (h : Hole) : Terms := { T with holes := h :: T.holes }

section Arms

variable {T : Terms} {v₀ v : View} {k a : Nat} {s t : FormState} {u : Unit}

/-- A view with a hole at the end of its code. -/
def View.holed (v : View) : View := v.update { v.work with code := v.code.hole.2 }

theorem Orderly.hole {b : CodeBuffer} (h : Orderly b) : Orderly b.hole.2 := by
  obtain ⟨hnodup, hlt, hholes⟩ := h
  refine ⟨?_, ?_, ?_⟩
  · simpa [CodeBuffer.hole] using hnodup
  · simpa [CodeBuffer.hole] using hlt
  · simp [CodeBuffer.hole, hholes, List.range_succ]

theorem valid_holed (h : Valid v) : Valid v.holed :=
  h.update h.steady h.orderly.hole h.free (Nat.le_refl _)

theorem since_holed (v : View) : Since v v.holed :=
  { Since.refl v with
    outer := rfl
    owner := rfl
    items := by simp [View.holed, CodeBuffer.hole]
    placed := by
      intro l _ hl
      simpa [View.holed, CodeBuffer.hole] using hl
    holes_le := by simp [View.holed, CodeBuffer.hole]
    holes := by
      intro h hh
      simp [View.holed, CodeBuffer.hole, Array.getElem?_push, Nat.ne_of_lt hh] }

/-- What covers the code with a new hole left open covers the code before. -/
theorem covers_of_hollow {p : Blueprint} {first : Hole} {t : View} (hs : Since v t)
    (h : Covers p first (v.code.holes.size :: T.holes) t) : Covers p first T.holes v :=
  h.mono hs (Nat.le_refl _) fun _ _ hlt hmem =>
    (List.mem_cons.1 hmem).resolve_left (Nat.ne_of_lt hlt)

theorem holes_lt_hollow (g : Grown T v₀ k v) {t : View} (hs : Since v.holed t) :
    ∀ h ∈ v.code.holes.size :: T.holes, h < t.code.holes.size := by
  have hsize : v.code.holes.size < v.holed.code.holes.size := by simp [View.holed, CodeBuffer.hole]
  intro h hh
  refine Nat.lt_of_lt_of_le ?_ hs.holes_le
  rcases List.mem_cons.1 hh with rfl | hh
  · exact hsize
  · exact Nat.lt_trans (g.holes_lt h hh) hsize

/-- An arm ends with control at the end of all arms, or where it does not get. -/
theorem Grown.closeArm {j : Nat} {last : Label} {arm : Arm} {joined : Option Ty}
    (g : Grown T v₀ a (view s)) (htop : Top a (view s)) (hrun : closeArm last s = .ok arm t)
    (hjoins : ∀ p, T.holds p → Joins p T.base.sum joined last arm) :
    Grown (T.hollow arm.hole) v₀ j (view t) ∧ (view t).reach = none ∧
      arm.hole = (view s).code.holes.size ∧ (view t).code.holes = (view s).code.holes.push [] := by
  obtain ⟨ty, s₁, h₁, hrun⟩ := State.ok_of_bind hrun
  obtain ⟨rfl, rfl⟩ := topType_ok h₁
  obtain ⟨hole, s₂, h₂, hrun⟩ := State.ok_of_bind hrun
  obtain ⟨rfl, hview₂⟩ := onCode_ok h₂
  obtain ⟨⟨⟩, s₃, h₃, hrun⟩ := State.ok_of_bind hrun
  cases hrun
  have hview₂ : view s₂ = (view s).holed := hview₂
  have hitems : (view s).holed.code.items.toList
      = (view s).code.items.toList ++ [Item.hole (view s).code.holes.size] := by
    simp [View.holed, CodeBuffer.hole]
  rcases emit_ok h₃ with ⟨hdead, hview₃⟩ | ⟨hlive, e, stack, he, ha, hview₃⟩
  · -- control does not get to the end of the arm, so the hole stays empty
    rw [hview₂] at hdead hview₃
    have hdead₀ : (view s).stack.isUnreachable = true := hdead
    have hreach : (view s).reach = none := reach_of_dead hdead₀
    rw [hview₃]
    refine ⟨?_, hreach, rfl, rfl⟩
    refine g.extend (valid_holed g.valid) (g.since.trans (since_holed _)) (.inl hreach) rfl rfl rfl rfl
      (holes_lt_hollow g (.refl _)) (fun p => covers_of_hollow (since_holed _)) rfl ?_ ?_
    · intro p _ hholds
      refine ⟨_, hitems, ?_⟩
      intro lo _
      have hempty : p.filling (view s).code.holes.size = [] := by
        have hfill := hjoins p hholds
        rwa [Joins, g.valid.steady.dead hdead₀] at hfill
      refine .hole ?_
      rw [hempty]
      exact .nil
    · simp [hitems]
  · rw [hview₂] at hlive he ha hview₃
    have hlive₀ : (view s).stack.isUnreachable = false := hlive
    obtain rfl : e = .ops [] none := (Except.ok.inj he).symm
    have hsince : Since (view s) ((view s).holed.emitted (.goto last) stack) :=
      (since_holed _).trans (since_emitted ha hlive)
    have hreach : ((view s).holed.emitted (.goto last) stack).reach = none := by
      rw [reach_emitted ha]
      rfl
    rw [hview₃]
    refine ⟨?_, hreach, rfl, rfl⟩
    refine g.extend (valid_emitted (valid_holed g.valid) ha) (g.since.trans hsince) (.inl hreach) rfl rfl
      rfl rfl (holes_lt_hollow g (since_emitted ha hlive)) (fun p => covers_of_hollow hsince) rfl ?_ ?_
    · intro p hcov hholds
      refine ⟨[.hole (view s).code.holes.size, .instruction (.goto last)], ?_, ?_⟩
      · simp [View.emitted, CodeBuffer.push, hitems]
      · intro lo hlo
        have hfloor := hlo (g.start_live hlive₀)
        rcases g.topType htop with ⟨-, hdead⟩ | ⟨ty, hty, rfl⟩
        · rw [View.reach_of_live hlive₀] at hdead
          cases hdead
        have hfill := hjoins p hholds
        rw [Joins, hty] at hfill
        obtain ⟨target, -, hconv, hroom, hlast⟩ := hfill
        have hdepth := g.reach_eq hlive₀
        have hmax : T.base.sum + ty.width ≤ p.room := by
          have hsteady := g.valid.steady.depth_le
          have hsum := (g.over_of_live hlive₀).sum
          rw [View.widths, sum_widths] at hsum
          exact hsum ▸ Nat.le_trans hsteady (Nat.le_trans hsince.max_le hcov.room)
        have hfit : Fitting p lo (T.base.sum + target.width) (.goto last) (.ops [] none) := by
          refine ⟨rfl, Nat.zero_le _, Nat.le_trans hfloor (Nat.le_add_right _ _), hroom, hroom,
            by simp [Instruction.slot?], ?_⟩
          intro l hl
          obtain rfl := List.mem_singleton.1 hl
          exact hlast
        rw [hreach, hdepth]
        exact (Flow.hole (hconv.flow hfloor hmax hroom)).append (.instruction hfit)
    · simp [View.emitted, CodeBuffer.push, hitems]

/-- Other fillings for the open holes. -/
def View.refilled (v : View) (holes : Array (List Instruction)) : View :=
  v.update { v.work with code := { v.code with holes } }

theorem Grown.refill (g : Grown T v₀ k v) {holes : Array (List Instruction)}
    (hsize : holes.size = v.code.holes.size) (hsame : ∀ h, h ∉ T.holes → holes[h]? = v.code.holes[h]?)
    (hfresh : ∀ h < v₀.code.holes.size, holes[h]? = v.code.holes[h]?) :
    Grown T v₀ k (v.refilled holes) := by
  have horderly : Orderly { v.code with holes } := by
    obtain ⟨hnodup, hlt, hrange⟩ := g.valid.orderly
    exact ⟨hnodup, hlt, by rw [hrange, hsize]⟩
  have hsince : Since v₀ (v.refilled holes) :=
    { g.since with
      outer := g.since.outer
      owner := g.since.owner
      holes_le := hsize ▸ g.since.holes_le
      holes := fun h hh => (hfresh h hh).trans (g.since.holes h hh) }
  refine g.extend (g.valid.update g.valid.steady horderly g.valid.free (Nat.le_refl _)) hsince g.based rfl
    rfl rfl rfl (fun h hh => hsize ▸ g.holes_lt h hh) ?_ rfl ?_ rfl
  · intro p hcov
    refine ⟨hcov.sites, hcov.room, hcov.locals, ?_⟩
    intro h hle hlt hmem
    rw [hcov.filling h hle (hsize ▸ hlt) hmem]
    exact congrArg (·.getD []) (hsame h hmem)
  · exact fun p _ _ => ⟨[], (List.append_nil _).symm, fun _ _ => .nil⟩

end Arms

/-! ### Joined arms -/

section Joined

variable {s t : FormState} {u : Unit}

theorem View.refilled_self {v : View} (h : v.methods ≠ []) : v.refilled v.code.holes = v := by
  have hupdate : v.update v.work = v := by
    rw [View.update, ← View.methods_eq h]
  exact hupdate

/-- The hole of an arm holds the conversion to a type. -/
def Filled (holes : Array (List Instruction)) (target : Ty) (arm : Arm) : Prop :=
  match arm.ty with
  | none => holes[arm.hole]? = some []
  | some ty => ∃ code, holes[arm.hole]? = some code ∧ Conversion ty.width code target.width

theorem fillArm_ok {target : Ty} {arm : Arm} (hne : (view s).methods ≠ [])
    (hempty : (view s).code.holes[arm.hole]? = some []) (hrun : fillArm target arm s = .ok u t) :
    ∃ holes, view t = (view s).refilled holes ∧ holes.size = (view s).code.holes.size ∧
      (∀ h, h ≠ arm.hole → holes[h]? = (view s).code.holes[h]?) ∧ Filled holes target arm := by
  unfold fillArm at hrun
  cases hty : arm.ty with
  | none =>
      rw [hty] at hrun
      cases hrun
      refine ⟨(view s).code.holes, (View.refilled_self hne).symm, rfl, fun _ _ => rfl, ?_⟩
      rw [Filled, hty]
      exact hempty
  | some ty =>
      rw [hty] at hrun
      obtain ⟨r, s₁, h₁, hrun⟩ := State.ok_of_bind hrun
      cases h₁
      obtain ⟨code, s₁, h₁, hrun⟩ := State.ok_of_bind hrun
      obtain ⟨hcode, rfl⟩ := ofExcept_ok h₁
      have hlt := (Array.getElem?_eq_some_iff.1 hempty).1
      refine ⟨(view s).code.holes.setIfInBounds arm.hole code, modifyCode_ok hrun, by simp, ?_, ?_⟩
      · intro h hh
        rw [Array.getElem?_setIfInBounds_ne (Ne.symm hh)]
      · rw [Filled, hty]
        exact ⟨code, by simp [hlt], coerce_conversion hcode⟩

theorem fillArms_ok {target : Ty} {arms : List Arm} (hne : (view s).methods ≠ [])
    (hnodup : (arms.map Arm.hole).Nodup) (hempty : ∀ arm ∈ arms, (view s).code.holes[arm.hole]? = some [])
    (hrun : arms.forM (fillArm target) s = .ok u t) :
    ∃ holes, view t = (view s).refilled holes ∧ holes.size = (view s).code.holes.size ∧
      (∀ h, h ∉ arms.map Arm.hole → holes[h]? = (view s).code.holes[h]?) ∧
      ∀ arm ∈ arms, Filled holes target arm := by
  induction arms generalizing s with
  | nil =>
      cases hrun
      exact ⟨_, (View.refilled_self hne).symm, rfl, fun _ _ => rfl, by simp⟩
  | cons arm rest ih =>
      rw [List.map_cons, List.nodup_cons] at hnodup
      obtain ⟨⟨⟩, s₁, h₁, hrun⟩ := State.ok_of_bind hrun
      obtain ⟨holes₁, hview₁, hsize₁, hsame₁, hfilled₁⟩ :=
        fillArm_ok hne (hempty arm (List.mem_cons_self ..)) h₁
      have hholes₁ : (view s₁).code.holes = holes₁ := by
        rw [hview₁]
        rfl
      have hother : ∀ arm' ∈ rest, arm'.hole ≠ arm.hole := by
        intro arm' hmem heq
        exact hnodup.1 (heq ▸ List.mem_map_of_mem hmem)
      obtain ⟨holes, hview, hsize, hsame, hfilled⟩ := ih (by rw [hview₁]; simp [View.refilled]) hnodup.2
        (by
          intro arm' hmem
          rw [hholes₁, hsame₁ _ (hother arm' hmem)]
          exact hempty arm' (List.mem_cons_of_mem _ hmem)) hrun
      rw [hholes₁] at hsize hsame
      refine ⟨holes, by rw [hview, hview₁]; rfl, hsize.trans hsize₁, ?_, ?_⟩
      · intro h hh
        rw [List.map_cons, List.mem_cons, not_or] at hh
        rw [hsame h hh.2, hsame₁ h hh.1]
      · intro arm' hmem
        rcases List.mem_cons.1 hmem with rfl | hmem
        · -- the hole of the first arm is none of those filled later
          have hkept := hsame _ hnodup.1
          unfold Filled at hfilled₁ ⊢
          rwa [hkept]
        · exact hfilled arm' hmem

/-- Joining arms fills their holes, and nothing else changes. -/
theorem joinArms_ok {arms : List Arm} {joined : Option Ty} (hne : (view s).methods ≠ [])
    (hnodup : (arms.map Arm.hole).Nodup) (hempty : ∀ arm ∈ arms, (view s).code.holes[arm.hole]? = some [])
    (hrun : joinArms arms s = .ok joined t) :
    ∃ holes, view t = (view s).refilled holes ∧ holes.size = (view s).code.holes.size ∧
      (∀ h, h ∉ arms.map Arm.hole → holes[h]? = (view s).code.holes[h]?) ∧
      ∀ arm ∈ arms, (arm.ty = none ∧ holes[arm.hole]? = some []) ∨
        ∃ target, joined = some target ∧ Filled holes target arm := by
  obtain ⟨r, s₁, h₁, hrun⟩ := State.ok_of_bind hrun
  cases h₁
  cases hjoined : armType? s.world.registry arms with
  | none =>
      simp only [hjoined] at hrun
      cases hrun
      refine ⟨_, (View.refilled_self hne).symm, rfl, fun _ _ => rfl, ?_⟩
      intro arm hmem
      refine .inl ⟨?_, hempty arm hmem⟩
      unfold armType? at hjoined
      cases hty : arm.ty with
      | none => rfl
      | some ty =>
          have hin : ty ∈ arms.filterMap Arm.ty := List.mem_filterMap.2 ⟨arm, hmem, hty⟩
          split at hjoined
          · rename_i hnil
            rw [hnil] at hin
            cases hin
          · cases hjoined
  | some target =>
      simp only [hjoined] at hrun
      obtain ⟨⟨⟩, s₁, h₁, hrun⟩ := State.ok_of_bind hrun
      cases hrun
      obtain ⟨holes, hview, hsize, hsame, hfilled⟩ := fillArms_ok hne hnodup hempty h₁
      exact ⟨holes, hview, hsize, hsame, fun arm hmem => .inr ⟨target, rfl, hfilled arm hmem⟩⟩

end Joined

/-! ### Where arms are left open -/

/-- Between two views arms were closed, and their holes are still empty. -/
structure Closed (v t : View) (arms : List Arm) : Prop where
  nodup : (arms.map Arm.hole).Nodup
  le : ∀ arm ∈ arms, v.code.holes.size ≤ arm.hole
  empty : ∀ arm ∈ arms, t.code.holes[arm.hole]? = some []
  kept : ∀ h < v.code.holes.size, t.code.holes[h]? = v.code.holes[h]?
  size_le : v.code.holes.size ≤ t.code.holes.size

namespace Closed

variable {u v w : View} {xs ys : List Arm}

theorem ofSince (h : Since v w) : Closed v w [] :=
  ⟨List.nodup_nil, by simp, by simp, h.holes, h.holes_le⟩

theorem ofHoles (h : w.code.holes = v.code.holes) : Closed v w [] :=
  ⟨List.nodup_nil, by simp, by simp, fun _ _ => by rw [h], Nat.le_of_eq (congrArg Array.size h.symm)⟩

theorem lt (h : Closed v w xs) {arm : Arm} (hmem : arm ∈ xs) : arm.hole < w.code.holes.size :=
  (Array.getElem?_eq_some_iff.1 (h.empty arm hmem)).1

theorem append (h : Closed u v xs) (h' : Closed v w ys) : Closed u w (xs ++ ys) where
  nodup := by
    rw [List.map_append, List.nodup_append]
    refine ⟨h.nodup, h'.nodup, ?_⟩
    intro a ha b hb
    obtain ⟨x, hx, rfl⟩ := List.mem_map.1 ha
    obtain ⟨y, hy, rfl⟩ := List.mem_map.1 hb
    exact Nat.ne_of_lt (Nat.lt_of_lt_of_le (h.lt hx) (h'.le y hy))
  le := by
    intro arm harm
    rcases List.mem_append.1 harm with harm | harm
    · exact h.le arm harm
    · exact Nat.le_trans h.size_le (h'.le arm harm)
  empty := by
    intro arm harm
    rcases List.mem_append.1 harm with harm | harm
    · rw [h'.kept arm.hole (h.lt harm)]
      exact h.empty arm harm
    · exact h'.empty arm harm
  kept := fun i hi => (h'.kept i (Nat.lt_of_lt_of_le hi h.size_le)).trans (h.kept i hi)
  size_le := Nat.le_trans h.size_le h'.size_le

end Closed

/-- The same terms with more holes left open. -/
def Terms.hollowAll (T : Terms) (hs : List Hole) : Terms := { T with holes := hs ++ T.holes }

section Open

variable {T : Terms} {v₀ v : View} {k : Nat} {s t : FormState}

/-- Which holes are open is a matter of membership alone. -/
theorem Grown.reopen {hs : List Hole} (g : Grown T v₀ k v) (hsub : ∀ h ∈ hs, h ∈ T.holes) :
    Grown { T with holes := hs } v₀ k v :=
  { g with
    holes_lt := fun h hh => g.holes_lt h (hsub h hh)
    plan := by
      obtain ⟨depths, hdepths⟩ := g.plan
      refine ⟨depths, ?_⟩
      intro p hp hcov hholds
      exact hdepths p hp (hcov.mono (.refl v) (Nat.le_refl _) fun h _ _ hh => hsub h hh) hholds }

/-- An arm from its start to its end. -/
theorem Grown.arm {code : FormM Unit} {last : Label} {arm : Arm} {joined : Option Ty}
    (g : Grown T v₀ 0 (view s)) (hrun : (code >>= fun _ => Form.closeArm last) s = .ok arm t)
    (hcode : ∀ u s₁, code s = .ok u s₁ →
      ∃ w, Grown (terms (view s)) (view s) w (view s₁) ∧ Top w (view s₁))
    (htail : ∀ p, T.holds p → TailOk p (view s))
    (hjoins : ∀ p, T.holds p → Joins p T.base.sum joined last arm) :
    Grown (T.hollow arm.hole) v₀ 0 (view t) ∧ (view t).reach = none ∧ Closed (view s) (view t) [arm] := by
  obtain ⟨⟨⟩, s₁, h₁, hrun⟩ := State.ok_of_bind hrun
  obtain ⟨w, g₁, htop⟩ := hcode _ _ h₁
  have g₂ := g.append g₁ htail rfl g.scopes g.loops g.tail
  rw [Nat.zero_add] at g₂
  obtain ⟨g₃, hdead, hhole, hholes⟩ := g₂.closeArm (j := 0) htop hrun hjoins
  refine ⟨g₃, hdead, by simp, ?_, ?_, ?_, ?_⟩
  · intro arm' harm
    obtain rfl := List.mem_singleton.1 harm
    exact hhole ▸ g₁.since.holes_le
  · intro arm' harm
    obtain rfl := List.mem_singleton.1 harm
    rw [hhole, hholes]
    simp
  · intro i hi
    rw [← g₁.since.holes i hi, hholes, Array.getElem?_push, if_neg]
    exact Nat.ne_of_lt (Nat.lt_of_lt_of_le hi g₁.since.holes_le)
  · rw [hholes, Array.size_push]
    exact Nat.le_succ_of_le g₁.since.holes_le

end Open

/-! ### Labels and the stack at them -/

/-- New labels, which stand nowhere yet. -/
def Terms.freshAll (T : Terms) (ls : List Label) : Terms :=
  { T with labels := ls ++ T.labels, pending := ls ++ T.pending }

/-- Records to go back to, at the depth of the base. -/
structure Ground (base : List Nat) (v₀ : View) (records : List StackRecord) : Prop where
  live : records.contains .unreachable = false
  based : Over base 0 (records.map StackRecord.width)
  start : v₀.reach ≠ none

section Labels

variable {T : Terms} {v₀ v : View} {k : Nat} {s t : FormState} {u : Unit} {base : List StackRecord}
  {b : List Nat}

theorem Grown.freshLabel {l : Label} (g : Grown T v₀ k (view s)) (hrun : FormM.newLabel s = .ok l t) :
    l = (view s).code.labels ∧ Grown (T.fresh l) v₀ k (view t) ∧ (view t).stack = (view s).stack ∧
      (view t).code.labels = l + 1 := by
  obtain ⟨rfl, hview⟩ := onCode_ok hrun
  rw [hview]
  exact ⟨rfl, g.fresh, rfl, rfl⟩

theorem Grown.freshLabels {α : Type} {items : List α} {ls : List Label} (g : Grown T v₀ k (view s))
    (hrun : labelsFor items s = .ok ls t) :
    Grown (T.freshAll ls.reverse) v₀ k (view t) ∧ (view t).stack = (view s).stack ∧
      ls.length = items.length ∧ ls.Nodup ∧ (∀ l ∈ ls, (view s).code.labels ≤ l) ∧
      (view s).code.labels ≤ (view t).code.labels := by
  induction items generalizing T s ls with
  | nil =>
      cases hrun
      exact ⟨g, rfl, rfl, List.nodup_nil, by simp, Nat.le_refl _⟩
  | cons item rest ih =>
      rw [labelsFor, List.mapM_cons] at hrun
      obtain ⟨l, s₁, h₁, hrun⟩ := State.ok_of_bind hrun
      obtain ⟨ls', s₂, h₂, hrun⟩ := State.ok_of_bind hrun
      cases hrun
      obtain ⟨hl, g₁, hs₁, hlabels⟩ := g.freshLabel h₁
      obtain ⟨g₂, hs₂, hlength, hnodup, hle, hgrows⟩ := ih g₁ h₂
      rw [hlabels] at hle hgrows
      refine ⟨?_, hs₂.trans hs₁, by simp [hlength], ?_, ?_, hl ▸ Nat.le_of_succ_le hgrows⟩
      · simpa [Terms.freshAll, Terms.fresh] using g₂
      · refine List.nodup_cons.2 ⟨fun hmem => ?_, hnodup⟩
        exact Nat.lt_irrefl _ (hle l hmem)
      · intro l' hl'
        rcases List.mem_cons.1 hl' with rfl | hl'
        · exact Nat.le_of_eq hl.symm
        · exact hl ▸ Nat.le_of_succ_le (hle l' hl')

/-- Labels that are not waited for need not be placed. -/
theorem Grown.awaiting {q : List Label} (g : Grown T v₀ k v) (hq : ∀ l ∈ q, l ∈ T.pending) :
    Grown (T.await q) v₀ k v :=
  { g with
    pending_lt := fun l hl => g.pending_lt l (hq l hl)
    unplaced := fun l hl => g.unplaced l (hq l hl) }

theorem Ground.depth (h : Ground b v₀ base) : TypeStack.slots base = b.sum := by
  have hsum := h.based.sum
  rwa [Nat.add_zero] at hsum

theorem Ground.reach (h : Ground b v₀ base) (stack : TypeStack) :
    reach (stack.withRecords base) = some b.sum := by
  rw [← h.depth]
  exact reach_of_live h.live

theorem Ground.start_eq (h : Ground b v₀ base) : v₀.reach = some v₀.widths.sum := by
  obtain ⟨x, hx⟩ := Option.ne_none_iff_exists'.1 h.start
  rw [hx, (View.live_of_reach hx).2]

theorem Ground.steady (h : Ground b v₀ base) (stack : TypeStack) : Steady (stack.withRecords base) :=
  .of_live h.live (Nat.le_max_right _ _)

/-- Where control gets, the records at hand can be gone back to. -/
theorem Grown.ground (g : Grown T v₀ 0 v) (hlive : v.stack.isUnreachable = false) :
    Ground T.base v₀ v.stack.records := ⟨hlive, g.over_of_live hlive, g.start_live hlive⟩

/-- Goes back to earlier records, at a label of their depth. -/
theorem Grown.startAt {l : Label} {q : List Label} (g : Grown T v₀ k (view s)) (hbase : Ground T.base v₀ base)
    (hrun : startAt base l s = .ok u t) (hl : l ∈ T.pending) (hfresh : v₀.code.labels ≤ l)
    (hq : ∀ l' ∈ q, l' ∈ T.pending ∧ l' ≠ l)
    (hin : (view s).reach = none ∨ (view s).reach = some T.base.sum)
    (hdepth : ∀ p, T.holds p → p.depthOf l = some T.base.sum) :
    Grown (T.await q) v₀ 0 (view t) ∧ (view t).reach = some T.base.sum ∧
      Closed (view s) (view t) [] := by
  obtain ⟨⟨⟩, s₁, h₁, hrun⟩ := State.ok_of_bind hrun
  have hview₁ := modifyStack_ok h₁
  have hview : view t = (view s).labelled l ((view s).stack.withRecords base) := by
    rw [modifyCode_ok hrun, hview₁]
    rfl
  have hreach := hbase.reach (view s).stack
  have g₁ := g.place ((view s).stack.withRecords base) hl hfresh hq (hbase.steady _)
    (Nat.le_max_left _ _) (.inr hbase.based) (fun hdead => absurd hdead hbase.start) (by rwa [hreach])
    (fun p hp => (hdepth p hp).trans hreach.symm)
  rw [hview]
  exact ⟨g₁, hreach, .ofHoles rfl⟩

/-! ### The end of all arms -/

/-- The stack behind a form with branches. -/
def settledStack (stack : TypeStack) (base : List StackRecord) : Option Ty → TypeStack
  | some ty => (stack.withRecords base).push ty false
  | none => (stack.withRecords base).pushUnreachable

theorem settle_ok {joined : Option Ty} (hlive : base.contains .unreachable = false)
    (hrun : FormM.settle base joined s = .ok u t) :
    view t = (view s).update { (view s).work with stack := settledStack (view s).stack base joined } := by
  obtain ⟨⟨⟩, s₁, h₁, hrun⟩ := State.ok_of_bind hrun
  have hview₁ := modifyStack_ok h₁
  rw [if_neg (ne_true_of_eq_false hlive)] at hrun
  cases joined with
  | some ty =>
      rw [modifyStack_ok hrun, hview₁]
      rfl
  | none =>
      rw [modifyStack_ok hrun, hview₁]
      rfl

section Settled

variable {stack : TypeStack} {joined : Option Ty}

theorem max_le_settledStack : stack.max ≤ (settledStack stack base joined).max := by
  cases joined with
  | none => exact Nat.le_max_left _ _
  | some ty => exact Nat.le_trans (Nat.le_max_left _ _) (Nat.le_max_left _ _)

theorem Ground.reach_settled (h : Ground b v₀ base) (stack : TypeStack) (joined : Option Ty) :
    Emission.reach (settledStack stack base joined) = joined.map fun ty => b.sum + ty.width := by
  cases joined with
  | none => exact reach_pushUnreachable _
  | some ty =>
      have hlive : (settledStack stack base (some ty)).isUnreachable = false := by
        have hbase := h.live
        rw [List.contains_eq_mem, decide_eq_false_iff_not] at hbase
        simpa [settledStack, TypeStack.push, TypeStack.withRecords, TypeStack.isUnreachable] using hbase
      have hdepth : (settledStack stack base (some ty)).depth = b.sum + ty.width := by
        rw [← h.depth, Nat.add_comm]
        rfl
      rw [reach_of_live hlive, hdepth]
      rfl

theorem Ground.steady_settled (h : Ground b v₀ base) : Steady (settledStack stack base joined) := by
  cases joined with
  | none => exact .pushUnreachable (Nat.le_max_right _ _)
  | some ty =>
      refine .of_live ?_ (Nat.le_max_right _ _)
      have hreach := h.reach_settled stack (some ty)
      cases hlive : (settledStack stack base (some ty)).isUnreachable with
      | false => rfl
      | true =>
          rw [reach_of_dead hlive] at hreach
          cases hreach

end Settled

end Labels

/-- What is taken for granted of a form with branches: the depth at the start of each branch and at the end
of all of them, and how each arm gets there. -/
structure Branching (p : Blueprint) (base : Nat) (starts : List Label) (joined : Option Ty) (last : Label)
    (arms : List Arm) : Prop where
  starts_eq : ∀ l ∈ starts, p.depthOf l = some base
  last_eq : p.depthOf last = joined.map fun ty => base + ty.width
  joins : ∀ arm ∈ arms, Joins p base joined last arm

/-- The terms of a form with branches, with some of its labels made and some of its arms closed. -/
abbrev Terms.branching (T : Terms) (starts : List Label) (joined : Option Ty) (last : Label)
    (arms : List Arm) (ls : List Label) (hs : List Hole) : Terms :=
  T.owing (fun p => Branching p T.base.sum starts joined last arms) ls hs

section Join

variable {T : Terms} {v₀ v : View} {k : Nat} {base : List StackRecord}

/-- At the end of all arms their holes are filled as was taken for granted. -/
theorem Grown.join {starts ls : List Label} {hs : List Hole} {joined : Option Ty} {last : Label}
    {arms : List Arm} {holes : Array (List Instruction)}
    (g : Grown ((T.branching starts joined last arms ls hs).await [last]) v₀ k v) (hdead : v.reach = none)
    (hbase : Ground T.base v₀ base) (hlabels : T.labels = []) (hopen : T.holes = [])
    (hfresh : ∀ l ∈ ls, v₀.code.labels ≤ l) (hlast : last ∈ ls) (hstarts : ∀ l ∈ starts, l ∈ ls)
    (hnew : last ∉ starts) (hhs : ∀ arm ∈ arms, arm.hole ∈ hs) (hholes : ∀ h ∈ hs, v₀.code.holes.size ≤ h)
    (hsize : holes.size = v.code.holes.size)
    (hsame : ∀ h, h ∉ arms.map Arm.hole → holes[h]? = v.code.holes[h]?)
    (hfilled : ∀ arm ∈ arms, (arm.ty = none ∧ holes[arm.hole]? = some []) ∨
      ∃ target, joined = some target ∧ Filled holes target arm) :
    Grown (T.await []) v₀ ((joined.map Ty.width).getD 0)
      ((v.refilled holes).labelled last (settledStack v.stack base joined)) := by
  have hin : ∀ h, h ∉ hs → h ∉ arms.map Arm.hole := by
    intro h hnot hmem
    obtain ⟨arm, harm, rfl⟩ := List.mem_map.1 hmem
    exact hnot (hhs arm harm)
  have g₁ := g.refill hsize
    (by
      intro h hmem
      refine hsame h (hin h ?_)
      intro hh
      exact hmem (List.mem_append_left _ hh))
    (by
      intro h hlt
      refine hsame h (hin h fun hh => ?_)
      exact Nat.not_lt.2 (hholes h hh) hlt)
  have hover : reach (settledStack v.stack base joined) = none ∨
      Over T.base ((joined.map Ty.width).getD 0) (widths (settledStack v.stack base joined)) := by
    cases joined with
    | none => exact .inl (hbase.reach_settled _ _)
    | some ty =>
        have hover := hbase.based.cons (w := ty.width)
        rw [Nat.zero_add] at hover
        exact .inr hover
  have g₂ := g₁.place (settledStack v.stack base joined) (q := []) (List.mem_singleton_self _)
    (hfresh last hlast) (by simp) hbase.steady_settled max_le_settledStack hover
    (fun hdead => absurd hdead hbase.start) (.inl hdead)
    (fun p hp => hp.2.last_eq.trans (hbase.reach_settled _ _).symm)
  have g₃ : Grown ((T.await []).branching starts joined last arms ls hs) v₀ ((joined.map Ty.width).getD 0)
      ((v.refilled holes).labelled last (settledStack v.stack base joined)) := g₂
  refine g₃.discharge
    (fun l => if l = last then joined.map fun ty => T.base.sum + ty.width else some T.base.sum)
    hfresh (by simp [Terms.await, hlabels]) ?_
  intro p hcov hdepths
  have hdepth : p.depthOf last = joined.map fun ty => T.base.sum + ty.width := by
    rw [hdepths last hlast, if_pos rfl]
  refine ⟨?_, hdepth, ?_⟩
  · intro l hl
    rw [hdepths l (hstarts l hl), if_neg]
    · rfl
    · rintro rfl
      exact hnew hl
  · intro arm harm
    -- what the blueprint says of the hole is what the hole is filled with
    have hfilling : p.filling arm.hole = (holes[arm.hole]?).getD [] := by
      refine hcov.filling arm.hole (hholes _ (hhs arm harm)) ?_ (by simp [Terms.await, hopen])
      exact g₂.holes_lt arm.hole (List.mem_append_left _ (hhs arm harm))
    unfold Joins
    rcases hfilled arm harm with ⟨hty, hhole⟩ | ⟨target, rfl, hfill⟩
    · rw [hty]
      simp only
      rw [hfilling, hhole]
      rfl
    · unfold Filled at hfill
      split
      · rename_i hty
        rw [hty] at hfill
        simp only at hfill
        rw [hfilling, hfill]
        rfl
      · rename_i ty hty
        rw [hty] at hfill
        obtain ⟨code, hhole, hconv⟩ := hfill
        refine ⟨target, rfl, ?_, ?_, hdepth⟩
        · rw [hfilling, hhole]
          exact hconv
        · have hroom := hcov.room
          have hmax : (settledStack v.stack base (some target)).depth
              ≤ (settledStack v.stack base (some target)).max := hbase.steady_settled.depth_le
          have hdepth : (settledStack v.stack base (some target)).depth = T.base.sum + target.width := by
            rw [← hbase.depth, Nat.add_comm]
            rfl
          exact hdepth ▸ Nat.le_trans hmax hroom

end Join

end LispMachine.Emission
