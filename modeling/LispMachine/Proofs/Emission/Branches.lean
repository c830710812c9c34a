import LispMachine.Proofs.Emission.Arms
import LispMachine.Proofs.Emission.Placement

/-! # Branches

`if` and `case`.  Every branch starts from the records that were there when the choice was made, at a label
of their depth, and is an arm that ends where all of them do. -/

namespace LispMachine.Emission

open Form
open CodeBuffer (Item)

section Joining

variable {v v₀ : View} {k : Nat} {s t : FormState} {u : Unit}

/-- Behind all arms the value they agree on is left, or control does not get there. -/
theorem leaves_join {starts ls : List Label} {hs : List Hole} {joined : Option Ty} {last : Label}
    {arms : List Arm} {base : List StackRecord} {s₁ : FormState}
    (g : Grown (((terms v₀).branching starts joined last arms ls hs).await [last]) v₀ k v)
    (hdead : v.reach = none) (hbase : Ground v₀.widths v₀ base) (hclosed : Closed v₀ v arms)
    (hfresh : ∀ l ∈ ls, v₀.code.labels ≤ l) (hlast : last ∈ ls) (hstarts : ∀ l ∈ starts, l ∈ ls)
    (hnew : last ∉ starts) (hhs : ∀ h, h ∈ hs ↔ h ∈ arms.map Arm.hole)
    (hview : view s = v.update { v.work with code := v.code.place last })
    (h₁ : joinArms arms s = .ok joined s₁) (h₂ : FormM.settle base joined s₁ = .ok u t) :
    Leaves v₀ (view t) := by
  have hholes : (view s).code.holes = v.code.holes := by
    rw [hview]
    rfl
  obtain ⟨holes, hview₁, hsize, hsame, hfilled⟩ := joinArms_ok (by rw [hview]; simp) hclosed.nodup
    (fun arm harm => hholes ▸ hclosed.empty arm harm) h₁
  rw [hholes] at hsize hsame
  have g₁ := g.join hdead hbase rfl rfl hfresh hlast hstarts hnew
    (fun arm harm => (hhs _).2 (List.mem_map_of_mem harm))
    (fun h hh => by
      obtain ⟨arm, harm, rfl⟩ := List.mem_map.1 ((hhs h).1 hh)
      exact hclosed.le arm harm)
    hsize hsame hfilled
  have hviewt : view t = (v.refilled holes).labelled last (settledStack v.stack base joined) := by
    rw [settle_ok hbase.live h₂, hview₁, hview]
    rfl
  rw [hviewt]
  refine ⟨_, g₁, ?_⟩
  cases joined with
  | none => exact .inl rfl
  | some ty => exact .inr (.inr rfl)

end Joining

/-! ### If -/

section If

variable {T : Terms} {v₀ : View} {k a : Nat} {s t : FormState} {u : Unit} {h : Handlers}

/-- Control goes on behind an instruction that does not end a block. -/
theorem live_emit {i : Instruction} (hrun : FormM.emit i s = .ok u t) (hends : i.endsBlock = false)
    (hlive : (view s).stack.isUnreachable = false) : (view t).stack.isUnreachable = false := by
  rcases emit_ok hrun with ⟨-, hview⟩ | ⟨-, e, stack, -, ha, hview⟩
  · rw [hview]
    exact hlive
  · rw [hview]
    simpa [View.emitted, hends] using ha.live

theorem live_emitAll {code : List Instruction} (hends : ∀ i ∈ code, i.endsBlock = false)
    (hrun : FormM.emitAll code s = .ok u t) (hlive : (view s).stack.isUnreachable = false) :
    (view t).stack.isUnreachable = false := by
  induction code generalizing s with
  | nil =>
      cases hrun
      exact hlive
  | cons i rest ih =>
      obtain ⟨⟨⟩, s₁, h₁, hrun⟩ := State.ok_of_bind hrun
      obtain ⟨hi, hrest⟩ := List.forall_mem_cons.1 hends
      exact ih hrest hrun (live_emit h₁ hi hlive)

/-- The value tested is turned into a boolean. -/
theorem Grown.emitTest (g : Grown T v₀ (k + a) (view s)) (htop : Top a (view s))
    (hlive : (view s).stack.isUnreachable = false) (hrun : emitTest s = .ok u t) :
    Grown T v₀ (k + 1) (view t) ∧ (view t).stack.isUnreachable = false := by
  obtain ⟨top, s₁, h₁, hrun⟩ := State.ok_of_bind hrun
  obtain ⟨rfl, rfl⟩ := topType_ok h₁
  rcases g.topType htop with ⟨-, hdead⟩ | ⟨ty, hty, rfl⟩
  · rw [View.reach_of_live hlive] at hdead
    cases hdead
  · rw [hty] at hrun
    dsimp only at hrun
    split at hrun
    · rename_i hbool
      cases hrun
      rw [hbool] at g
      exact ⟨g, hlive⟩
    · obtain ⟨⟨⟩, s₁, h₁, hrun⟩ := State.ok_of_bind hrun
      obtain ⟨g₁, -⟩ := g.emitAll (toBoxed_conversion ty) (fun _ => htop) h₁
      have hlive₁ := live_emitAll (toBoxed_conversion ty).ends h₁ hlive
      obtain ⟨g₂, -⟩ := g₁.emitResult hrun rfl (Nat.le_add_left ..) (by simp [Instruction.slot?]) rfl
      exact ⟨g₂, live_emit hrun rfl hlive₁⟩

theorem compileOptional_grown (hc : Compiles h) {d : Option Datum} (hv : Valid (view s))
    (hrun : compileOptional h d s = .ok u t) :
    ∃ w, Grown (terms (view s)) (view s) w (view t) ∧ Top w (view t) := by
  cases d with
  | none =>
      obtain ⟨g, hp⟩ := (Grown.ofValid hv).emitConstant hrun
      rw [Nat.zero_add] at g
      exact ⟨_, g, hp.top⟩
  | some d =>
      obtain ⟨w, g, hp⟩ := hc hv hrun
      exact ⟨w, g, hp.top⟩

/-- Both branches start at the depth of the form and end where its value is on top. -/
theorem compileIf_leaves (hc : Compiles h) {d : Datum} (hv : Valid (view s))
    (hrun : compileIf h d s = .ok u t) : Leaves (view s) (view t) := by
  obtain ⟨⟨test, whenTrue, whenFalse⟩, s₁, h₁, hrun⟩ := State.ok_of_bind hrun
  obtain ⟨-, rfl⟩ := ofExcept_ok h₁
  obtain ⟨⟨⟩, s₁, h₁, hrun⟩ := State.ok_of_bind hrun
  obtain ⟨w, g₁, hw⟩ := (Grown.ofValid hv).compilePart hc h₁
  obtain ⟨dead, s₂, h₂, hrun⟩ := State.ok_of_bind hrun
  obtain ⟨rfl, rfl⟩ := isUnreachable_run g₁ h₂
  split at hrun
  · rename_i hdead
    cases hrun
    exact .of_dead g₁ (reach_of_dead hdead)
  rename_i hlive
  rw [Bool.not_eq_true] at hlive
  obtain ⟨⟨⟩, s₂, h₂, hrun⟩ := State.ok_of_bind hrun
  obtain ⟨g₂, hlive₂⟩ := g₁.emitTest hw.top hlive h₂
  obtain ⟨otherwise, s₃, h₃, hrun⟩ := State.ok_of_bind hrun
  obtain ⟨last, s₄, h₄, hrun⟩ := State.ok_of_bind hrun
  obtain ⟨⟨⟩, s₅, h₅, hrun⟩ := State.ok_of_bind hrun
  obtain ⟨stack, s₆, h₆, hrun⟩ := State.ok_of_bind hrun
  obtain ⟨rfl, rfl, -⟩ := stack_ok h₆
  obtain ⟨⟨⟩, s₆, h₆, hrun⟩ := State.ok_of_bind hrun
  obtain ⟨first, s₇, h₇, hrun⟩ := State.ok_of_bind hrun
  obtain ⟨⟨⟩, s₈, h₈, hrun⟩ := State.ok_of_bind hrun
  obtain ⟨⟨⟩, s₉, h₉, hrun⟩ := State.ok_of_bind hrun
  obtain ⟨second, s₁₀, h₁₀, hrun⟩ := State.ok_of_bind hrun
  obtain ⟨⟨⟩, s₁₁, h₁₁, hrun⟩ := State.ok_of_bind hrun
  obtain ⟨joined, s₁₂, h₁₂, hrun⟩ := State.ok_of_bind hrun
  -- the whole run is known, and with it the type that the arms will agree on
  let T := terms (view s)
  let Q := T.branching [otherwise] joined last [first, second]
  have g₂' : Grown (Q [] []) (view s) 1 (view s₂) := (Nat.zero_add 1 ▸ g₂).given _
  obtain ⟨hotherwise, g₃, hs₃, hlabels₃⟩ := g₂'.freshLabel h₃
  obtain ⟨hlast, g₄, hs₄, -⟩ := g₃.freshLabel h₄
  have g₄ : Grown ((Q [last, otherwise] []).await [last, otherwise]) (view s) 1 (view s₄) := g₄
  have g₅ : Grown ((Q [last, otherwise] []).await [last, otherwise]) (view s) 0 (view s₅) := by
    refine g₄.emit h₅ rfl (Nat.le_refl _) (by simp [Instruction.slot?]) ?_
    intro p hp l hl
    obtain rfl := List.mem_singleton.1 hl
    exact hp.2.starts_eq l (List.mem_singleton_self l)
  have hlive₅ : (view s₅).stack.isUnreachable = false := by
    refine live_emit h₅ rfl ?_
    rw [hs₄, hs₃]
    exact hlive₂
  have hbase : Ground (view s).widths (view s) (view s₅).stack.records := g₅.ground hlive₅
  have htail : ∀ {s' : FormState} {q : List Label} {hs : List Hole},
      Grown ((Q [last, otherwise] hs).await q) (view s) 0 (view s') →
      ∀ p, ((Q [last, otherwise] hs).await q).holds p → TailOk p (view s') :=
    fun g p hp => g.tailOk rfl g.tail g.loops hp.1
  obtain ⟨g₇, hdead₇, hclosed₇⟩ := g₅.arm ((State.bind_of_ok h₆).trans h₇)
    (fun _ _ hrun => by
      obtain ⟨w, g, hp⟩ := hc g₅.valid hrun
      exact ⟨w, g, hp.top⟩)
    (htail g₅) (fun p hp => hp.2.joins first (by simp))
  have g₇ : Grown ((Q [last, otherwise] [first.hole]).await [last, otherwise]) (view s) 0 (view s₇) := g₇
  have hle : ∀ l ∈ [last, otherwise], (view s).code.labels ≤ l := by
    have hle₂ := g₂.since.labels_le
    have hle₃ := g₃.since.labels_le
    simp only [List.mem_cons, List.not_mem_nil, or_false]
    rintro l (rfl | rfl)
    · exact hlast ▸ hle₃
    · exact hotherwise ▸ hle₂
  have hne : last ≠ otherwise := by
    rw [hlast, hlabels₃]
    exact Nat.succ_ne_self _
  obtain ⟨g₈, -, hclosed₈⟩ := g₇.startAt (q := [last]) hbase h₈ (by simp [Terms.await])
    (hle _ (by simp)) (by simpa [Terms.await] using hne) (.inl hdead₇)
    (fun p hp => hp.2.starts_eq otherwise (List.mem_singleton_self _))
  have g₈ : Grown ((Q [last, otherwise] [first.hole]).await [last]) (view s) 0 (view s₈) := g₈
  obtain ⟨g₁₀, hdead₁₀, hclosed₁₀⟩ := g₈.arm ((State.bind_of_ok h₉).trans h₁₀)
    (fun _ _ => compileOptional_grown hc g₈.valid) (htail g₈) (fun p hp => hp.2.joins second (by simp))
  have hclosed : Closed (view s) (view s₁₀) [first, second] := by
    have hclosed₅ := (Closed.ofSince g₅.since).append hclosed₇
    exact hclosed₅.append (hclosed₈.append hclosed₁₀)
  have g₁₀ : Grown ((Q [last, otherwise] [second.hole, first.hole]).await [last]) (view s) 0 (view s₁₀) :=
    g₁₀
  exact leaves_join g₁₀ hdead₁₀ hbase hclosed
    hle (by simp) (by simp) (by simpa using hne) (by simp [or_comm]) (modifyCode_ok h₁₁) h₁₂ hrun

end If

/-! ### The switch of a case -/

section Switch

variable {T : Terms} {v₀ : View} {k temp : Nat} {s t : FormState} {u : Unit} {base : List StackRecord}

/-- A key is compared with the value in a slot; if they differ, the stack is as it was. -/
theorem Grown.emitKeyTest {dispatch : Label} {key : CaseKey} (g : Grown T v₀ 0 (view s))
    (hbase : Ground T.base v₀ base) (htemp : temp < v₀.code.nextSlot)
    (hdispatch : ∀ p, T.holds p → p.depthOf dispatch = some (T.base.sum + 2))
    (hrun : emitKeyTest base temp dispatch key s = .ok u t) :
    Grown T v₀ 0 (view t) := by
  obtain ⟨next, s₁, h₁, hrun⟩ := State.ok_of_bind hrun
  obtain ⟨rfl, hview₁⟩ := onCode_ok h₁
  have g₁ := g.newLabel (some T.base.sum)
  rw [← hview₁] at g₁
  obtain ⟨⟨⟩, s₂, h₂, hrun⟩ := State.ok_of_bind hrun
  obtain ⟨g₂, -, -⟩ := g₁.load (Nat.lt_of_lt_of_le htemp g₁.since.slots_le) h₂
  obtain ⟨⟨⟩, s₃, h₃, hrun⟩ := State.ok_of_bind hrun
  obtain ⟨g₃, hp₃⟩ := g₂.emitValue h₃ rfl (by simp [Instruction.slot?]) rfl
  obtain ⟨⟨⟩, s₄, h₄, hrun⟩ := State.ok_of_bind hrun
  obtain ⟨g₄, -⟩ := g₃.emitAll (toBoxed_conversion _) (fun _ => hp₃.top) h₄
  obtain ⟨⟨⟩, s₅, h₅, hrun⟩ := State.ok_of_bind hrun
  obtain ⟨g₅, -⟩ := g₄.emitResult h₅ rfl (Nat.le_refl _) (by simp [Instruction.slot?]) rfl
  obtain ⟨⟨⟩, s₆, h₆, hrun⟩ := State.ok_of_bind hrun
  have g₆ := g₅.emit h₆ rfl (Nat.le_refl _) (by simp [Instruction.slot?]) (by
    intro p hp l hl
    obtain rfl := List.mem_singleton.1 hl
    exact hp.2)
  obtain ⟨⟨⟩, s₇, h₇, hrun⟩ := State.ok_of_bind hrun
  obtain ⟨g₇, -⟩ := g₆.emitValue h₇ rfl (by simp [Instruction.slot?]) rfl
  obtain ⟨⟨⟩, s₈, h₈, hrun⟩ := State.ok_of_bind hrun
  have g₈ := g₇.goto (j := 0) h₈ (fun _ p hp => hdispatch p hp.1)
  obtain ⟨g₉, -, -⟩ := g₈.startAt (q := T.pending) hbase hrun (List.mem_cons_self ..) g.since.labels_le
    (fun l hl => ⟨List.mem_cons_of_mem _ hl, Nat.ne_of_lt (g.pending_lt l hl)⟩)
    (.inl (reach_emit_ends h₈ rfl)) (fun p hp => hp.2)
  exact g₉.close g.since.labels_le fun hmem => Nat.lt_irrefl _ (g.labels_lt _ hmem)

theorem Grown.emitKeyTests {dispatch : Label} {keys : List CaseKey} (g : Grown T v₀ 0 (view s))
    (hbase : Ground T.base v₀ base) (htemp : temp < v₀.code.nextSlot)
    (hdispatch : ∀ p, T.holds p → p.depthOf dispatch = some (T.base.sum + 2))
    (hrun : keys.forM (Form.emitKeyTest base temp dispatch) s = .ok u t) : Grown T v₀ 0 (view t) := by
  induction keys generalizing s with
  | nil =>
      cases hrun
      exact g
  | cons key rest ih =>
      obtain ⟨⟨⟩, s₁, h₁, hrun⟩ := State.ok_of_bind hrun
      exact ih (g.emitKeyTest hbase htemp hdispatch h₁) hrun

/-- The buckets of a switch, each at its label. -/
theorem Grown.emitBuckets {dispatch fallback : Label} {buckets : List (Bucket × Label)} {rest : List Label}
    (g : Grown (T.await (buckets.map Prod.snd ++ rest)) v₀ 0 (view s)) (hdead : (view s).reach = none)
    (hbase : Ground T.base v₀ base) (htemp : temp < v₀.code.nextSlot)
    (hnodup : (buckets.map Prod.snd ++ rest).Nodup)
    (hfresh : ∀ q ∈ buckets, v₀.code.labels ≤ q.2)
    (hdepth : ∀ p, T.holds p → ∀ q ∈ buckets, p.depthOf q.2 = some T.base.sum)
    (hdispatch : ∀ p, T.holds p → p.depthOf dispatch = some (T.base.sum + 2))
    (hfallback : ∀ p, T.holds p → p.depthOf fallback = some T.base.sum)
    (hrun : (buckets.forM fun (b, l) => emitBucket base temp dispatch fallback b l) s = .ok u t) :
    Grown (T.await rest) v₀ 0 (view t) ∧ (view t).reach = none := by
  induction buckets generalizing s with
  | nil =>
      cases hrun
      exact ⟨g, hdead⟩
  | cons q buckets ih =>
      obtain ⟨b, l⟩ := q
      rw [List.map_cons, List.cons_append, List.nodup_cons] at hnodup
      obtain ⟨⟨⟩, s₁, h₁, hrun⟩ := State.ok_of_bind hrun
      obtain ⟨⟨⟩, s₂, h₂, h₁⟩ := State.ok_of_bind h₁
      obtain ⟨g₂, -, -⟩ := g.startAt (q := buckets.map Prod.snd ++ rest) hbase h₂ (by simp [Terms.await])
        (hfresh _ (List.mem_cons_self ..))
        (fun l' hl' => ⟨List.mem_cons_of_mem _ hl', fun heq => hnodup.1 (heq ▸ hl')⟩) (.inl hdead)
        (fun p hp => hdepth p hp _ (List.mem_cons_self ..))
      obtain ⟨⟨⟩, s₃, h₃, h₁⟩ := State.ok_of_bind h₁
      have g₃ := g₂.emitKeyTests hbase htemp hdispatch h₃
      have g₁ := g₃.goto (j := 0) h₁ fun _ p hp => hfallback p hp
      exact ih g₁ (reach_emit_ends h₁ rfl) hnodup.2 (fun q hq => hfresh q (List.mem_cons_of_mem _ hq))
        (fun p hp q hq => hdepth p hp q (List.mem_cons_of_mem _ hq)) hrun

/-- A switch takes control to the label of a branch, or to the fallback. -/
theorem Grown.emitSwitch {fallback : Label} {branches : List Label} {keys : List CaseKey}
    (g : Grown T v₀ 0 (view s)) (hbase : Ground T.base v₀ base) (htemp : temp < v₀.code.nextSlot)
    (hpending : T.pending.Nodup)
    (hbranches : ∀ p, T.holds p → ∀ l ∈ branches, p.depthOf l = some T.base.sum)
    (hfallback : ∀ p, T.holds p → p.depthOf fallback = some T.base.sum)
    (hrun : emitSwitch base temp fallback branches keys s = .ok u t) :
    Grown T v₀ 0 (view t) ∧ ((view t).reach = none ∨ view t = view s) := by
  unfold Form.emitSwitch at hrun
  split at hrun
  · cases hrun
    exact ⟨g, .inr rfl⟩
  obtain ⟨labels, s₁, h₁, hrun⟩ := State.ok_of_bind hrun
  obtain ⟨dispatch, s₂, h₂, hrun⟩ := State.ok_of_bind hrun
  -- the buckets start at the depth of the form, with the number of the branch on top at `dispatch`
  let Q := T.owing fun p =>
    (∀ l ∈ labels, p.depthOf l = some T.base.sum) ∧ p.depthOf dispatch = some (T.base.sum + 2)
  have g₀ : Grown (Q [] []) v₀ 0 (view s) := g.given _
  obtain ⟨g₁, -, hlength, hnodup, hlabels, hgrows⟩ := g₀.freshLabels h₁
  obtain ⟨hdispatch, g₂, -, -⟩ := g₁.freshLabel h₂
  have g₂ : Grown ((Q (dispatch :: labels.reverse) []).await (dispatch :: (labels.reverse ++ T.pending)))
      v₀ 0 (view s₂) := g₂
  have hlt : ∀ l ∈ labels, l < dispatch := by
    intro l hl
    rw [hdispatch]
    exact g₁.labels_lt l (List.mem_append_left _ (List.mem_reverse.2 hl))
  have hnew : ∀ l ∈ dispatch :: labels.reverse, (view s).code.labels ≤ l := by
    intro l hl
    rcases List.mem_cons.1 hl with rfl | hl
    · exact hdispatch ▸ hgrows
    · exact hlabels l (List.mem_reverse.1 hl)
  have hown : (labels ++ dispatch :: T.pending).Nodup := by
    have hdisjoint : ∀ l ∈ labels, ∀ l' ∈ dispatch :: T.pending, l ≠ l' := by
      intro l hl l' hl'
      rcases List.mem_cons.1 hl' with rfl | hl'
      · exact Nat.ne_of_lt (hlt l hl)
      · exact Nat.ne_of_gt (Nat.lt_of_lt_of_le (g.pending_lt l' hl') (hlabels l hl))
    refine List.nodup_append.2 ⟨hnodup, List.nodup_cons.2 ⟨fun hmem => ?_, hpending⟩, hdisjoint⟩
    exact Nat.not_lt.2 (hnew dispatch (List.mem_cons_self ..)) (g.pending_lt dispatch hmem)
  obtain ⟨⟨⟩, s₃, h₃, hrun⟩ := State.ok_of_bind hrun
  obtain ⟨g₃, -, -⟩ := g₂.load (Nat.lt_of_lt_of_le htemp g₂.since.slots_le) h₃
  obtain ⟨⟨⟩, s₄, h₄, hrun⟩ := State.ok_of_bind hrun
  obtain ⟨g₄, -⟩ := g₃.emitResult h₄ rfl (Nat.le_refl _) (by simp [Instruction.slot?]) rfl
  obtain ⟨⟨⟩, s₅, h₅, hrun⟩ := State.ok_of_bind hrun
  have g₅ := g₄.emit h₅ rfl (Nat.le_refl _) (by simp [Instruction.slot?]) (by
    intro p hp l hl
    rcases List.mem_append.1 hl with hl | hl
    · exact hp.2.1 l hl
    · obtain rfl := List.mem_singleton.1 hl
      exact hfallback p hp.1)
  obtain ⟨⟨⟩, s₆, h₆, hrun⟩ := State.ok_of_bind hrun
  have hzip : ((bucketsOf keys).zip labels).map Prod.snd = labels :=
    List.map_snd_zip (Nat.le_of_eq hlength)
  have g₅ : Grown ((Q (dispatch :: labels.reverse) []).await
      (((bucketsOf keys).zip labels).map Prod.snd ++ dispatch :: T.pending)) v₀ 0 (view s₅) := by
    refine g₅.awaiting ?_
    rw [hzip]
    intro l hl
    simpa [Terms.await, or_left_comm] using hl
  obtain ⟨g₆, hdead₆⟩ := g₅.emitBuckets (reach_emit_ends h₅ rfl) hbase htemp (by rwa [hzip])
    (fun q hq => Nat.le_trans g.since.labels_le (hlabels _ (List.of_mem_zip hq).2))
    (fun p hp q hq => hp.2.1 _ (List.of_mem_zip hq).2) (fun p hp => hp.2.2) (fun p hp => hfallback p hp.1)
    h₆
  obtain ⟨⟨⟩, s₇, h₇, hrun⟩ := State.ok_of_bind hrun
  obtain ⟨⟨⟩, s₈, h₈, hrun⟩ := State.ok_of_bind hrun
  have hview₈ : view s₈ = (view s₆).labelled dispatch (settledStack (view s₆).stack base (some .long)) := by
    rw [modifyCode_ok h₈, modifyStack_ok h₇]
    rfl
  have hover := hbase.based.cons (w := 2)
  have g₈ := g₆.place (l := dispatch) (settledStack (view s₆).stack base (some .long))
    (q := T.pending) (j := 2) (List.mem_cons_self ..)
    (Nat.le_trans g.since.labels_le (hnew dispatch (List.mem_cons_self ..)))
    (fun l hl => ⟨List.mem_cons_of_mem _ hl, fun heq =>
      (List.nodup_cons.1 (List.nodup_append.1 hown).2.1).1 (heq ▸ hl)⟩)
    hbase.steady_settled max_le_settledStack (.inr hover) (fun hdead => absurd hdead hbase.start)
    (.inl hdead₆) (fun p hp => hp.2.2.trans (hbase.reach_settled _ (some .long)).symm)
  rw [← hview₈] at g₈
  have g₉ : Grown (Q (dispatch :: labels.reverse) []) v₀ 0 (view t) := by
    refine g₈.emit hrun rfl (Nat.le_refl _) (by simp [Instruction.slot?]) ?_
    intro p hp l hl
    rcases List.mem_append.1 hl with hl | hl
    · exact hbranches p hp.1 l hl
    · obtain rfl := List.mem_singleton.1 hl
      exact hfallback p hp.1
  refine ⟨?_, .inl (reach_emit_ends hrun rfl)⟩
  refine g₉.discharge (fun l => if l = dispatch then some (T.base.sum + 2) else some T.base.sum)
    (fun l hl => Nat.le_trans g.since.labels_le (hnew l hl))
    (fun l hl hmem => Nat.not_lt.2 (hnew l hl) (g.labels_lt l hmem)) ?_
  intro p _ hdepths
  refine ⟨?_, ?_⟩
  · intro l hl
    rw [hdepths l (List.mem_cons_of_mem _ (List.mem_reverse.2 hl)), if_neg (Nat.ne_of_lt (hlt l hl))]
  · rw [hdepths dispatch (List.mem_cons_self ..), if_pos rfl]

end Switch

/-! ### The branches of a case -/

section Arm

variable {h : Handlers} {s t : FormState} {u : Unit} {arm : Arm} {l last : Label} {base : List StackRecord}

theorem startAt_items (hbase : base.contains .unreachable = false) (hrun : startAt base l s = .ok u t) :
    (view t).code.items.toList = (view s).code.items.toList ++ [Item.label l] ∧
      (view t).stack.isUnreachable = false := by
  obtain ⟨⟨⟩, s₁, h₁, hrun⟩ := State.ok_of_bind hrun
  have hview₁ := modifyStack_ok h₁
  refine ⟨?_, ?_⟩
  · rw [items_place hrun, hview₁]
    rfl
  · rw [modifyCode_ok hrun, hview₁]
    exact hbase

theorem startAt_holes (hrun : startAt base l s = .ok u t) : (view t).code.holes = (view s).code.holes := by
  obtain ⟨⟨⟩, s₁, h₁, hrun⟩ := State.ok_of_bind hrun
  rw [modifyCode_ok hrun, modifyStack_ok h₁]
  rfl

theorem closeArm_items (hrun : closeArm last s = .ok arm t) :
    arm.hole = (view s).code.holes.size ∧ (view t).code.holes = (view s).code.holes.push [] ∧
      ∃ xs, (view t).code.items.toList = (view s).code.items.toList ++ Item.hole arm.hole :: xs ∧
        ((view s).stack.isUnreachable = false → xs = [Item.instruction (.goto last)]) := by
  obtain ⟨ty, s₁, h₁, hrun⟩ := State.ok_of_bind hrun
  obtain ⟨rfl, -⟩ := topType_ok h₁
  obtain ⟨hole, s₂, h₂, hrun⟩ := State.ok_of_bind hrun
  obtain ⟨rfl, hview₂⟩ := onCode_ok h₂
  obtain ⟨⟨⟩, s₃, h₃, hrun⟩ := State.ok_of_bind hrun
  cases hrun
  have hitems₂ : (view s₂).code.items.toList
      = (view s).code.items.toList ++ [Item.hole (view s).code.holes.size] := by
    simp [hview₂, CodeBuffer.hole]
  have hholes₂ : (view s₂).code.holes = (view s).code.holes.push [] := by
    rw [hview₂]
    rfl
  rcases emit_ok h₃ with ⟨hdead, hview₃⟩ | ⟨hlive, e, stack, -, -, hview₃⟩
  · refine ⟨rfl, by rw [hview₃, hholes₂], [], by rw [hview₃, hitems₂]; rfl, fun hlive => ?_⟩
    rw [hview₂] at hdead
    cases hlive.symm.trans hdead
  · refine ⟨rfl, by rw [hview₃]; exact hholes₂, _, ?_, fun _ => rfl⟩
    rw [items_emit h₃ hlive, hitems₂, List.append_assoc]
    rfl

/-- A branch of a case, from its label to its end, in front of other code; the holes of the arms are none of
those in it. -/
structure BranchIn (h : Handlers) (body : Datum) (l : Label) (arms : List Arm) (first last : FormState)
    (w : View) : Prop where
  label : ∃ front, (view first).code.items.toList = front ++ [Item.label l]
  compiled : h.compile body first = .ok () last
  grows : (view first).code.items.toList <+: (view last).code.items.toList
  ahead : (view last).code.items.toList <+: w.code.items.toList
  size_le : (view last).code.holes.size ≤ w.code.holes.size
  kept : ∀ i < (view last).code.holes.size, w.code.holes[i]? = (view last).code.holes[i]?
  apart : ∀ arm ∈ arms, arm.hole < (view first).code.holes.size ∨ (view last).code.holes.size ≤ arm.hole
  advances : LoopsMade (view first) → ∀ b, Contains b (view first) (view last) → Ahead w b →
    positionIn b (view first) < positionIn b w

theorem BranchIn.extend {body : Datum} {l : Label} {arms arms' : List Arm} {first last : FormState} {v w : View}
    (hin : BranchIn h body l arms first last v) (hitems : v.code.items.toList <+: w.code.items.toList)
    (hclosed : Closed v w arms') : BranchIn h body l (arms ++ arms') first last w where
  label := hin.label
  compiled := hin.compiled
  grows := hin.grows
  ahead := hin.ahead.trans hitems
  size_le := Nat.le_trans hin.size_le hclosed.size_le
  kept := fun i hi => (hclosed.kept i (Nat.lt_of_lt_of_le hi hin.size_le)).trans (hin.kept i hi)
  apart := by
    intro arm harm
    rcases List.mem_append.mp harm with harm | harm
    · exact hin.apart arm harm
    · exact .inr (Nat.le_trans hin.size_le (hclosed.le arm harm))
  advances := by
    intro hloops b hb hahead
    obtain ⟨xs, hxs⟩ := hitems
    have hlt := hin.advances hloops b hb (hahead.of_append hxs.symm)
    exact Nat.lt_of_lt_of_le hlt (Ahead.positionIn_le hxs.symm b)

/-- When all arms are joined, a branch is still as it was. -/
theorem BranchIn.contained {body : Datum} {l : Label} {arms : List Arm} {first last : FormState} {v₀ v w : View}
    {b : CodeBuffer} (hin : BranchIn h body l arms first last v) (hsince : Since v₀ (view first))
    (hitems : v.code.items.toList <+: w.code.items.toList)
    (hholes : ∀ i, i ∉ arms.map Arm.hole → w.code.holes[i]? = v.code.holes[i]?) (hb : Contains b v₀ w) :
    Contains b (view first) (view last) where
  ahead := (hin.ahead.trans hitems).trans hb.ahead
  filled := by
    intro i hfirst hlast
    have hapart : i ∉ arms.map Arm.hole := by
      intro hmem
      obtain ⟨arm, harm, rfl⟩ := List.mem_map.1 hmem
      rcases hin.apart arm harm with hlt | hle
      · exact Nat.not_lt.2 hfirst hlt
      · exact Nat.not_lt.2 hle hlast
    have hsame := (hholes i hapart).trans (hin.kept i hlast)
    have hlt : i < w.code.holes.size := by
      rw [Array.getElem?_eq_getElem hlast] at hsame
      exact (Array.getElem?_eq_some_iff.1 hsame).1
    exact (hb.filled i (Nat.le_trans hsince.holes_le hfirst) hlt).trans hsame

theorem branchIn_of_run (hc : Compiles h) {body : Datum} {l : Label} {s₁ : FormState}
    (hbase : base.contains .unreachable = false) (hstart : startAt base l s = .ok () s₁) (hv : Valid (view s₁))
    (hrun : (h.compile body >>= fun _ => closeArm last) s₁ = .ok arm t) :
    (view s).code.items.toList <+: (view t).code.items.toList ∧ ∃ e, BranchIn h body l [arm] s₁ e (view t) := by
  obtain ⟨hlabel, hlive⟩ := startAt_items hbase hstart
  obtain ⟨⟨⟩, e, hcompile, hrun⟩ := State.ok_of_bind hrun
  obtain ⟨w, g, -⟩ := hc hv hcompile
  obtain ⟨hhole, hholes, xs, hitems, hgoto⟩ := closeArm_items hrun
  have hkept : (view s).code.items.toList <+: (view e).code.items.toList :=
    (hlabel ▸ List.prefix_append _ _).trans g.since.items
  refine ⟨hkept.trans (hitems ▸ List.prefix_append _ _), e, ⟨_, hlabel⟩, hcompile,
    g.since.items, hitems ▸ List.prefix_append _ _, ?_, ?_, ?_, ?_⟩
  · rw [hholes, Array.size_push]
    exact Nat.le_succ _
  · intro i hi
    rw [hholes, Array.getElem?_push, if_neg (Nat.ne_of_lt hi)]
  · intro arm' harm
    obtain rfl := List.mem_singleton.mp harm
    exact .inr (Nat.le_of_eq hhole.symm)
  · intro hloops b hb hahead
    have hle := Ahead.positionIn_le hitems b
    cases hend : (view e).stack.isUnreachable with
    | true => exact Nat.lt_of_lt_of_le (g.advances hv hloops hb hlive (reach_of_dead hend)) hle
    | false =>
      obtain ⟨seg, hseg⟩ := g.since.items
      have hfirst := Ahead.positionIn_le hseg.symm b
      have hone : positionIn b (view t)
          = positionIn b (view e) + (flat (.ofBuffer b) (.hole arm.hole :: [.instruction (.goto last)])).length := by
        rw [positionIn, hitems, hgoto hend, place_append]
        rfl
      simp only [flat, expand_hole, expand_instruction, expand_nil, instructionsOf_append, List.length_append,
        instructionsOf_instruction, instructionsOf_nil, List.length_cons, List.length_nil] at hone
      omega

end Arm

section Case

variable {T : Terms} {v₀ : View} {k temp : Nat} {s t : FormState} {u : Unit} {h : Handlers}
  {base : List StackRecord}

/-- A branch at its label. -/
theorem Grown.compileBranch (hc : Compiles h) {body : Datum} {l last : Label} {rest : List Label} {arm : Arm}
    {joined : Option Ty} (g : Grown (T.await (l :: rest)) v₀ 0 (view s))
    (hin : (view s).reach = none ∨ (view s).reach = some T.base.sum) (hbase : Ground T.base v₀ base)
    (hnew : l ∉ rest) (hfresh : v₀.code.labels ≤ l) (hstart : ∀ p, T.holds p → p.depthOf l = some T.base.sum)
    (htail : ∀ v, v.reach = some T.base.sum → v.tail = T.tail → v.loops = T.loops →
      ∀ p, T.holds p → TailOk p v)
    (hrun : compileBranch h base last body l s = .ok arm t)
    (hjoins : ∀ p, T.holds p → Joins p T.base.sum joined last arm) :
    ∃ s₁, Form.startAt base l s = .ok () s₁ ∧ Grown (T.await rest) v₀ 0 (view s₁) ∧
      (h.compile body >>= fun _ => Form.closeArm last) s₁ = .ok arm t ∧
      Grown ((T.hollow arm.hole).await rest) v₀ 0 (view t) ∧ (view t).reach = none ∧
      Closed (view s) (view t) [arm] := by
  obtain ⟨⟨⟩, s₁, h₁, hrun⟩ := State.ok_of_bind hrun
  obtain ⟨g₁, hreach₁, hclosed₁⟩ := g.startAt (q := rest) hbase h₁ (by simp [Terms.await]) hfresh
    (fun l' hl' => ⟨List.mem_cons_of_mem _ hl', fun heq => hnew (heq ▸ hl')⟩) hin hstart
  obtain ⟨g₂, hdead, hclosed⟩ := g₁.arm hrun
    (fun _ _ hrun => by
      obtain ⟨w, g, hp⟩ := hc g₁.valid hrun
      exact ⟨w, g, hp.top⟩)
    (htail _ hreach₁ g₁.tail g₁.loops) hjoins
  exact ⟨s₁, h₁, g₁, hrun, g₂, hdead, hclosed₁.append hclosed⟩

/-- Branches one after the other, each at its label and in front of what follows on all of them. -/
theorem Grown.compileBranches (hc : Compiles h) {bodies : List (Datum × Label)} {rest : List Label}
    {last : Label} {arms : List Arm} {joined : Option Ty}
    (g : Grown (T.await (bodies.map Prod.snd ++ rest)) v₀ 0 (view s))
    (hin : (view s).reach = none ∨ (view s).reach = some T.base.sum) (hbase : Ground T.base v₀ base)
    (hnodup : (bodies.map Prod.snd ++ rest).Nodup) (hfresh : ∀ q ∈ bodies, v₀.code.labels ≤ q.2)
    (hstarts : ∀ p, T.holds p → ∀ q ∈ bodies, p.depthOf q.2 = some T.base.sum)
    (htail : ∀ v, v.reach = some T.base.sum → v.tail = T.tail → v.loops = T.loops →
      ∀ p, T.holds p → TailOk p v)
    (hrun : (bodies.mapM fun (body, l) => Form.compileBranch h base last body l) s = .ok arms t)
    (hjoins : ∀ p, T.holds p → ∀ arm ∈ arms, Joins p T.base.sum joined last arm) :
    Grown ((T.hollowAll (arms.map Arm.hole)).await rest) v₀ 0 (view t) ∧
      ((view t).reach = none ∨ (view t).reach = some T.base.sum) ∧ Closed (view s) (view t) arms ∧
      (view s).code.items.toList <+: (view t).code.items.toList ∧
      ∀ (n : Nat) (q : Datum × Label), bodies[n]? = some q → ∃ first e, BranchIn h q.1 q.2 arms first e (view t) ∧
        Since v₀ (view first) ∧ (view first).loops = T.loops ∧
        (view s).code.items.toList <+: (view first).code.items.toList ∧
        (view s).code.holes.size ≤ (view first).code.holes.size := by
  induction bodies generalizing T s arms with
  | nil =>
      cases hrun
      exact ⟨g, hin, .ofHoles rfl, List.prefix_refl _, by simp⟩
  | cons q bodies ih =>
      obtain ⟨body, l⟩ := q
      rw [List.map_cons, List.cons_append, List.nodup_cons] at hnodup
      rw [List.mapM_cons] at hrun
      obtain ⟨arm, s₁, h₁, hrun⟩ := State.ok_of_bind hrun
      obtain ⟨arms, s₂, h₂, hrun⟩ := State.ok_of_bind hrun
      cases hrun
      obtain ⟨s', hstart, g', hrun', g₁, hdead₁, hclosed₁⟩ := g.compileBranch hc hin hbase hnodup.1
        (hfresh _ (List.mem_cons_self ..)) (fun p hp => hstarts p hp _ (List.mem_cons_self ..)) htail h₁
        (fun p hp => hjoins p hp arm (List.mem_cons_self ..))
      obtain ⟨hkept, e, hbranch⟩ := branchIn_of_run hc hbase.live hstart g'.valid hrun'
      obtain ⟨g₂, hin₂, hclosed₂, hkept₂, hbranches⟩ := ih g₁ (.inl hdead₁) hbase hnodup.2
        (fun q hq => hfresh q (List.mem_cons_of_mem _ hq))
        (fun p hp q hq => hstarts p hp q (List.mem_cons_of_mem _ hq)) htail h₂
        (fun p hp arm harm => hjoins p hp arm (List.mem_cons_of_mem _ harm))
      refine ⟨g₂.reopen ?_, hin₂, hclosed₁.append hclosed₂, hkept.trans hkept₂, fun n q hq => ?_⟩
      · intro i hi
        simpa [Terms.hollowAll, Terms.hollow, Terms.await, or_left_comm] using hi
      · cases n with
        | zero =>
            obtain rfl := Option.some.inj hq
            refine ⟨s', e, hbranch.extend hkept₂ hclosed₂, g'.since, g'.loops, ?_, ?_⟩
            · exact (startAt_items hbase.live hstart).1 ▸ List.prefix_append _ _
            · exact Nat.le_of_eq (congrArg Array.size (startAt_holes hstart).symm)
        | succ n =>
            obtain ⟨first, e', hbranch', hsince, hloops, hfirst, hsize⟩ := hbranches n q hq
            -- the hole of the first arm was there before this branch
            have hapart : ∀ arm' ∈ arm :: arms, arm'.hole < (view first).code.holes.size ∨
                (view e').code.holes.size ≤ arm'.hole :=
              List.forall_mem_cons.mpr
                ⟨.inl (Nat.lt_of_lt_of_le (hclosed₁.lt (List.mem_singleton_self _)) hsize), hbranch'.apart⟩
            exact ⟨first, e', { hbranch' with apart := hapart }, hsince, hloops, hkept.trans hfirst,
              Nat.le_trans hclosed₁.size_le hsize⟩

/-- Where no clause matches, an exception is thrown. -/
theorem emitNoMatch_grown {span : Span} (hv : Valid (view s)) (htemp : temp < (view s).code.nextSlot)
    (hrun : emitNoMatch temp span s = .ok u t) :
    Grown (terms (view s)) (view s) 0 (view t) ∧ (view t).reach = none := by
  obtain ⟨⟨⟩, s₁, h₁, hrun⟩ := State.ok_of_bind hrun
  obtain ⟨g₁, -⟩ := (Grown.ofValid hv).emitConstant h₁
  obtain ⟨⟨⟩, s₂, h₂, hrun⟩ := State.ok_of_bind hrun
  obtain ⟨g₂, -, -⟩ := g₁.load (Nat.lt_of_lt_of_le htemp g₁.since.slots_le) h₂
  obtain ⟨⟨⟩, s₃, h₃, hrun⟩ := State.ok_of_bind hrun
  obtain ⟨g₃, -⟩ := g₂.emitCall h₃ (Nat.le_refl _)
  obtain ⟨⟨⟩, s₄, h₄, hrun⟩ := State.ok_of_bind hrun
  obtain ⟨g₄, -⟩ := g₃.emitResult h₄ rfl (Nat.le_refl _) (by simp [Instruction.slot?]) rfl
  exact ⟨g₄.emitDrop hrun rfl (Nat.le_refl _) (by simp [Instruction.slot?]) rfl, reach_emit_ends hrun rfl⟩

theorem compileFallback_grown (hc : Compiles h) {span : Span} {d : Option Datum} (hv : Valid (view s))
    (htemp : temp < (view s).code.nextSlot) (hrun : compileFallback h temp span d s = .ok u t) :
    ∃ w, Grown (terms (view s)) (view s) w (view t) ∧ Top w (view t) := by
  cases d with
  | none =>
      obtain ⟨g, hdead⟩ := emitNoMatch_grown hv htemp hrun
      exact ⟨0, g, .inl hdead⟩
  | some d =>
      obtain ⟨w, g, hp⟩ := hc hv hrun
      exact ⟨w, g, hp.top⟩

/-- A slot that is given back behind a label may as well be free in front of it. -/
theorem place_freeSlot (b : CodeBuffer) (l : Label) (n : Nat) :
    ∃ slots log, (b.place l).freeSlot n = ({ b with freeSlots := slots, transfers := log } : CodeBuffer).place l ∧
      ∀ m ∈ slots, m ∈ b.freeSlots ∨ m = n := by
  obtain ⟨slots, log, heq, hslots⟩ := freeSlot_eq (b.place l) n
  exact ⟨slots, log, heq, hslots⟩

/-- A branch in tail position is met at the depth of the form. -/
theorem tailOk_branch {v w : View} (hlive : v.stack.isUnreachable = false) {p : Blueprint} (hp : TailOk p v)
    (hreach : w.reach = some v.widths.sum) (htail : w.tail = v.tail) (hloops : w.loops = v.loops) :
    TailOk p w := by
  refine hp.transfer htail hloops ?_
  intro x hx
  rw [← hx, hreach]
  exact View.reach_of_live hlive

/-- Behind the switch all branches are still to come, and so are the fallback and the end of all of them. -/
theorem switch_grown {α : Type} {bodies : List α} {fallback last : Label} {branches : List Label}
    {keys : List CaseKey} {s₁ s₂ s₃ : FormState} (hv : Valid (view s))
    (hlive : (view s).stack.isUnreachable = false) (htemp : temp < (view s).code.nextSlot)
    (h₁ : FormM.newLabel s = .ok fallback s₁) (h₂ : FormM.newLabel s₁ = .ok last s₂)
    (h₃ : labelsFor bodies s₂ = .ok branches s₃)
    (hrun : emitSwitch (view s).stack.records temp fallback branches keys s₃ = .ok u t) (joined : Option Ty)
    (arms : List Arm) :
    Grown (((terms (view s)).branching (fallback :: branches) joined last arms
        (branches.reverse ++ [last, fallback]) []).await (branches ++ [last, fallback])) (view s) 0 (view t) ∧
      ((view t).reach = none ∨ (view t).reach = some (view s).widths.sum) ∧
      branches.length = bodies.length ∧ (branches ++ [last, fallback]).Nodup ∧
      ∀ l ∈ branches ++ [last, fallback], (view s).code.labels ≤ l := by
  let T := terms (view s)
  let Q := T.branching (fallback :: branches) joined last arms
  let ls := branches.reverse ++ [last, fallback]
  have hbase : Ground T.base (view s) (view s).stack.records := (Grown.ofValid hv).ground hlive
  have g₀ : Grown (Q [] []) (view s) 0 (view s) := (Grown.ofValid hv).given _
  obtain ⟨hfallback, g₁, hs₁, hlabels₁⟩ := g₀.freshLabel h₁
  obtain ⟨hlast, g₂, hs₂, hlabels₂⟩ := g₁.freshLabel h₂
  obtain ⟨g₃, hs₃, hlength, hnodup, hbranches, -⟩ := g₂.freshLabels h₃
  have g₃ : Grown ((Q ls []).await ls) (view s) 0 (view s₃) := by
    simpa [Q, ls, T, terms, Terms.freshAll, Terms.fresh, Terms.await, Terms.owing] using g₃
  have hfallback : (view s).code.labels = fallback := hfallback.symm
  have hlast : (view s₁).code.labels = last := hlast.symm
  have hle : ∀ l ∈ branches ++ [last, fallback], (view s).code.labels ≤ l := by
    intro l hl
    simp only [List.mem_append, List.mem_cons, List.not_mem_nil, or_false] at hl
    rcases hl with hl | rfl | rfl
    · have hlt := hbranches l hl
      omega
    · omega
    · exact Nat.le_of_eq hfallback
  have hne : last ≠ fallback := by
    rw [← hlast, hlabels₁]
    exact Nat.succ_ne_self _
  have hpending : (branches ++ [last, fallback]).Nodup := by
    refine List.nodup_append.2 ⟨hnodup, by simpa using hne, ?_⟩
    intro l hl l' hl'
    have hlt := hbranches l hl
    simp only [List.mem_cons, List.not_mem_nil, or_false] at hl'
    rcases hl' with rfl | rfl
    · exact Nat.ne_of_gt (by omega)
    · exact Nat.ne_of_gt (by omega)
  have hls : ls.Nodup := ((List.reverse_perm branches).symm.append_right _).nodup hpending
  have hstarts : ∀ p, (Q ls []).holds p → ∀ l ∈ fallback :: branches, p.depthOf l = some T.base.sum :=
    fun p hp => hp.2.starts_eq
  obtain ⟨g₄, hreach₄⟩ := g₃.emitSwitch hbase htemp hls
    (fun p hp l hl => hstarts p hp l (List.mem_cons_of_mem _ hl))
    (fun p hp => hstarts p hp fallback (List.mem_cons_self ..)) hrun
  refine ⟨g₄.awaiting ?_, hreach₄.imp_right fun hview => ?_, hlength, hpending, hle⟩
  · intro l hl
    simpa [ls, Terms.await] using hl
  · rw [hview, View.reach, hs₃, hs₂, hs₁]
    exact View.reach_of_live hlive

/-- From the switch to the end of the fallback, which is the last arm. -/
theorem clauses_grown (hc : Compiles h) {clauses : CaseClauses} {span : Span} {fallback last : Label}
    {branches : List Label} {arms : List Arm} {arm : Arm} {s₁ s₂ s₃ s₄ s₅ s₆ s₇ : FormState}
    (hv : Valid (view s)) (hlive : (view s).stack.isUnreachable = false)
    (htemp : temp < (view s).code.nextSlot)
    (h₁ : FormM.newLabel s = .ok fallback s₁) (h₂ : FormM.newLabel s₁ = .ok last s₂)
    (h₃ : labelsFor clauses.branches s₂ = .ok branches s₃)
    (h₄ : emitSwitch (view s).stack.records temp fallback branches clauses.keys s₃ = .ok () s₄)
    (h₅ : ((clauses.branches.zip branches).mapM fun (body, l) =>
      compileBranch h (view s).stack.records last body l) s₄ = .ok arms s₅)
    (h₆ : startAt (view s).stack.records fallback s₅ = .ok () s₆)
    (h₇ : compileFallback h temp span clauses.fallback s₆ = .ok () s₇)
    (h₈ : closeArm last s₇ = .ok arm t) (joined : Option Ty) :
    Grown (((terms (view s)).branching (fallback :: branches) joined last (arms ++ [arm])
        (branches.reverse ++ [last, fallback]) (arm.hole :: arms.map Arm.hole)).await [last]) (view s) 0 (view t) ∧
      (view t).reach = none ∧ Closed (view s) (view t) (arms ++ [arm]) ∧
      (∀ l ∈ branches ++ [last, fallback], (view s).code.labels ≤ l) ∧ (branches ++ [last, fallback]).Nodup ∧
      branches.length = clauses.branches.length ∧ Closed (view s₅) (view t) [arm] ∧
      (view s₄).code.items.toList <+: (view s₅).code.items.toList ∧
      (view s₆).code.items.toList <+: (view s₇).code.items.toList ∧
      ∀ (n : Nat) (q : Datum × Label), (clauses.branches.zip branches)[n]? = some q →
        ∃ first e, BranchIn h q.1 q.2 arms first e (view s₅) ∧ Since (view s) (view first) ∧
          (view first).loops = (view s).loops ∧
          (view s₄).code.items.toList <+: (view first).code.items.toList := by
  let T := terms (view s)
  let ls := branches.reverse ++ [last, fallback]
  let Q := T.branching (fallback :: branches) joined last (arms ++ [arm]) ls
  obtain ⟨g₄, hin₄, hlength, hpending, hfresh⟩ := switch_grown hv hlive htemp h₁ h₂ h₃ h₄ joined (arms ++ [arm])
  have hbase : Ground T.base (view s) (view s).stack.records := (Grown.ofValid hv).ground hlive
  have hne : last ≠ fallback := by simpa using (List.nodup_append.1 hpending).2.1
  have hstarts : ∀ p, (Q []).holds p → ∀ l ∈ fallback :: branches, p.depthOf l = some T.base.sum :=
    fun p hp => hp.2.starts_eq
  have hzip : (clauses.branches.zip branches).map Prod.snd = branches :=
    List.map_snd_zip (Nat.le_of_eq hlength)
  have htail : ∀ v, v.reach = some T.base.sum → v.tail = T.tail → v.loops = T.loops →
      ∀ p, (Q []).holds p → TailOk p v :=
    fun v hreach htail hloops p hp => tailOk_branch hlive hp.1 hreach htail hloops
  have g₄ : Grown ((Q []).await ((clauses.branches.zip branches).map Prod.snd ++ [last, fallback]))
      (view s) 0 (view s₄) := by
    rw [hzip]
    exact g₄
  obtain ⟨g₅, hin₅, hclosed₅, hkept₅, hbranches⟩ := g₄.compileBranches hc hin₄ hbase (by rwa [hzip])
    (fun q hq => hfresh _ (by simp [(List.of_mem_zip hq).2]))
    (fun p hp q hq => hstarts p hp _ (List.mem_cons_of_mem _ (List.of_mem_zip hq).2)) htail h₅
    (fun p hp arm harm => hp.2.joins arm (List.mem_append_left _ harm))
  have g₅ : Grown ((Q (arms.map Arm.hole)).await [last, fallback]) (view s) 0 (view s₅) := g₅
  obtain ⟨g₆, hreach₆, hclosed₆⟩ := g₅.startAt (q := [last]) hbase h₆ (by simp [Terms.await])
    (hfresh _ (by simp)) (by simpa [Terms.await] using hne) hin₅
    (fun p hp => hstarts p hp fallback (List.mem_cons_self ..))
  have g₆ : Grown ((Q (arms.map Arm.hole)).await [last]) (view s) 0 (view s₆) := g₆
  have hfallback : ∀ {u s'}, compileFallback h temp span clauses.fallback s₆ = .ok u s' →
      ∃ w, Grown (terms (view s₆)) (view s₆) w (view s') ∧ Top w (view s') :=
    compileFallback_grown hc g₆.valid (Nat.lt_of_lt_of_le htemp g₆.since.slots_le)
  obtain ⟨g₈, hdead₈, hclosed₈⟩ := g₆.arm ((State.bind_of_ok h₇).trans h₈) (fun _ _ => hfallback)
    (htail _ hreach₆ g₆.tail g₆.loops)
    (fun p hp => hp.2.joins arm (List.mem_append_right _ (List.mem_singleton_self _)))
  obtain ⟨_, g₇, -⟩ := hfallback h₇
  refine ⟨g₈, hdead₈, ?_, hfresh, hpending, hlength, hclosed₆.append hclosed₈, hkept₅,
    g₇.since.items, ?_⟩
  · exact (Closed.ofSince g₄.since).append (hclosed₅.append (hclosed₆.append hclosed₈))
  · intro n q hq
    obtain ⟨first, e, hbranch, hsince, hloops, hitems, -⟩ := hbranches n q hq
    exact ⟨first, e, hbranch, hsince, hloops, hitems⟩

/-- What follows on the choice of a branch. -/
theorem compileClauses_leaves (hc : Compiles h) {clauses : CaseClauses} {span : Span}
    (hv : Valid (view s)) (hlive : (view s).stack.isUnreachable = false)
    (htemp : temp < (view s).code.nextSlot)
    (hrun : (do
      let fallback ← FormM.newLabel
      let last ← FormM.newLabel
      let branches ← labelsFor clauses.branches
      emitSwitch (view s).stack.records temp fallback branches clauses.keys
      let arms ← (clauses.branches.zip branches).mapM fun (body, l) =>
        compileBranch h (view s).stack.records last body l
      startAt (view s).stack.records fallback
      compileFallback h temp span clauses.fallback
      let arm ← closeArm last
      FormM.place last
      FormM.modifyCode fun c => c.freeSlot temp
      FormM.settle (view s).stack.records (← joinArms (arms ++ [arm]))) s = .ok u t) :
    Leaves (view s) (view t) := by
  obtain ⟨fallback, s₁, h₁, hrun⟩ := State.ok_of_bind hrun
  obtain ⟨last, s₂, h₂, hrun⟩ := State.ok_of_bind hrun
  obtain ⟨branches, s₃, h₃, hrun⟩ := State.ok_of_bind hrun
  obtain ⟨⟨⟩, s₄, h₄, hrun⟩ := State.ok_of_bind hrun
  obtain ⟨arms, s₅, h₅, hrun⟩ := State.ok_of_bind hrun
  obtain ⟨⟨⟩, s₆, h₆, hrun⟩ := State.ok_of_bind hrun
  obtain ⟨⟨⟩, s₇, h₇, hrun⟩ := State.ok_of_bind hrun
  obtain ⟨arm, s₈, h₈, hrun⟩ := State.ok_of_bind hrun
  obtain ⟨⟨⟩, s₉, h₉, hrun⟩ := State.ok_of_bind hrun
  obtain ⟨⟨⟩, s₁₀, h₁₀, hrun⟩ := State.ok_of_bind hrun
  obtain ⟨joined, s₁₁, h₁₁, hrun⟩ := State.ok_of_bind hrun
  obtain ⟨g₈, hdead₈, hclosed, hfresh, hpending, -⟩ :=
    clauses_grown hc hv hlive htemp h₁ h₂ h₃ h₄ h₅ h₆ h₇ h₈ joined
  have hbase : Ground (view s).widths (view s) (view s).stack.records := (Grown.ofValid hv).ground hlive
  have hnew : last ∉ branches := fun hmem => (List.nodup_append.1 hpending).2.2 last hmem last (by simp) rfl
  obtain ⟨slots, log, hfreed, hslots⟩ := place_freeSlot (view s₈).code last temp
  have g₉ := g₈.freed (Nat.lt_of_lt_of_le htemp g₈.since.slots_le) hslots log
  refine leaves_join g₉ hdead₈ hbase ?_ (fun l hl => hfresh l (by simpa using hl)) (by simp)
    (by simp +contextual) ?_ (by simp [or_comm]) ?_ h₁₁ hrun
  · exact ⟨hclosed.nodup, hclosed.le, hclosed.empty, hclosed.kept, hclosed.size_le⟩
  · rw [List.mem_cons, not_or]
    exact ⟨by simpa using (List.nodup_append.1 hpending).2.1, hnew⟩
  · rw [modifyCode_ok h₁₀, modifyCode_ok h₉]
    simp only [View.update_update, View.code_update, View.work_update, hfreed]

theorem live_boxTop (hrun : FormM.boxTop s = .ok u t) (hlive : (view s).stack.isUnreachable = false) :
    (view t).stack.isUnreachable = false := by
  obtain ⟨top, s₁, h₁, hrun⟩ := State.ok_of_bind hrun
  obtain ⟨rfl, -⟩ := topType_ok h₁
  cases top with
  | none =>
      cases hrun
      exact hlive
  | some ty => exact live_emitAll (toBoxed_conversion ty).ends hrun hlive

/-- The subject is stored first, so that all branches start at the depth of the form. -/
theorem compileCase_leaves [Libraries] (hc : Compiles h) {d : Datum} (hv : Valid (view s))
    (hrun : compileCase h d s = .ok u t) : Leaves (view s) (view t) := by
  obtain ⟨⟨subject, clauses⟩, s₁, h₁, hrun⟩ := State.ok_of_bind hrun
  obtain ⟨-, rfl⟩ := ofExcept_ok h₁
  obtain ⟨⟨⟩, s₁, h₁, hrun⟩ := State.ok_of_bind hrun
  obtain ⟨w, g₁, hw⟩ := (Grown.ofValid hv).compilePart hc h₁
  obtain ⟨dead, s₂, h₂, hrun⟩ := State.ok_of_bind hrun
  obtain ⟨rfl, rfl⟩ := isUnreachable_run g₁ h₂
  split at hrun
  · rename_i hdead
    cases hrun
    exact .of_dead g₁ (reach_of_dead hdead)
  rename_i hlive
  rw [Bool.not_eq_true] at hlive
  obtain ⟨⟨⟩, s₂, h₂, hrun⟩ := State.ok_of_bind hrun
  obtain ⟨g₂, -⟩ := g₁.boxTop hw.top h₂
  obtain ⟨temp, s₃, h₃, hrun⟩ := State.ok_of_bind hrun
  obtain ⟨g₃, htemp₃, hs₃⟩ := g₂.allocSlot h₃
  obtain ⟨⟨⟩, s₄, h₄, hrun⟩ := State.ok_of_bind hrun
  have g₃ : Grown (terms (view s)) (view s) (0 + Ty.any.width) (view s₃) := g₃
  obtain ⟨g₄, htemp⟩ := g₃.store htemp₃ h₄
  have hlive₄ := live_emit h₄ rfl (hs₃ ▸ live_boxTop h₂ hlive)
  refine .behind g₄ ?_
  obtain ⟨stack, s₅, h₅, hrun⟩ := State.ok_of_bind hrun
  obtain ⟨rfl, rfl, -⟩ := stack_ok h₅
  exact compileClauses_leaves hc g₄.valid hlive₄ htemp hrun

end Case

end LispMachine.Emission
