import Mathlib.Data.List.Induction
import LispMachine.Form.Branches
import LispMachine.Proofs.Emission.Branches
import LispMachine.Proofs.Emission.Computing
import LispMachine.Proofs.Emission.Placement
import LispMachine.Proofs.Emission.Verified
import LispMachine.Proofs.Machine.Travel
import LispMachine.Proofs.Value.Equality

/-! # The dispatch of a case

A compiled `case` finds its branch in three steps: a switch on the hash of the subject, tests for equality with
the keys of that hash, and a switch on the number of the branch.  Since equal values have equal hashes, the
bucket of the subject's hash holds every key that could equal it (`find?_keysWith`), in the order in which the
keys were written (`bucketFor?_bucketsOf`).

The code is followed from the items that are emitted (`emitSwitch_items`) to what they do (`switch_through`),
and `case_dispatch` puts it together: control gets to the branch that a search through all keys finds. -/

namespace LispMachine.Form

open Machine

/-! ### Keys -/

/-- A key stands for the value it was written for, and selects one of the branches. -/
structure CaseKey.Sound [Libraries] (branches : Nat) (k : CaseKey) : Prop where
  constant : ∀ w, constantValue w k.constant = .ok k.value
  proper : k.value.isProper = true
  branch : k.branch < branches

theorem constantValue_case [Libraries] {key : Datum} {c : Constant} (h : caseConstant key = .ok c) (w : World) :
    constantValue w c = .ok key.toValue := by
  unfold caseConstant at h
  split at h
  · cases h
    rfl
  · cases h
  · cases h
    rfl
  · rename_i hsymbol hregex _
    split at h
    · rename_i c' hc
      cases h
      cases key with
      | atom a i =>
        cases a with
        | symbol name => exact absurd rfl (hsymbol name i)
        | regex source => exact absurd rfl (hregex source i)
        | _ =>
          cases hc
          rfl
      | _ =>
        simp only [constantOf?] at hc
        split at hc
        · cases hc
          rfl
        · cases hc
    · cases h

section Clauses

variable {d test key : Datum} {branch : Nat} {clauses clauses' : CaseClauses}

theorem addKey_ok [Libraries] (h : clauses.addKey d branch key = .ok clauses') :
    ∃ constant, caseConstant key = .ok constant ∧
      clauses' = { clauses with keys := clauses.keys ++ [{ constant, value := key.toValue, branch }] } := by
  obtain ⟨constant, hconstant, h⟩ := bind_ok h
  dsimp only at h
  split at h
  · cases h
  · cases h
    exact ⟨constant, hconstant, rfl⟩

/-- Tests for one branch leave the branches as they are, and add sound keys. -/
theorem addKeys_sound [Libraries] {tests : List Datum}
    (h : tests.foldlM (CaseClauses.addKey d branch) clauses = .ok clauses')
    (hkeys : ∀ k ∈ clauses.keys, k.Sound (branch + 1)) :
    clauses'.branches = clauses.branches ∧ ∀ k ∈ clauses'.keys, k.Sound (branch + 1) := by
  induction tests generalizing clauses with
  | nil =>
    cases h
    exact ⟨rfl, hkeys⟩
  | cons test rest ih =>
    rw [List.foldlM_cons] at h
    obtain ⟨clauses₁, h₁, h⟩ := bind_ok h
    obtain ⟨constant, hconstant, rfl⟩ := addKey_ok h₁
    have hadded : ∀ k ∈ clauses.keys ++ [{ constant, value := test.toValue, branch }], k.Sound (branch + 1) := by
      intro k hk
      rcases List.mem_append.mp hk with hk | hk
      · exact hkeys k hk
      · obtain rfl := List.mem_singleton.mp hk
        exact ⟨constantValue_case hconstant, test.isProper_toValue, Nat.lt_succ_self _⟩
    have hrest := ih h hadded
    exact hrest

theorem addKeys_length [Libraries] {tests : List Datum}
    (h : tests.foldlM (CaseClauses.addKey d branch) clauses = .ok clauses') :
    clauses'.branches = clauses.branches ∧ clauses'.keys.length = clauses.keys.length + tests.length := by
  induction tests generalizing clauses with
  | nil =>
    cases h
    exact ⟨rfl, rfl⟩
  | cons test rest ih =>
    rw [List.foldlM_cons] at h
    obtain ⟨clauses₁, h₁, h⟩ := bind_ok h
    obtain ⟨constant, -, rfl⟩ := addKey_ok h₁
    obtain ⟨hsame, hlength⟩ := ih h
    refine ⟨hsame, ?_⟩
    simp only [hlength, List.length_append, List.length_cons, List.length_nil]
    omega

theorem addAll_sound [Libraries] {rest : List Datum} (h : clauses.addAll d branch rest = .ok clauses')
    (hbranches : clauses.branches.length = branch) (hkeys : ∀ k ∈ clauses.keys, k.Sound branch) :
    ∀ k ∈ clauses'.keys, k.Sound clauses'.branches.length := by
  induction rest using List.twoStepInduction generalizing clauses branch with
  | nil =>
    cases h
    exact hbranches ▸ hkeys
  | singleton fallback =>
    cases h
    exact hbranches ▸ hkeys
  | cons_cons test body rest ih _ =>
    rw [CaseClauses.addAll] at h
    obtain ⟨clauses₁, h₁, h⟩ := bind_ok h
    obtain ⟨hsame, hkeys₁⟩ := addKeys_sound h₁ fun k hk =>
      ⟨(hkeys k hk).constant, (hkeys k hk).proper, Nat.lt_succ_of_lt (hkeys k hk).branch⟩
    exact ih h (by simp [hsame, hbranches]) hkeys₁

/-- Every clause has a key. -/
theorem addAll_keys [Libraries] {rest : List Datum} (h : clauses.addAll d branch rest = .ok clauses')
    (hkeys : clauses.branches.length ≤ clauses.keys.length) : clauses'.branches.length ≤ clauses'.keys.length := by
  induction rest using List.twoStepInduction generalizing clauses branch with
  | nil =>
    cases h
    exact hkeys
  | singleton fallback =>
    cases h
    exact hkeys
  | cons_cons test body rest ih _ =>
    rw [CaseClauses.addAll] at h
    obtain ⟨clauses₁, h₁, h⟩ := bind_ok h
    obtain ⟨hsame, hlength⟩ := addKeys_length h₁
    have htests : 0 < (caseTests test).length := by
      unfold caseTests
      split <;> exact Nat.succ_pos _
    refine ih h ?_
    simp only [List.length_append, List.length_cons, List.length_nil, hsame, hlength]
    omega

/-- All keys of a case stand for the values they were written for. -/
theorem caseParts_sound [Libraries] {subject : Datum} (h : caseParts d = .ok (subject, clauses)) :
    (∀ k ∈ clauses.keys, k.Sound clauses.branches.length) ∧ (clauses.keys = [] → clauses.branches = []) := by
  unfold caseParts at h
  split at h
  · cases h
  · obtain ⟨clauses', hclauses, h⟩ := bind_ok h
    cases h
    refine ⟨addAll_sound hclauses rfl (by simp), fun hnone => ?_⟩
    have hlength := addAll_keys hclauses (Nat.le_refl _)
    rw [hnone] at hlength
    exact List.length_eq_zero_iff.mp (Nat.le_zero.mp hlength)

end Clauses

/-! ### Buckets -/

section Buckets

variable {keys : List CaseKey} {buckets : List Bucket} {n : Int}

/-- The keys of one hash. -/
def keysWith (n : Int) (keys : List CaseKey) : List CaseKey := keys.filter fun k => k.value.hashCode = n

/-- The bucket of a hash. -/
def bucketFor? (n : Int) (buckets : List Bucket) : Option Bucket := buckets.find? fun b => b.hash = n

def Ascending (buckets : List Bucket) : Prop := buckets.Pairwise fun a b => a.hash < b.hash

theorem mem_insertKey {key : CaseKey} {b : Bucket} (h : b ∈ insertKey key buckets) :
    b.hash = key.value.hashCode ∨ ∃ a ∈ buckets, a.hash = b.hash := by
  induction buckets with
  | nil =>
    obtain rfl := List.mem_singleton.mp h
    exact .inl rfl
  | cons a rest ih =>
    simp only [insertKey] at h
    split at h
    · rcases List.mem_cons.mp h with rfl | h
      · exact .inl rfl
      · exact .inr ⟨b, h, rfl⟩
    split at h
    · rcases List.mem_cons.mp h with rfl | h
      · exact .inr ⟨a, List.mem_cons_self, rfl⟩
      · exact .inr ⟨b, List.mem_cons_of_mem _ h, rfl⟩
    · rcases List.mem_cons.mp h with rfl | h
      · exact .inr ⟨b, List.mem_cons_self, rfl⟩
      · exact (ih h).imp_right fun ⟨c, hc, hsame⟩ => ⟨c, List.mem_cons_of_mem _ hc, hsame⟩

theorem ascending_insertKey (key : CaseKey) (h : Ascending buckets) : Ascending (insertKey key buckets) := by
  induction buckets with
  | nil => exact List.pairwise_singleton _ _
  | cons b rest ih =>
    obtain ⟨hb, hrest⟩ := List.pairwise_cons.mp h
    simp only [insertKey]
    split
    · rename_i hlt
      refine List.pairwise_cons.mpr ⟨fun c hc => ?_, h⟩
      rcases List.mem_cons.mp hc with rfl | hc
      · exact hlt
      · exact Int.lt_trans hlt (hb c hc)
    split
    · exact List.pairwise_cons.mpr ⟨hb, hrest⟩
    · rename_i hge hne
      refine List.pairwise_cons.mpr ⟨fun c hc => ?_, ih hrest⟩
      rcases mem_insertKey hc with hc | ⟨a, ha, hsame⟩
      · omega
      · exact hsame ▸ hb a ha

/-- A key goes to the end of the bucket of its hash. -/
theorem bucketFor?_insertKey (key : CaseKey) (h : Ascending buckets) :
    bucketFor? n (insertKey key buckets)
      = if key.value.hashCode = n then
          some ⟨n, ((bucketFor? n buckets).map Bucket.keys).getD [] ++ [key]⟩
        else bucketFor? n buckets := by
  induction buckets with
  | nil =>
    simp only [insertKey, bucketFor?, List.find?_cons, List.find?_nil]
    split <;> simp_all
  | cons b rest ih =>
    obtain ⟨hb, hrest⟩ := List.pairwise_cons.mp h
    simp only [insertKey]
    split
    · rename_i hlt
      have hnone : bucketFor? key.value.hashCode (b :: rest) = none := by
        refine List.find?_eq_none.mpr fun c hc hsame => ?_
        rcases List.mem_cons.mp hc with rfl | hc
        · simp at hsame
          omega
        · have hlt' := hb c hc
          simp at hsame
          omega
      split
      · rename_i hn
        subst hn
        rw [hnone]
        simp [bucketFor?]
      · rename_i hn
        simp [bucketFor?, hn]
    split
    · rename_i hsame
      split
      · rename_i hn
        simp [bucketFor?, ← hsame, hn]
      · rename_i hn
        rw [hsame] at hn
        simp [bucketFor?, hn]
    · rename_i hne
      by_cases hn : b.hash = n
      · simp only [bucketFor?, List.find?_cons, hn, decide_true]
        rw [if_neg (hn ▸ hne)]
      · simp only [bucketFor?, List.find?_cons, hn, decide_false]
        exact ih hrest

theorem bucketsOf_append (keys : List CaseKey) (key : CaseKey) :
    bucketsOf (keys ++ [key]) = insertKey key (bucketsOf keys) := by
  rw [bucketsOf, List.foldl_append]
  rfl

theorem ascending_bucketsOf (keys : List CaseKey) : Ascending (bucketsOf keys) := by
  induction keys using List.reverseRecOn with
  | nil => exact .nil
  | append_singleton keys key ih =>
    rw [bucketsOf_append]
    exact ascending_insertKey key ih

/-- The bucket of a hash holds the keys of that hash, in order; without such keys there is none. -/
theorem bucketFor?_bucketsOf (n : Int) (keys : List CaseKey) :
    bucketFor? n (bucketsOf keys) = if keysWith n keys = [] then none else some ⟨n, keysWith n keys⟩ := by
  induction keys using List.reverseRecOn with
  | nil => rfl
  | append_singleton keys key ih =>
    rw [bucketsOf_append, bucketFor?_insertKey key (ascending_bucketsOf keys), ih]
    have hkeys : keysWith n (keys ++ [key]) = keysWith n keys ++ if key.value.hashCode = n then [key] else [] := by
      by_cases hn : key.value.hashCode = n <;> simp [keysWith, hn]
    rw [hkeys]
    by_cases hn : key.value.hashCode = n
    · have hsome : ¬ keysWith n keys ++ [key] = [] := by simp
      rw [if_pos hn, if_pos hn, if_neg hsome]
      by_cases hnone : keysWith n keys = []
      · rw [if_pos hnone, hnone]
        rfl
      · rw [if_neg hnone]
        rfl
    · rw [if_neg hn, if_neg hn, List.append_nil]

theorem mem_bucketsOf {b : Bucket} (h : b ∈ bucketsOf keys) : ∃ k ∈ keys, b.hash = k.value.hashCode := by
  induction keys using List.reverseRecOn generalizing b with
  | nil => cases h
  | append_singleton keys key ih =>
    rw [bucketsOf_append] at h
    rcases mem_insertKey h with h | ⟨a, ha, hsame⟩
    · exact ⟨key, by simp, h⟩
    · obtain ⟨k, hk, hhash⟩ := ih ha
      exact ⟨k, by simp [hk], hsame.symm.trans hhash⟩

end Buckets

/-- Hashes fit into a machine word. -/
theorem ofInt_hashCode_inj {v w : Value} (h : Int64.ofInt v.hashCode = Int64.ofInt w.hashCode) :
    v.hashCode = w.hashCode := by
  have hfits : ∀ x : Value, (Int64.ofInt x.hashCode).toInt = x.hashCode := by
    intro x
    have hlt := x.hash32.toNat_lt
    refine Int64.toInt_ofInt_of_le ?_ ?_ <;> simp only [Value.hashCode, Text.signed32] <;> split <;> omega
  rw [← hfits v, ← hfits w, h]

/-- Where a switch by hash goes: to the label of the bucket, or to the fallback. -/
theorem switchTarget_buckets {buckets : List Bucket} {labels : List Label} {n : Int} (fallback : Label)
    (hlength : labels.length = buckets.length)
    (hinj : ∀ b ∈ buckets, Int64.ofInt b.hash = Int64.ofInt n → b.hash = n) :
    match bucketFor? n buckets with
    | some b => ∃ l, (b, l) ∈ buckets.zip labels ∧ switchTarget labels fallback
        ((buckets.map fun b => Int64.ofInt b.hash).findIdx? (· == Int64.ofInt n)) = l
    | none => switchTarget labels fallback
        ((buckets.map fun b => Int64.ofInt b.hash).findIdx? (· == Int64.ofInt n)) = fallback := by
  induction buckets generalizing labels with
  | nil => rfl
  | cons b rest ih =>
    cases labels with
    | nil => cases hlength
    | cons l labels =>
      by_cases hn : b.hash = n
      · simp [bucketFor?, switchTarget, List.findIdx?_cons, hn]
      · have hne : ¬ Int64.ofInt b.hash = Int64.ofInt n := fun h => hn (hinj b List.mem_cons_self h)
        have hrest := ih (Nat.succ.inj hlength) fun b hb => hinj b (List.mem_cons_of_mem _ hb)
        have hskip : ∀ position : Option Nat,
            switchTarget (l :: labels) fallback (position.map (· + 1)) = switchTarget labels fallback position := by
          intro position
          cases position <;> rfl
        simp only [bucketFor?, List.find?_cons, hn, decide_false, List.map_cons, List.findIdx?_cons,
          beq_iff_eq, hne, if_false, hskip, List.zip_cons_cons]
        cases hfind : rest.find? fun b => b.hash = n with
        | none =>
          simp only [bucketFor?, hfind] at hrest
          exact hrest
        | some b' =>
          simp only [bucketFor?, hfind] at hrest
          obtain ⟨l', hmem, htarget⟩ := hrest
          exact ⟨l', List.mem_cons_of_mem _ hmem, htarget⟩

/-- The key that decides has the hash of the subject. -/
theorem find?_keysWith {keys : List CaseKey} {v : Value} (hv : v.isProper = true)
    (hkeys : ∀ k ∈ keys, k.value.isProper = true) :
    (keysWith v.hashCode keys).find? (fun k => v == k.value) = keys.find? fun k => k.value == v := by
  induction keys with
  | nil => rfl
  | cons k rest ih =>
    obtain ⟨hk, hrest⟩ := List.forall_mem_cons.mp hkeys
    have hsame : (v == k.value) = (k.value == v) := Value.eq_comm_of_isProper hv hk
    rw [List.find?_cons, ← ih hrest]
    by_cases hhash : k.value.hashCode = v.hashCode
    · rw [keysWith, List.filter_cons_of_pos (by simpa using hhash), List.find?_cons, hsame]
      rfl
    · have hne : (k.value == v) = false := by
        by_contra heq
        exact hhash (Value.hashCode_of_eq hk hv (Bool.not_eq_false _ ▸ heq))
      rw [keysWith, List.filter_cons_of_neg (by simpa using hhash), hne]
      rfl

end LispMachine.Form

namespace LispMachine.Emission

open Form Machine
open CodeBuffer (Item)

/-! ### The code of the tests -/

/-- The instructions that compare the value in a slot with a key. -/
def keyCode (temp : Nat) (dispatch next : Label) (key : CaseKey) : List Instruction :=
  [Instruction.load temp .any, Instruction.const key.constant] ++ Coercion.toBoxed key.constant.ty ++
    [Instruction.equiv, Instruction.ifFalse next, Instruction.const (.long (Int64.ofNat key.branch)),
      Instruction.goto dispatch]

/-- The items of a test, with the label behind it. -/
def testItems (temp : Nat) (dispatch : Label) (test : CaseKey × Label) : List Item :=
  (keyCode temp dispatch test.2 test.1).map .instruction ++ [Item.label test.2]

/-- The items of a bucket. -/
def bucketItems (temp : Nat) (dispatch fallback l : Label) (tests : List (CaseKey × Label)) : List Item :=
  .label l :: tests.flatMap (testItems temp dispatch) ++ [Item.instruction (.goto fallback)]

section Items

variable {s t : FormState} {u : Unit} {base : List StackRecord} {temp : Nat} {dispatch fallback l : Label}

/-- Instructions are emitted as they are. -/
theorem emitAll_items {code : List Instruction} (hends : ∀ i ∈ code, i.endsBlock = false)
    (hlive : (view s).stack.isUnreachable = false) (hrun : FormM.emitAll code s = .ok u t) :
    (view t).code.items.toList = (view s).code.items.toList ++ code.map .instruction := by
  induction code generalizing s with
  | nil =>
    cases hrun
    simp
  | cons i rest ih =>
    obtain ⟨⟨⟩, s₁, h₁, hrun⟩ := State.ok_of_bind hrun
    obtain ⟨hi, hrest⟩ := List.forall_mem_cons.mp hends
    rw [ih hrest (live_emit h₁ hi hlive) hrun, items_emit h₁ hlive]
    simp

theorem emitKeyTest_items {key : CaseKey} (hbase : base.contains .unreachable = false)
    (hlive : (view s).stack.isUnreachable = false) (hrun : emitKeyTest base temp dispatch key s = .ok u t) :
    (view t).stack.isUnreachable = false ∧ ∃ next,
      (view t).code.items.toList = (view s).code.items.toList ++ testItems temp dispatch (key, next) := by
  obtain ⟨next, s₁, h₁, hrun⟩ := State.ok_of_bind hrun
  have hview₁ := (onCode_ok h₁).2
  have hlive₁ : (view s₁).stack.isUnreachable = false := by rwa [hview₁]
  have hitems₁ : (view s₁).code.items = (view s).code.items := by
    rw [hview₁]
    rfl
  obtain ⟨⟨⟩, s₂, h₂, hrun⟩ := State.ok_of_bind hrun
  have hlive₂ := live_emit h₂ rfl hlive₁
  obtain ⟨⟨⟩, s₃, h₃, hrun⟩ := State.ok_of_bind hrun
  have hlive₃ := live_emit h₃ rfl hlive₂
  obtain ⟨⟨⟩, s₄, h₄, hrun⟩ := State.ok_of_bind hrun
  have hlive₄ := live_emitAll (toBoxed_conversion _).ends h₄ hlive₃
  obtain ⟨⟨⟩, s₅, h₅, hrun⟩ := State.ok_of_bind hrun
  have hlive₅ := live_emit h₅ rfl hlive₄
  obtain ⟨⟨⟩, s₆, h₆, hrun⟩ := State.ok_of_bind hrun
  have hlive₆ := live_emit h₆ rfl hlive₅
  obtain ⟨⟨⟩, s₇, h₇, hrun⟩ := State.ok_of_bind hrun
  have hlive₇ := live_emit h₇ rfl hlive₆
  obtain ⟨⟨⟩, s₈, h₈, hrun⟩ := State.ok_of_bind hrun
  obtain ⟨hitems, hlive⟩ := startAt_items hbase hrun
  refine ⟨hlive, next, ?_⟩
  rw [hitems, items_emit h₈ hlive₇, items_emit h₇ hlive₆, items_emit h₆ hlive₅, items_emit h₅ hlive₄,
    emitAll_items (toBoxed_conversion _).ends hlive₃ h₄, items_emit h₃ hlive₂, items_emit h₂ hlive₁, hitems₁]
  simp [testItems, keyCode]

theorem emitKeyTests_items {keys : List CaseKey} (hbase : base.contains .unreachable = false)
    (hlive : (view s).stack.isUnreachable = false)
    (hrun : keys.forM (emitKeyTest base temp dispatch) s = .ok u t) :
    (view t).stack.isUnreachable = false ∧ ∃ tests : List (CaseKey × Label), tests.map Prod.fst = keys ∧
      (view t).code.items.toList
        = (view s).code.items.toList ++ tests.flatMap (testItems temp dispatch) := by
  induction keys generalizing s with
  | nil =>
    cases hrun
    exact ⟨hlive, [], rfl, by simp⟩
  | cons key rest ih =>
    obtain ⟨⟨⟩, s₁, h₁, hrun⟩ := State.ok_of_bind hrun
    obtain ⟨hlive₁, next, hitems₁⟩ := emitKeyTest_items hbase hlive h₁
    obtain ⟨hlive, tests, hkeys, hitems⟩ := ih hlive₁ hrun
    refine ⟨hlive, (key, next) :: tests, by rw [List.map_cons, hkeys], ?_⟩
    rw [hitems, hitems₁]
    simp

theorem emitBucket_items {bucket : Bucket} (hbase : base.contains .unreachable = false)
    (hrun : emitBucket base temp dispatch fallback bucket l s = .ok u t) :
    ∃ tests : List (CaseKey × Label), tests.map Prod.fst = bucket.keys ∧
      (view t).code.items.toList
        = (view s).code.items.toList ++ bucketItems temp dispatch fallback l tests := by
  obtain ⟨⟨⟩, s₁, h₁, hrun⟩ := State.ok_of_bind hrun
  obtain ⟨hitems₁, hlive₁⟩ := startAt_items hbase h₁
  obtain ⟨⟨⟩, s₂, h₂, hrun⟩ := State.ok_of_bind hrun
  obtain ⟨hlive₂, tests, hkeys, hitems₂⟩ := emitKeyTests_items hbase hlive₁ h₂
  refine ⟨tests, hkeys, ?_⟩
  rw [items_emit hrun hlive₂, hitems₂, hitems₁]
  simp [bucketItems]

/-- The tests of every bucket are somewhere in the code of all buckets. -/
theorem emitBuckets_items {buckets : List (Bucket × Label)} (hbase : base.contains .unreachable = false)
    (hrun : (buckets.forM fun (b, l) => emitBucket base temp dispatch fallback b l) s = .ok u t) :
    ∃ blocks, (view t).code.items.toList = (view s).code.items.toList ++ blocks ∧
      ∀ q ∈ buckets, ∃ front back tests, blocks = front ++ bucketItems temp dispatch fallback q.2 tests ++ back ∧
        tests.map Prod.fst = q.1.keys := by
  induction buckets generalizing s with
  | nil =>
    cases hrun
    exact ⟨[], by simp, by simp⟩
  | cons q rest ih =>
    obtain ⟨⟨⟩, s₁, h₁, hrun⟩ := State.ok_of_bind hrun
    obtain ⟨tests, hkeys, hitems₁⟩ := emitBucket_items hbase h₁
    obtain ⟨blocks, hitems, hblocks⟩ := ih hrun
    refine ⟨bucketItems temp dispatch fallback q.2 tests ++ blocks, ?_, ?_⟩
    · rw [hitems, hitems₁, List.append_assoc]
    · refine List.forall_mem_cons.mpr ⟨⟨[], blocks, tests, rfl, hkeys⟩, fun q' hq' => ?_⟩
      obtain ⟨front, back, tests', rfl, hkeys'⟩ := hblocks q' hq'
      exact ⟨bucketItems temp dispatch fallback q.2 tests ++ front, back, tests', by simp, hkeys'⟩

end Items

/-! ### The tests at work -/

section Tests

variable {b : CodeBuffer} {body : Body} {call : Caller} {first last temp target fall : Nat} {dispatch fallback : Label}
  {r : Running} {v : Value} {stack : List Value} {front back : List Item}

/-- A value is boxed where it is not boxed already. -/
theorem toBoxed_through [Libraries] {ty : Ty} {pc : Nat} {t : Running} (hty : ty ≠ .void)
    (hcode : ∀ n i, (Coercion.toBoxed ty)[n]? = some i → body.code.instructions[pc + n]? = some i)
    (hfirst : first ≤ pc) (hlast : pc + (Coercion.toBoxed ty).length ≤ last)
    (hrest : Through call body first last (r.at (pc + (Coercion.toBoxed ty).length) (v :: stack)) t) :
    Through call body first last (r.at pc (slotsOf v ty ++ stack)) t := by
  cases ty with
  | void => exact absurd rfl hty
  | any => exact hrest
  | cls name => exact hrest
  | prim p => exact through_next (hcode 0 _ rfl) ⟨hfirst, hlast⟩ (step_box rfl) hrest

/-- A key that equals the value takes control to the dispatch with the number of its branch; any other leaves
the stack as it was. -/
theorem test_through [Libraries] {key : CaseKey} {next : Label} (hb : Finished b body.code)
    (hsplit : b.items.toList = front ++ (testItems temp dispatch (key, next) ++ back))
    (hdispatch : jumpTarget body.code dispatch = .ok target)
    (hkey : ∀ w, constantValue w key.constant = .ok key.value) (hv : r.frame.locals[temp]? = some v) :
    Through call body (place b front) (place b (front ++ testItems temp dispatch (key, next)))
      (r.at (place b front) stack)
      (if v == key.value then r.at target (slotsOf (.int (Int64.ofNat key.branch)) .long ++ stack)
        else r.at (place b (front ++ testItems temp dispatch (key, next))) stack) := by
  let boxing := Coercion.toBoxed key.constant.ty
  let pushing : List Instruction := [.load temp .any, .const key.constant]
  let deciding : List Instruction :=
    [.equiv, .ifFalse next, .const (.long (Int64.ofNat key.branch)), .goto dispatch]
  have hpushing : b.items.toList = front ++ (pushing.map .instruction ++
      (boxing.map .instruction ++ (deciding.map .instruction ++ .label next :: back))) := by
    simp [hsplit, testItems, keyCode, pushing, boxing, deciding]
  have hboxing : b.items.toList = (front ++ pushing.map .instruction) ++
      (boxing.map .instruction ++ (deciding.map .instruction ++ .label next :: back)) := by
    rw [hpushing, List.append_assoc]
  have hdeciding : b.items.toList = (front ++ pushing.map .instruction ++ boxing.map .instruction) ++
      (deciding.map .instruction ++ .label next :: back) := by
    simp only [hboxing, List.append_assoc]
  have hlabel : b.items.toList = (front ++ pushing.map .instruction ++ boxing.map .instruction ++
      deciding.map .instruction) ++ .label next :: back := by
    simp only [hdeciding, List.append_assoc]
  have hnext := hb.jumpTarget hlabel
  have hend : place b (front ++ testItems temp dispatch (key, next)) = place b front + 6 + boxing.length := by
    simp [testItems, keyCode, boxing, place_append, flat]
    omega
  have hpush := fun {n i} => hb.instruction_at hpushing (n := n) (i := i)
  have hbox := fun {n i} => hb.instruction_at hboxing (n := n) (i := i)
  have hdecide := fun {n i} => hb.instruction_at hdeciding (n := n) (i := i)
  simp only [place_map] at hnext hbox hdecide
  have hboxed : boxing.length = (Coercion.toBoxed key.constant.ty).length := rfl
  have hbehind : place b front + pushing.length + boxing.length + deciding.length
      = place b front + 6 + boxing.length := Nat.add_right_comm _ _ 4
  rw [hend]
  refine through_next (hpush (n := 0) rfl) (by omega) (step_load (s := r.at (place b front) stack) hv .any) ?_
  refine through_next (hpush (n := 1) rfl) (by omega) (step_const (hkey _)) ?_
  refine toBoxed_through (constant_ty_ne_void _) (fun n i hn => hbox hn) (by omega) (by omega) ?_
  refine through_next (hdecide (n := 0) rfl) (by omega) (step_equiv rfl) ?_
  cases hsame : v == key.value with
  | true =>
    refine through_next (hdecide (n := 1) rfl) (by omega) (step_ifFalse (b := true) next rfl) ?_
    refine through_next (hdecide (n := 2) rfl) (by omega) (step_const rfl) ?_
    exact through_jump (hdecide (n := 3) rfl) (by omega) rfl hdispatch (.refl _)
  | false =>
    refine through_jump (hdecide (n := 1) rfl) (by omega) (step_ifFalse (b := false) next rfl) hnext ?_
    rw [hbehind]
    exact .refl _

/-- Keys are compared one after the other, up to the first that equals the value. -/
theorem tests_through [Libraries] {tests : List (CaseKey × Label)} (hb : Finished b body.code)
    (hsplit : b.items.toList = front ++ (tests.flatMap (testItems temp dispatch) ++ back))
    (hdispatch : jumpTarget body.code dispatch = .ok target)
    (hkeys : ∀ q ∈ tests, ∀ w, constantValue w q.1.constant = .ok q.1.value)
    (hv : r.frame.locals[temp]? = some v) :
    Through call body (place b front) (place b (front ++ tests.flatMap (testItems temp dispatch)))
      (r.at (place b front) stack)
      (match (tests.map Prod.fst).find? fun k => v == k.value with
        | some k => r.at target (slotsOf (.int (Int64.ofNat k.branch)) .long ++ stack)
        | none => r.at (place b (front ++ tests.flatMap (testItems temp dispatch))) stack) := by
  induction tests generalizing front with
  | nil =>
    rw [List.flatMap_nil, List.append_nil]
    exact .refl _
  | cons q rest ih =>
    obtain ⟨key, next⟩ := q
    obtain ⟨hq, hrest⟩ := List.forall_mem_cons.mp hkeys
    rw [List.flatMap_cons, List.append_assoc] at hsplit
    have hhead : Through call body _ _ (r.at (place b front) stack) _ := test_through hb hsplit hdispatch hq hv
    have htail := ih (by rw [hsplit, List.append_assoc]) hrest
    rw [List.flatMap_cons, ← List.append_assoc, List.map_cons, List.find?_cons]
    have hle := place_append b (front ++ testItems temp dispatch (key, next)) (rest.flatMap (testItems temp dispatch))
    have hle' := place_append b front (testItems temp dispatch (key, next))
    cases hsame : v == key.value with
    | true =>
      rw [hsame, if_pos rfl] at hhead
      exact hhead.mono (Nat.le_refl _) (by omega)
    | false =>
      rw [hsame, if_neg (by simp)] at hhead
      exact (hhead.mono (Nat.le_refl _) (by omega)).trans (htail.mono (by omega) (Nat.le_refl _))

/-- From the label of a bucket control goes to the dispatch, or to the fallback. -/
theorem bucket_through [Libraries] {tests : List (CaseKey × Label)} {l : Label} (hb : Finished b body.code)
    (hsplit : b.items.toList = front ++ (bucketItems temp dispatch fallback l tests ++ back))
    (hdispatch : jumpTarget body.code dispatch = .ok target) (hfallback : jumpTarget body.code fallback = .ok fall)
    (hkeys : ∀ q ∈ tests, ∀ w, constantValue w q.1.constant = .ok q.1.value)
    (hv : r.frame.locals[temp]? = some v) :
    jumpTarget body.code l = .ok (place b front) ∧
      Through call body (place b front) (place b (front ++ bucketItems temp dispatch fallback l tests))
        (r.at (place b front) stack)
        (match (tests.map Prod.fst).find? fun k => v == k.value with
          | some k => r.at target (slotsOf (.int (Int64.ofNat k.branch)) .long ++ stack)
          | none => r.at fall stack) := by
  have hlabel : b.items.toList = front ++ .label l :: (tests.flatMap (testItems temp dispatch) ++
      .instruction (.goto fallback) :: back) := by
    simp [hsplit, bucketItems]
  refine ⟨hb.jumpTarget hlabel, ?_⟩
  have hstart : place b (front ++ [Item.label l]) = place b front := place_append b front [.label l]
  have hbehind : b.items.toList = (front ++ [Item.label l]) ++ (tests.flatMap (testItems temp dispatch) ++
      .instruction (.goto fallback) :: back) := by
    rw [hlabel, List.append_assoc]
    rfl
  have htests : Through call body _ _ (r.at (place b (front ++ [Item.label l])) stack) _ :=
    tests_through hb hbehind hdispatch hkeys hv
  rw [← List.append_assoc] at hbehind
  have hgoto := hb.instruction hbehind
  have hend : place b (front ++ bucketItems temp dispatch fallback l tests)
      = place b (front ++ [Item.label l] ++ tests.flatMap (testItems temp dispatch)) + 1 := by
    have hitems : front ++ bucketItems temp dispatch fallback l tests
        = (front ++ [Item.label l] ++ tests.flatMap (testItems temp dispatch)) ++
          [Item.instruction (.goto fallback)] := by
      simp [bucketItems]
    rw [hitems, place_append]
    rfl
  have hle := place_append b (front ++ [Item.label l]) (tests.flatMap (testItems temp dispatch))
  rw [hstart] at htests hle
  rw [hend]
  refine (htests.mono (Nat.le_refl _) (Nat.le_succ _)).trans ?_
  cases (tests.map Prod.fst).find? fun k => v == k.value with
  | some k => exact .refl _
  | none => exact through_jump hgoto (by omega) rfl hfallback (.refl _)

end Tests

/-! ### The whole dispatch -/

/-- The items of a dispatch, around those of its buckets. -/
def switchItems (temp : Nat) (fallback : Label) (branches : List Label) (hashes : List Int64)
    (labels : List Label) (dispatch : Label) (blocks : List Item) : List Item :=
  [Instruction.load temp .any, .hashCode, .lookupSwitch hashes labels fallback].map .instruction ++
    (blocks ++ [Item.label dispatch, Item.instruction (.tableSwitch 0 branches fallback)])

theorem labelsFor_items {α : Type} {items : List α} {labels : List Label} {s t : FormState}
    (hrun : labelsFor items s = .ok labels t) :
    labels.length = items.length ∧ (view t).code.items = (view s).code.items ∧
      (view t).stack = (view s).stack := by
  induction items generalizing s labels with
  | nil =>
    cases hrun
    exact ⟨rfl, rfl, rfl⟩
  | cons item rest ih =>
    rw [labelsFor, List.mapM_cons] at hrun
    obtain ⟨l, s₁, h₁, hrun⟩ := State.ok_of_bind hrun
    obtain ⟨ls, s₂, h₂, hrun⟩ := State.ok_of_bind hrun
    cases hrun
    have hview₁ := (onCode_ok h₁).2
    obtain ⟨hlength, hitems, hstack⟩ := ih h₂
    rw [hview₁] at hitems hstack
    exact ⟨by simp [hlength], hitems, hstack⟩

theorem emitSwitch_items {base : List StackRecord} {temp : Nat} {fallback : Label} {branches : List Label}
    {keys : List CaseKey} {s t : FormState} {u : Unit} (hkeys : keys ≠ [])
    (hbase : base.contains .unreachable = false) (hlive : (view s).stack.isUnreachable = false)
    (hrun : emitSwitch base temp fallback branches keys s = .ok u t) :
    ∃ labels dispatch blocks, labels.length = (bucketsOf keys).length ∧
      (view t).code.items.toList = (view s).code.items.toList ++
        switchItems temp fallback branches ((bucketsOf keys).map fun b => Int64.ofInt b.hash) labels dispatch blocks ∧
      ∀ q ∈ (bucketsOf keys).zip labels, ∃ front back tests,
        blocks = front ++ bucketItems temp dispatch fallback q.2 tests ++ back ∧ tests.map Prod.fst = q.1.keys := by
  unfold emitSwitch at hrun
  rw [if_neg (by simpa using hkeys)] at hrun
  obtain ⟨labels, s₁, h₁, hrun⟩ := State.ok_of_bind hrun
  obtain ⟨hlength, hitems₁, hstack₁⟩ := labelsFor_items h₁
  obtain ⟨dispatch, s₂, h₂, hrun⟩ := State.ok_of_bind hrun
  have hview₂ := (onCode_ok h₂).2
  have hlive₂ : (view s₂).stack.isUnreachable = false := by
    rw [hview₂]
    change (view s₁).stack.isUnreachable = false
    rwa [hstack₁]
  obtain ⟨⟨⟩, s₃, h₃, hrun⟩ := State.ok_of_bind hrun
  have hlive₃ := live_emit h₃ rfl hlive₂
  obtain ⟨⟨⟩, s₄, h₄, hrun⟩ := State.ok_of_bind hrun
  have hlive₄ := live_emit h₄ rfl hlive₃
  obtain ⟨⟨⟩, s₅, h₅, hrun⟩ := State.ok_of_bind hrun
  obtain ⟨⟨⟩, s₆, h₆, hrun⟩ := State.ok_of_bind hrun
  obtain ⟨blocks, hitems₆, hblocks⟩ := emitBuckets_items hbase h₆
  obtain ⟨⟨⟩, s₇, h₇, hrun⟩ := State.ok_of_bind hrun
  have hview₇ := modifyStack_ok h₇
  obtain ⟨⟨⟩, s₈, h₈, hrun⟩ := State.ok_of_bind hrun
  have hlive₈ : (view s₈).stack.isUnreachable = false := by
    rw [modifyCode_ok h₈, hview₇]
    simpa [TypeStack.isUnreachable, TypeStack.push, TypeStack.withRecords] using hbase
  refine ⟨labels, dispatch, blocks, hlength, ?_, hblocks⟩
  rw [items_emit hrun hlive₈, items_place h₈, hview₇, View.code_update]
  change (view s₆).code.items.toList ++ _ ++ _ = _
  rw [hitems₆, items_emit h₅ hlive₄, items_emit h₄ hlive₃, items_emit h₃ hlive₂, hview₂]
  change (view s₁).code.items.toList ++ _ ++ _ ++ _ ++ _ ++ _ ++ _ = _
  rw [hitems₁]
  simp [switchItems]

theorem place_le_append (b : CodeBuffer) (front xs : List Item) : place b front ≤ place b (front ++ xs) := by
  rw [place_append]
  exact Nat.le_add_right _ _

section Switch

variable {b : CodeBuffer} {body : Body} {call : Caller} {temp fall : Nat} {fallback dispatch : Label}
  {branches labels : List Label} {blocks front back : List Item} {keys : List CaseKey} {r : Running} {v : Value}
  {stack : List Value} {starts : Nat → Nat}

/-- The number of a branch takes control to the label of the branch. -/
theorem tableSwitch_through [Libraries] {pc n : Nat}
    (hi : body.code.instructions[pc]? = some (.tableSwitch 0 branches fallback))
    (hn : n < branches.length) (hmany : branches.length ≤ 2 ^ 63)
    (hstarts : ∀ n l, branches[n]? = some l → jumpTarget body.code l = .ok (starts n)) :
    Through call body pc (pc + 1) (r.at pc (slotsOf (.int (Int64.ofNat n)) .long ++ stack))
      (r.at (starts n) stack) := by
  have hint : (Int64.ofNat n).toInt = n := Int64.toInt_ofNat_of_lt (by omega)
  obtain ⟨l, hl⟩ : ∃ l, branches[n]? = some l := ⟨_, List.getElem?_eq_getElem hn⟩
  have hstep : step call body (.tableSwitch 0 branches fallback)
      (r.at pc (slotsOf (.int (Int64.ofNat n)) .long ++ stack)) = _ :=
    step_tableSwitch branches fallback (by omega) rfl
  have htarget : switchTarget branches fallback (some n) = l := by
    simp [switchTarget, hl]
  rw [hint, Int.toNat_natCast, htarget] at hstep
  exact through_jump hi (by omega) hstep (hstarts n l hl) (.refl _)

/-- The dispatch takes control to the branch of the key that a search through all keys finds, and to the
fallback if it finds none. -/
theorem switch_through [Libraries] (hb : Finished b body.code)
    (hsplit : b.items.toList = front ++ (switchItems temp fallback branches
      ((bucketsOf keys).map fun b => Int64.ofInt b.hash) labels dispatch blocks ++ back))
    (hlength : labels.length = (bucketsOf keys).length)
    (hblocks : ∀ q ∈ (bucketsOf keys).zip labels, ∃ front back tests,
      blocks = front ++ bucketItems temp dispatch fallback q.2 tests ++ back ∧ tests.map Prod.fst = q.1.keys)
    (hkeys : ∀ k ∈ keys, k.Sound branches.length) (hmany : branches.length ≤ 2 ^ 63)
    (hfallback : jumpTarget body.code fallback = .ok fall)
    (hstarts : ∀ n l, branches[n]? = some l → jumpTarget body.code l = .ok (starts n))
    (hv : r.frame.locals[temp]? = some v) (hproper : v.isProper = true) :
    Through call body (place b front) (place b (front ++ switchItems temp fallback branches
        ((bucketsOf keys).map fun b => Int64.ofInt b.hash) labels dispatch blocks))
      (r.at (place b front) stack)
      (r.at (match keys.find? fun k => k.value == v with
        | some k => starts k.branch
        | none => fall) stack) := by
  set hashes := (bucketsOf keys).map fun b => Int64.ofInt b.hash with hhashes
  let choosing : List Instruction := [.load temp .any, .hashCode, .lookupSwitch hashes labels fallback]
  have hchoosing : b.items.toList = front ++ (choosing.map .instruction ++
      (blocks ++ .label dispatch :: .instruction (.tableSwitch 0 branches fallback) :: back)) := by
    simp [hsplit, switchItems, choosing]
  have hchoose := fun {n i} => hb.instruction_at hchoosing (n := n) (i := i)
  have hlabel : b.items.toList = (front ++ choosing.map .instruction ++ blocks) ++
      .label dispatch :: .instruction (.tableSwitch 0 branches fallback) :: back := by
    simp [hchoosing]
  have hdispatch := hb.jumpTarget hlabel
  have hbehind : b.items.toList = (front ++ choosing.map .instruction ++ blocks ++ [Item.label dispatch]) ++
      .instruction (.tableSwitch 0 branches fallback) :: back := by
    simp [hchoosing]
  have hat : place b (front ++ choosing.map .instruction ++ blocks ++ [Item.label dispatch])
      = place b (front ++ choosing.map .instruction ++ blocks) := place_append b _ [.label dispatch]
  have htable := hb.instruction hbehind
  rw [hat] at htable
  have hend : place b (front ++ switchItems temp fallback branches hashes labels dispatch blocks)
      = place b (front ++ choosing.map .instruction ++ blocks) + 1 := by
    have hitems : front ++ switchItems temp fallback branches hashes labels dispatch blocks
        = (front ++ choosing.map .instruction ++ blocks) ++
          [Item.label dispatch, Item.instruction (.tableSwitch 0 branches fallback)] := by
      simp [switchItems, choosing]
    rw [hitems, place_append]
    rfl
  have hfront := place_map b front choosing
  have hle := place_le_append b (front ++ choosing.map .instruction) blocks
  have hthree : choosing.length = 3 := rfl
  rw [hend]
  refine through_next (hchoose (n := 0) rfl) (by omega) (step_load (s := r.at (place b front) stack) hv .any) ?_
  refine through_next (hchoose (n := 1) rfl) (by omega) (step_hashCode rfl) ?_
  have hproperKeys : ∀ k ∈ keys, k.value.isProper = true := fun k hk => (hkeys k hk).proper
  have hinj : ∀ b ∈ bucketsOf keys, Int64.ofInt b.hash = Int64.ofInt v.hashCode → b.hash = v.hashCode := by
    intro b hb hsame
    obtain ⟨k, -, hhash⟩ := mem_bucketsOf hb
    rw [hhash] at hsame ⊢
    exact ofInt_hashCode_inj hsame
  have htarget := switchTarget_buckets fallback hlength hinj
  rw [bucketFor?_bucketsOf] at htarget
  rw [← find?_keysWith hproper hproperKeys]
  by_cases hnone : keysWith v.hashCode keys = []
  · rw [if_pos hnone] at htarget
    rw [hnone]
    refine through_jump (hchoose (n := 2) rfl) (by omega) (step_lookupSwitch hashes labels fallback rfl) ?_ (.refl _)
    rw [htarget]
    exact hfallback
  · rw [if_neg hnone] at htarget
    obtain ⟨l, hl, htarget⟩ := htarget
    obtain ⟨before, behind, tests, hblocks, htests⟩ := hblocks _ hl
    replace htests : tests.map Prod.fst = keysWith v.hashCode keys := htests
    have hbucket : b.items.toList = (front ++ choosing.map .instruction ++ before) ++
        (bucketItems temp dispatch fallback l tests ++
          (behind ++ .label dispatch :: .instruction (.tableSwitch 0 branches fallback) :: back)) := by
      simp [hchoosing, hblocks]
    have htested : ∀ q ∈ tests, ∀ w, constantValue w q.1.constant = .ok q.1.value := by
      intro q hq
      have hmem : q.1 ∈ keysWith v.hashCode keys := htests ▸ List.mem_map_of_mem hq
      exact (hkeys _ (List.mem_of_mem_filter hmem)).constant
    have hwithin : place b (front ++ choosing.map .instruction ++ before ++
        bucketItems temp dispatch fallback l tests) ≤ place b (front ++ choosing.map .instruction ++ blocks) := by
      rw [hblocks, ← List.append_assoc, ← List.append_assoc]
      exact place_le_append b _ behind
    have hbefore := place_le_append b (front ++ choosing.map .instruction) before
    obtain ⟨hl, hthrough⟩ : jumpTarget body.code l = _ ∧ Through call body _ _ (r.at _ stack) _ :=
      bucket_through hb hbucket hdispatch hfallback htested hv
    rw [htests] at hthrough
    refine through_jump (hchoose (n := 2) rfl) (by omega) (step_lookupSwitch hashes labels fallback rfl)
      (htarget ▸ hl) ?_
    refine (hthrough.mono (by omega) (by omega)).trans ?_
    cases hfind : (keysWith v.hashCode keys).find? fun k => v == k.value with
    | none => exact .refl _
    | some k =>
      have hmem := List.mem_of_mem_filter (List.mem_of_find?_eq_some hfind)
      exact (tableSwitch_through htable (hkeys k hmem).branch hmany hstarts).mono (by omega) (by omega)

end Switch

/-! ### The whole form -/

/-- The states in which the branches of a case are compiled, and its fallback. -/
structure CaseCode (h : Handlers) (span : Span) (clauses : CaseClauses) (temp : Nat) (t : FormState)
    (bodies : Nat → FormState) (fallback : FormState) : Prop where
  body : ∀ (n : Nat) (body : Datum), clauses.branches[n]? = some body →
    ∃ e, h.compile body (bodies n) = .ok () e ∧ (view e).code.items.toList <+: (view t).code.items.toList
  fallback : ∃ e, compileFallback h temp span clauses.fallback fallback = .ok () e ∧
    (view e).code.items.toList <+: (view t).code.items.toList

section Clauses

variable {h : Handlers} {s t : FormState} {u : Unit} {temp : Nat} {clauses : CaseClauses} {span : Span}

/-- What is left to do behind the last arm adds the label there, and fills no holes but those of the arms. -/
theorem joined_code {arms : List Arm} {base : List StackRecord} {v : View} {last : Label} {joined : Option Ty}
    {s₁ s₂ s₃ : FormState} (hbase : base.contains .unreachable = false) (hclosed : Closed v (view s) arms)
    (h₁ : FormM.place last s = .ok () s₁) (h₂ : FormM.modifyCode (fun c => c.freeSlot temp) s₁ = .ok () s₂)
    (h₃ : joinArms arms s₂ = .ok joined s₃) (hrun : FormM.settle base joined s₃ = .ok u t) :
    (view t).code.items.toList = (view s).code.items.toList ++ [Item.label last] ∧
      ∀ i, i ∉ arms.map Arm.hole → (view t).code.holes[i]? = (view s).code.holes[i]? := by
  obtain ⟨slots, log, hslots, -⟩ := freeSlot_eq (view s₁).code temp
  have hcode₂ : (view s₂).code = { (view s₁).code with freeSlots := slots, transfers := log } := by
    rw [modifyCode_ok h₂, ← hslots]
    rfl
  have hholes₂ : (view s₂).code.holes = (view s).code.holes := by
    rw [hcode₂, modifyCode_ok h₁]
    rfl
  obtain ⟨holes, hview₃, -, hsame, -⟩ := joinArms_ok (by rw [modifyCode_ok h₂]; simp) hclosed.nodup
    (fun arm harm => hholes₂ ▸ hclosed.empty arm harm) h₃
  rw [settle_ok hbase hrun, hview₃]
  refine ⟨?_, fun i hi => ?_⟩
  · change (view s₂).code.items.toList = _
    rw [hcode₂, ← items_place h₁]
  · rw [← hholes₂]
    exact hsame i hi

/-- A value in its slot takes control to the branch of the key that equals it. -/
theorem clauses_dispatch [Libraries] (hc : Compiles h) (hv : Valid (view s)) (hloops : LoopsMade (view s))
    (hlive : (view s).stack.isUnreachable = false) (htemp : temp < (view s).code.nextSlot)
    (hkeys : ∀ k ∈ clauses.keys, k.Sound clauses.branches.length)
    (hnone : clauses.keys = [] → clauses.branches = []) (hmany : clauses.branches.length ≤ 2 ^ 63)
    (hrun : (do
      let fallback ← FormM.newLabel
      let last ← FormM.newLabel
      let branches ← labelsFor clauses.branches
      emitSwitch (view s).stack.records temp fallback branches clauses.keys
      let arms ← (clauses.branches.zip branches).mapM fun (body, l) =>
        compileBranch h (view s).stack.records last body l
      startAt (view s).stack.records fallback
      compileFallback h temp span clauses.fallback
      let arm ← closeArm last
      FormM.place last
      FormM.modifyCode fun c => c.freeSlot temp
      FormM.settle (view s).stack.records (← joinArms (arms ++ [arm]))) s = .ok u t) :
    ∃ bodies fallback, CaseCode h span clauses temp t bodies fallback ∧
      ∀ (b : CodeBuffer) (body : Body) (call : Caller) (r : Running) (v : Value) (stack : List Value),
        Finished b body.code → Contains b (view s) (view t) → r.frame.locals[temp]? = some v → v.isProper = true →
        ∃ last, (∀ n < clauses.branches.length, last ≤ positionIn b (view (bodies n)) ∧
            positionIn b (view (bodies n)) < positionIn b (view fallback)) ∧
          last ≤ positionIn b (view fallback) ∧
          Through call body (positionIn b (view s)) last (r.at (positionIn b (view s)) stack)
            (r.at (match clauses.keys.find? fun k => k.value == v with
              | some k => positionIn b (view (bodies k.branch))
              | none => positionIn b (view fallback)) stack) := by
  obtain ⟨fallback, s₁, h₁, hrun⟩ := State.ok_of_bind hrun
  obtain ⟨last, s₂, h₂, hrun⟩ := State.ok_of_bind hrun
  obtain ⟨branches, s₃, h₃, hrun⟩ := State.ok_of_bind hrun
  obtain ⟨⟨⟩, s₄, h₄, hrun⟩ := State.ok_of_bind hrun
  obtain ⟨arms, s₅, h₅, hrun⟩ := State.ok_of_bind hrun
  obtain ⟨⟨⟩, s₆, h₆, hrun⟩ := State.ok_of_bind hrun
  obtain ⟨⟨⟩, s₇, h₇, hrun⟩ := State.ok_of_bind hrun
  obtain ⟨arm, s₈, h₈, hrun⟩ := State.ok_of_bind hrun
  obtain ⟨⟨⟩, s₉, h₉, hrun⟩ := State.ok_of_bind hrun
  obtain ⟨⟨⟩, s₁₀, h₁₀, hrun⟩ := State.ok_of_bind hrun
  obtain ⟨joined, s₁₁, h₁₁, hrun⟩ := State.ok_of_bind hrun
  obtain ⟨-, -, hclosed, -, -, hlength, hclosed', hswitch, hfallback, hbranches⟩ :=
    clauses_grown hc hv hlive htemp h₁ h₂ h₃ h₄ h₅ h₆ h₇ h₈ joined
  have hbase : (view s).stack.records.contains .unreachable = false := hlive
  -- the code ends with the fallback and the label behind it, and only holes of arms are filled then
  obtain ⟨hitems, hholes⟩ := joined_code hbase hclosed h₉ h₁₀ h₁₁ hrun
  obtain ⟨-, -, xs, hitems₈, -⟩ := closeArm_items h₈
  obtain ⟨hitems₆, -⟩ := startAt_items hbase h₆
  have hitems' : (view s₈).code.items.toList <+: (view t).code.items.toList := hitems ▸ List.prefix_append _ _
  have hahead₇ : (view s₇).code.items.toList <+: (view s₈).code.items.toList := hitems₈ ▸ List.prefix_append _ _
  have hahead₅ : (view s₅).code.items.toList <+: (view s₇).code.items.toList :=
    (hitems₆ ▸ List.prefix_append _ _).trans hfallback
  have hexists : ∀ n : Nat, ∃ first, n < clauses.branches.length → ∃ body l e,
      clauses.branches[n]? = some body ∧ branches[n]? = some l ∧ BranchIn h body l arms first e (view s₅) ∧
        Since (view s) (view first) ∧ (view first).loops = (view s).loops ∧
        (view s₄).code.items.toList <+: (view first).code.items.toList := by
    intro n
    by_cases hn : n < clauses.branches.length
    · have hn' : n < branches.length := hlength ▸ hn
      have hq : (clauses.branches.zip branches)[n]? = some (clauses.branches[n], branches[n]) :=
        List.getElem?_zip_eq_some.mpr ⟨List.getElem?_eq_getElem hn, List.getElem?_eq_getElem hn'⟩
      obtain ⟨first, e, hbranch⟩ := hbranches n _ hq
      exact ⟨first, fun _ => ⟨_, _, e, List.getElem?_eq_getElem hn, List.getElem?_eq_getElem hn', hbranch⟩⟩
    · exact ⟨s, fun hlt => absurd hlt hn⟩
  choose bodies hbody using hexists
  refine ⟨bodies, s₆, ⟨?_, s₇, h₇, hahead₇.trans hitems'⟩, ?_⟩
  · intro n body hn
    obtain ⟨body', l, e, hn', -, hbranch, -⟩ := hbody n (List.getElem?_eq_some_iff.mp hn).1
    obtain rfl := Option.some.inj (hn.symm.trans hn')
    exact ⟨e, hbranch.compiled, hbranch.ahead.trans (hahead₅.trans (hahead₇.trans hitems'))⟩
  intro b body call r v stack hb hcontains hv' hproper
  have hahead₈ : Ahead (view s₈) b := hitems'.trans hcontains.ahead
  have hahead : Ahead (view s₅) b := hahead₅.trans (hahead₇.trans hahead₈)
  have hfall : jumpTarget body.code fallback = .ok (positionIn b (view s₆)) :=
    label_placed hb hitems₆ (hfallback.trans (hahead₇.trans hahead₈))
  have hplace₆ : positionIn b (view s₆) = positionIn b (view s₅) := by
    rw [positionIn, hitems₆, place_append]
    rfl
  have hadvances : ∀ n < clauses.branches.length, positionIn b (view s₄) ≤ positionIn b (view (bodies n)) ∧
      positionIn b (view (bodies n)) < positionIn b (view s₆) := by
    intro n hn
    obtain ⟨_, l, e, -, -, hbranch, hsince, hloops', ys, hys⟩ := hbody n hn
    refine ⟨Ahead.positionIn_le hys.symm b, hplace₆ ▸ hbranch.advances ?_ b ?_ hahead⟩
    · exact hloops.mono hloops' hsince.labels_le
    · exact (hbranch.extend (hahead₅.trans hahead₇) hclosed').contained hsince hitems' hholes hcontains
  have hstarts : ∀ (n : Nat) l, branches[n]? = some l →
      jumpTarget body.code l = .ok (positionIn b (view (bodies n))) := by
    intro n l hn
    obtain ⟨_, l', e, -, hn', hbranch, -⟩ := hbody n (hlength ▸ (List.getElem?_eq_some_iff.mp hn).1)
    obtain rfl := Option.some.inj (hn.symm.trans hn')
    obtain ⟨front, hfront⟩ := hbranch.label
    exact label_placed hb hfront ((hbranch.grows.trans hbranch.ahead).trans hahead)
  have hstart : (view s₃).code.items = (view s).code.items ∧ (view s₃).stack = (view s).stack := by
    obtain ⟨-, hitems₃, hstack₃⟩ := labelsFor_items h₃
    rw [hitems₃, hstack₃, (onCode_ok h₂).2, (onCode_ok h₁).2]
    exact ⟨rfl, rfl⟩
  obtain ⟨ys, hys⟩ := hswitch
  refine ⟨positionIn b (view s₄), hadvances, hplace₆ ▸ Ahead.positionIn_le hys.symm b, ?_⟩
  by_cases hempty : clauses.keys = []
  · -- nothing is tested, and there are no branches
    have h₄' : s₃ = s₄ := by
      simp only [emitSwitch, hempty, List.isEmpty_nil, if_true] at h₄
      exact (EStateM.Result.ok.inj h₄).2
    have h₅' : s₄ = s₅ := by
      simp only [hnone hempty, List.zip_nil_left, List.mapM_nil] at h₅
      exact (EStateM.Result.ok.inj h₅).2
    rw [hempty, hplace₆, ← h₅', ← h₄', positionIn_of_items hstart.1]
    exact .refl _
  · have hlive₃ : (view s₃).stack.isUnreachable = false := by rwa [hstart.2]
    obtain ⟨labels, dispatch, blocks, hlabels, hitems₄, hblocks⟩ := emitSwitch_items hempty hbase hlive₃ h₄
    obtain ⟨back, hback⟩ := hahead
    have hsplit : b.items.toList = (view s₃).code.items.toList ++ (switchItems temp fallback branches
        ((bucketsOf clauses.keys).map fun b => Int64.ofInt b.hash) labels dispatch blocks ++ (ys ++ back)) := by
      rw [← hback, ← hys, hitems₄]
      simp
    have hthrough : Through call body _ _ (r.at _ stack) _ := switch_through hb hsplit hlabels hblocks
      (by rwa [hlength]) (by rwa [hlength]) hfall hstarts hv' hproper
    rw [← hitems₄, hstart.1] at hthrough
    exact hthrough

end Clauses

/-- Computes the subject of a case and puts it in a slot. -/
def storeSubject (h : Handlers) (subject : Datum) : FormM Nat := do
  FormM.withTail false (h.compile subject)
  FormM.boxTop
  let temp ← FormM.allocSlot
  FormM.emit (.store temp .any)
  return temp

section Case

variable {h : Handlers} {s t : FormState} {d subject : Datum} {clauses : CaseClauses} {v : Value}

/-- Evaluated, a case goes on with a form once its subject has come to a value. -/
def GoesOnWith [Libraries] (h : Handlers) (d subject : Datum) (v : Value) (body : Datum) : Prop :=
  ∀ s t, FormM.withTail false (h.evaluate subject) s = .ok v t → evaluateCase h d s = h.evaluate body t

/-- Evaluated, a case goes on with the branch of the first key that equals the value, or with the fallback. -/
theorem evaluateCase_chosen [Libraries] {body : Datum} (hparts : caseParts d = .ok (subject, clauses))
    (hchosen : (((clauses.keys.find? fun k => k.value == v).bind fun k => clauses.branches[k.branch]?) <|>
      clauses.fallback) = some body) :
    GoesOnWith h d subject v body := by
  intro s t hsubject
  have hread : FormM.ofExcept (caseParts d) s = .ok (subject, clauses) s := by
    rw [hparts]
    rfl
  rw [evaluateCase, State.bind_of_ok hread]
  dsimp only
  rw [State.bind_of_ok hsubject, hchosen]

end Case

/-- The dispatch of a case finds the branch that a search through its keys finds.

Either control does not get behind the subject, or the subject is in a slot where the dispatch starts.  From
there every value takes control straight to the code of the branch whose key equals it, which is the branch
that evaluation goes on with; and to the code of the fallback exactly if no key does. -/
theorem case_dispatch [Libraries] (fuel : Nat) {d subject : Datum} {clauses : CaseClauses} {s t : FormState}
    (hv : Valid (view s)) (hloops : LoopsMade (view s)) (hparts : caseParts d = .ok (subject, clauses))
    (hmany : clauses.branches.length ≤ 2 ^ 63) (hrun : compileCase (handlers fuel) d s = .ok () t) :
    (FormM.withTail false ((handlers fuel).compile subject) s = .ok () t ∧ (view t).reach = none) ∨
    ∃ temp start bodies fallback, storeSubject (handlers fuel) subject s = .ok temp start ∧
      CaseCode (handlers fuel) d.span clauses temp t bodies fallback ∧
      ∀ (b : CodeBuffer) (body : Body) (call : Caller) (r : Running) (v : Value),
        Finished b body.code → Contains b (view s) (view t) → r.frame.pc = positionIn b (view start) →
        r.frame.locals[temp]? = some v → v.isProper = true →
        ∃ last target, (∀ n < clauses.branches.length, last ≤ positionIn b (view (bodies n))) ∧
          last ≤ positionIn b (view fallback) ∧
          Through call body r.frame.pc last r (r.at target r.frame.stack) ∧
          (∀ k, clauses.keys.find? (fun k => k.value == v) = some k →
            target = positionIn b (view (bodies k.branch)) ∧
            ∃ form, clauses.branches[k.branch]? = some form ∧ GoesOnWith (handlers fuel) d subject v form) ∧
          (target = positionIn b (view fallback) ↔ ∀ k ∈ clauses.keys, (k.value == v) = false) ∧
          ((∀ k ∈ clauses.keys, (k.value == v) = false) → ∀ form, clauses.fallback = some form →
            GoesOnWith (handlers fuel) d subject v form) := by
  obtain ⟨hkeys, hnone⟩ := caseParts_sound hparts
  have hc := compiles_handlers fuel
  obtain ⟨⟨subject', clauses'⟩, s₁, h₁, hrun⟩ := State.ok_of_bind hrun
  obtain ⟨hparts', rfl⟩ := ofExcept_ok h₁
  obtain ⟨rfl, rfl⟩ := Prod.mk.inj (Except.ok.inj (hparts.symm.trans hparts'))
  obtain ⟨⟨⟩, s₁, h₁, hrun⟩ := State.ok_of_bind hrun
  obtain ⟨w, g₁, hw⟩ := (Grown.ofValid hv).compilePart hc h₁
  obtain ⟨dead, s₂, h₂, hrun⟩ := State.ok_of_bind hrun
  obtain ⟨rfl, rfl⟩ := isUnreachable_run g₁ h₂
  split at hrun
  · rename_i hdead
    cases hrun
    exact .inl ⟨h₁, reach_of_dead hdead⟩
  rename_i hlive
  rw [Bool.not_eq_true] at hlive
  obtain ⟨⟨⟩, s₂, h₂, hrun⟩ := State.ok_of_bind hrun
  obtain ⟨g₂, -⟩ := g₁.boxTop hw.top h₂
  obtain ⟨temp, s₃, h₃, hrun⟩ := State.ok_of_bind hrun
  obtain ⟨g₃, htemp₃, hs₃⟩ := g₂.allocSlot h₃
  obtain ⟨⟨⟩, s₄, h₄, hrun⟩ := State.ok_of_bind hrun
  have g₃ : Grown (terms (view s)) (view s) (0 + Ty.any.width) (view s₃) := g₃
  obtain ⟨g₄, htemp⟩ := g₃.store htemp₃ h₄
  have hlive₄ := live_emit h₄ rfl (hs₃ ▸ live_boxTop h₂ hlive)
  have hstore : storeSubject (handlers fuel) subject s = .ok temp s₄ := by
    rw [storeSubject, State.bind_of_ok h₁, State.bind_of_ok h₂, State.bind_of_ok h₃, State.bind_of_ok h₄]
    rfl
  obtain ⟨stack, s₅, h₅, hrun⟩ := State.ok_of_bind hrun
  obtain ⟨rfl, rfl, -⟩ := stack_ok h₅
  obtain ⟨bodies, fallback, hcode, hdispatch⟩ := clauses_dispatch hc g₄.valid
    (hloops.mono g₄.loops g₄.since.labels_le) hlive₄ htemp hkeys hnone hmany hrun
  refine .inr ⟨temp, s₄, bodies, fallback, hstore, hcode, ?_⟩
  intro b body call r v hb hcontains hpc hslot hproper
  have hcontains₄ : Contains b (view s₄) (view t) :=
    ⟨hcontains.ahead, fun i hi => hcontains.filled i (Nat.le_trans g₄.since.holes_le hi)⟩
  obtain ⟨last, hafter, hlast, hthrough⟩ := hdispatch b body call r v r.frame.stack hb hcontains₄ hslot hproper
  rw [← hpc] at hthrough
  have hunmatched : (∀ k ∈ clauses.keys, (k.value == v) = false) ↔
      clauses.keys.find? (fun k => k.value == v) = none := by
    simp
  rw [hunmatched]
  refine ⟨last, _, fun n hn => (hafter n hn).1, hlast, hthrough, fun k hk => ?_, ?_, fun hk form hform => ?_⟩
  · have hbranch := List.getElem?_eq_getElem (hkeys k (List.mem_of_find?_eq_some hk)).branch
    rw [hk]
    exact ⟨rfl, _, hbranch, evaluateCase_chosen hparts (by rw [hk, Option.bind_some, hbranch]; rfl)⟩
  · cases hk : clauses.keys.find? fun k => k.value == v with
    | none => simp
    | some k =>
      have hbranch := (hkeys k (List.mem_of_find?_eq_some hk)).branch
      simpa using Nat.ne_of_lt (hafter _ hbranch).2
  · exact evaluateCase_chosen hparts (by rw [hk, Option.bind_none, hform]; rfl)

/-- A method to compile into. -/
def methodAlone : FormState where
  world := {}
  classes := #[{ file := { name := "T", superclass := Names.object }, mode := .closure }]
  methods := [{ owner := 0 }]

/-- Keys that collide: the texts have one hash. -/
def collidingCase : Datum :=
  .ofList [.symbol "case" default, .ofAtom (.str "BB") default, .ofAtom (.str "Aa") default, .ofAtom (.int 1) default,
    .ofAtom (.str "BB") default, .ofAtom (.int 2) default, .ofAtom (.int 3) default] default

theorem valid_methodAlone : Valid (view methodAlone) := by
  refine ⟨by simp [view, methodAlone], ⟨Nat.le_refl _, fun h => by cases h⟩, ?_, ?_, ?_, ?_, ?_⟩
  · exact ⟨List.nodup_nil, by simp [view, methodAlone, View.code, View.work], rfl⟩
  all_goals simp [view, methodAlone, View.code, View.work]

/-- A running method with one local. -/
def withLocal (pc : Nat) (v : Value) : Running := ⟨{ pc, locals := #[v] }, {}⟩

/-- Two keys of one hash, and only the second equals the subject. -/
theorem colliding_keys_dispatch :
    ∃ (t start : FormState) (b : CodeBuffer) (code : Code) (bodies : Nat → FormState),
      compileCase (handlers 3) collidingCase methodAlone = .ok () t ∧ b = (view t).code.push (.ret .long) ∧
      b.finish 9 = .ok code ∧ (∃ e, (handlers 3).compile (.ofAtom (.int 2) default) (bodies 1) = .ok () e) ∧
      ∀ call, ∃ last, Through call ⟨code, [], 0⟩ (positionIn b (view start)) last
        (withLocal (positionIn b (view start)) (.str "BB"))
        (withLocal (positionIn b (view (bodies 1))) (.str "BB")) := by
  obtain ⟨⟨⟩, t, hrun, hends⟩ := State.exists_answer (r := compileCase (handlers 3) collidingCase methodAlone)
    (p := fun q => (!(view q.2).stack.isUnreachable) && (((view q.2).code.push (.ret .long)).finish 9).isOk)
    (by decide +kernel)
  obtain ⟨subject, clauses, hparts, hsubject, htwo, hsecond, hfound⟩ : ∃ subject clauses,
      caseParts collidingCase = .ok (subject, clauses) ∧ subject = .ofAtom (.str "BB") default ∧
        clauses.branches.length = 2 ∧ clauses.branches[1]? = some (.ofAtom (.int 2) default) ∧
        (clauses.keys.find? fun k => k.value == .str "BB").map CaseKey.branch = some 1 :=
    ⟨_, _, rfl, rfl, rfl, rfl, by decide +kernel⟩
  obtain ⟨temp, start, hstore, htemp⟩ := State.exists_answer (r := storeSubject (handlers 3) subject methodAlone)
    (p := fun q => q.1 == 0) (by rw [hsubject]; decide +kernel)
  obtain rfl : temp = 0 := by simpa using htemp
  rw [Bool.and_eq_true, Bool.not_eq_true'] at hends
  obtain ⟨code, hcode⟩ : ∃ code, ((view t).code.push (.ret .long)).finish 9 = .ok code := by
    cases hfinish : ((view t).code.push (.ret .long)).finish 9 with
    | ok code => exact ⟨code, rfl⟩
    | error e =>
      rw [hfinish] at hends
      cases hends.2
  obtain ⟨_, g, -⟩ := compileCase_leaves (compiles_handlers 3) valid_methodAlone hrun
  obtain ⟨k, hk, hbranch⟩ := Option.map_eq_some_iff.mp hfound
  rcases case_dispatch 3 valid_methodAlone (by simp [LoopsMade, view, methodAlone]) hparts (by omega) hrun with
    ⟨-, hdead⟩ | ⟨temp, start', bodies, fallback, hstore', hcode', hdispatch⟩
  · rw [View.reach_of_live hends.1] at hdead
    cases hdead
  · obtain ⟨rfl, rfl⟩ := EStateM.Result.ok.inj (hstore.symm.trans hstore')
    obtain ⟨e, hcompile, -⟩ := hcode'.body 1 _ hsecond
    refine ⟨t, start, _, code, bodies, hrun, rfl, hcode, ⟨e, hcompile⟩, fun call => ?_⟩
    have hcontains : Contains ((view t).code.push (.ret .long)) (view methodAlone) (view t) :=
      ⟨by simp [Ahead, CodeBuffer.push], fun _ _ _ => rfl⟩
    obtain ⟨last, target, -, -, hthrough, htarget, -⟩ := hdispatch _ ⟨code, [], 0⟩ call
      (withLocal _ (.str "BB")) (.str "BB") ⟨g.valid.orderly.push _, 9, hcode⟩ hcontains rfl rfl rfl
    obtain ⟨rfl, -⟩ := htarget k hk
    rw [hbranch] at hthrough
    exact ⟨last, hthrough⟩

end LispMachine.Emission
