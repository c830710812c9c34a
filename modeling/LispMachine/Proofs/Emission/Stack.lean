import LispMachine.Bytecode.Coercion
import LispMachine.Bytecode.TypeStack
import LispMachine.Proofs.Verifier.Depths

/-! # Widths on the operand stack

The compiler follows the operand stack by records, the verifier by slots.  What ties the two is the list
of widths.  `Over base k` says that widths stand `k` slots above others: whatever was taken away below
had no width.  `apply_ok` gives what an effect does to widths, and `Conversion` what a sequence of
instructions does that turns one value into another. -/

namespace LispMachine.Emission

/-! ### One stack above another -/

section Over

variable {base ws : List Nat} {k : Nat}

/-- Widths that stand `k` slots above others, of which only some without width may be gone. -/
def Over (base : List Nat) (k : Nat) (ws : List Nat) : Prop :=
  ∃ gone kept above, base = gone ++ kept ∧ ws = above ++ kept ∧ gone.sum = 0 ∧ above.sum = k

namespace Over

theorem refl (base : List Nat) : Over base 0 base := ⟨[], base, [], rfl, rfl, rfl, rfl⟩

theorem sum (h : Over base k ws) : ws.sum = base.sum + k := by
  obtain ⟨gone, kept, above, rfl, rfl, hzero, rfl⟩ := h
  rw [List.sum_append_nat, List.sum_append_nat]
  omega

theorem push (h : Over base k ws) (xs : List Nat) : Over base (k + xs.sum) (xs ++ ws) := by
  obtain ⟨gone, kept, above, rfl, rfl, hzero, rfl⟩ := h
  refine ⟨gone, kept, xs ++ above, rfl, by simp, hzero, ?_⟩
  rw [List.sum_append_nat, Nat.add_comm]

theorem cons {w : Nat} (h : Over base k ws) : Over base (k + w) (w :: ws) := by
  simpa using h.push [w]

/-- Taking away no more than stands above the base leaves the rest above it. -/
theorem pop {xs rest : List Nat} (h : Over base k (xs ++ rest)) (hle : xs.sum ≤ k) :
    Over base (k - xs.sum) rest := by
  obtain ⟨gone, kept, above, rfl, happend, hzero, rfl⟩ := h
  rcases List.append_eq_append_iff.1 happend with ⟨more, rfl, rfl⟩ | ⟨more, rfl, rfl⟩
  · refine ⟨gone, kept, more, rfl, rfl, hzero, ?_⟩
    rw [List.sum_append_nat]
    omega
  · -- all that stood above is gone, and the rest of what went had no width
    rw [List.sum_append_nat] at hle
    refine ⟨gone ++ more, rest, [], by simp, rfl, ?_, ?_⟩
    · rw [List.sum_append_nat]
      omega
    · rw [List.sum_append_nat, List.sum_nil]
      omega

theorem trans {mid : List Nat} {l : Nat} (h : Over base k mid) (h' : Over mid l ws) :
    Over base (k + l) ws := by
  obtain ⟨gone, kept, above, rfl, rfl, hzero, rfl⟩ := h'
  have hkept := h.pop (by omega)
  rw [hzero, Nat.sub_zero] at hkept
  exact hkept.push above

theorem eq_replicate_of_sum {xs : List Nat} (h : xs.sum = 0) : xs = List.replicate xs.length 0 := by
  induction xs with
  | nil => rfl
  | cons x xs ih =>
      rw [List.sum_cons] at h
      rw [List.length_cons, List.replicate_succ, ← ih (by omega)]
      congr
      omega

/-- One record more, which holds all the slots above the base: nothing below has changed. -/
theorem eq_cons (h : Over base k ws) (hlength : ws.length = base.length + 1)
    (htop : k = 0 ∨ ws.head? = some k) : ws = k :: base := by
  obtain ⟨gone, kept, above, rfl, rfl, hzero, hk⟩ := h
  rw [List.length_append, List.length_append] at hlength
  cases above with
  | nil =>
      rw [List.length_nil] at hlength
      omega
  | cons w rest =>
      have hw : w = k ∧ rest.sum = 0 := by
        rw [List.sum_cons] at hk
        rcases htop with rfl | htop
        · omega
        · obtain rfl : w = k := by simpa using htop
          omega
      obtain ⟨rfl, hrest⟩ := hw
      have hlen : rest.length = gone.length := by
        rw [List.length_cons] at hlength
        omega
      rw [List.cons_append, eq_replicate_of_sum hrest, hlen, ← eq_replicate_of_sum hzero]

end Over

end Over

/-! ### Records and widths -/

section Records

variable {s t : TypeStack}

/-- The widths of the records, the top first. -/
def widths (s : TypeStack) : List Nat := s.records.map StackRecord.width

theorem slots_eq (records : List StackRecord) :
    TypeStack.slots records = (records.map StackRecord.width).sum := rfl

theorem sum_widths (s : TypeStack) : (widths s).sum = s.depth := rfl

/-- The depth, if control gets here. -/
def reach (s : TypeStack) : Option Nat := if s.isUnreachable then none else some s.depth

theorem reach_of_live (h : s.isUnreachable = false) : reach s = some s.depth := by
  simp [reach, h]

theorem reach_of_dead (h : s.isUnreachable = true) : reach s = none := by
  simp [reach, h]

/-- The greatest depth counts, and where control does not get the top record says so. -/
structure Steady (s : TypeStack) : Prop where
  depth_le : s.depth ≤ s.max
  dead : s.isUnreachable = true → s.topType? = none

/-- A value that control gets to has a type. -/
theorem exists_topType (hlive : s.isUnreachable = false) {w : Nat} {ws : List Nat}
    (h : widths s = w :: ws) : ∃ ty, s.topType? = some ty ∧ ty.width = w := by
  cases hrecords : s.records with
  | nil => simp [widths, hrecords] at h
  | cons r rest =>
      cases r with
      | unreachable => simp [TypeStack.isUnreachable, hrecords] at hlive
      | typed ty c =>
          refine ⟨ty, by simp [TypeStack.topType?, hrecords], ?_⟩
          simp only [widths, hrecords, List.map_cons, List.cons.injEq] at h
          exact h.1

theorem topTypes_ok {n : Nat} {tys : List Ty} (h : s.topTypes n = .ok tys) :
    tys.length = n ∧ (tys.map Ty.width).reverse = (widths s).take n := by
  unfold TypeStack.topTypes at h
  split at h
  · cases h
  · rename_i hlen
    have hmap : ∀ {rs : List StackRecord} {tys : List Ty}, rs.mapM TypeStack.recordType = .ok tys →
        tys.map Ty.width = rs.map StackRecord.width := by
      intro rs
      induction rs with
      | nil =>
          intro tys h
          obtain rfl : [] = tys := Except.ok.inj h
          rfl
      | cons r rs ih =>
          intro tys h
          rw [List.mapM_cons] at h
          obtain ⟨ty, hty, h⟩ := bind_ok h
          obtain ⟨rest, hrest, h⟩ := bind_ok h
          obtain rfl := Except.ok.inj h
          cases r with
          | unreachable => cases hty
          | typed ty' c =>
              obtain rfl := Except.ok.inj hty
              simp [StackRecord.width, ih hrest]
    have hwidths := hmap h
    rw [List.map_reverse] at hwidths
    constructor
    · have hlength := congrArg List.length hwidths
      simp only [List.length_map, List.length_reverse, List.length_take] at hlength
      omega
    · rw [hwidths, List.reverse_reverse, List.map_take]
      rfl

end Records

/-! ### Effects -/

section Effects

variable {s t : TypeStack}

theorem popAll_ok {tys : List Ty} (h : s.popAll tys = (.ok (), t)) :
    t.max = s.max ∧ ∃ popped, s.records = popped ++ t.records ∧
      popped.map StackRecord.width = tys.map Ty.width := by
  induction tys generalizing s with
  | nil =>
      obtain rfl : s = t := (Prod.mk.inj h).2
      exact ⟨rfl, [], rfl, rfl⟩
  | cons ty tys ih =>
      cases hrecords : s.records with
      | nil => simp [TypeStack.popAll, TypeStack.pop, hrecords] at h
      | cons r rest =>
          simp only [TypeStack.popAll, TypeStack.pop, hrecords] at h
          split at h
          · cases (Prod.mk.inj h).1
          · rename_i hwidth
            obtain ⟨hmax, popped, hrest, hpopped⟩ := ih h
            refine ⟨hmax, r :: popped, congrArg (r :: ·) hrest, ?_⟩
            simp only [ne_eq, Decidable.not_not] at hwidth
            simp [hpopped, hwidth]

/-- The widths of what an effect takes, the top first. -/
def operands : Effect → List Nat
  | .ops pops _ => (pops.map Ty.width).reverse
  | .dupTop => []

theorem sum_operands (e : Effect) : (operands e).sum = e.popped := by
  cases e with
  | dupTop => rfl
  | ops pops push => exact List.sum_reverse_nat _

/-- The widths of what an effect leaves. -/
def results : Effect → List Nat
  | .ops _ push => (push.map Ty.width).toList
  | .dupTop => [1]

theorem sum_results (e : Effect) : (results e).sum = e.pushed := by
  cases e with
  | dupTop => rfl
  | ops pops push => cases push <;> rfl

/-- What an effect does where control gets: widths go from the top, others come. -/
structure Applied (s : TypeStack) (e : Effect) (t : TypeStack) : Prop where
  live : t.isUnreachable = false
  needs : e.needs ≤ s.depth
  max_le : s.max ≤ t.max
  depth_le : s.depth ≤ s.max → t.depth ≤ t.max
  widths : ∃ rest, widths s = operands e ++ rest ∧ Emission.widths t = results e ++ rest

theorem live_of_suffix {rs rest : List StackRecord} (h : (rs ++ rest).contains .unreachable = false) :
    rest.contains .unreachable = false := by
  simp only [List.contains_eq_mem, List.mem_append, decide_eq_false_iff_not, not_or] at h ⊢
  exact h.2

theorem apply_ok {e : Effect} (hlive : s.isUnreachable = false) (h : s.apply e = (.ok (), t)) :
    Applied s e t := by
  unfold TypeStack.apply at h
  rw [hlive, if_neg (by simp)] at h
  cases e with
  | dupTop =>
      cases hrecords : s.records with
      | nil => simp [hrecords] at h
      | cons top rest =>
          simp only [hrecords] at h
          split at h
          · cases (Prod.mk.inj h).1
          · rename_i hwidth
            simp only [ne_eq, Decidable.not_not] at hwidth
            obtain rfl := (Prod.mk.inj h).2
            have hdepth : 1 ≤ s.depth := by
              simp [TypeStack.depth, slots_eq, hrecords, hwidth]
            refine ⟨?_, hdepth, Nat.le_max_left _ _, fun _ => Nat.le_max_right _ _, ?_⟩
            · simp only [TypeStack.isUnreachable, hrecords] at hlive
              simpa [TypeStack.isUnreachable, TypeStack.withRecords] using hlive
            · refine ⟨widths s, rfl, ?_⟩
              simp [widths, results, TypeStack.withRecords, hrecords, hwidth]
  | ops pops push =>
      simp only at h
      split at h
      · cases (Prod.mk.inj h).1
      · rename_i mid hpop
        obtain ⟨hmax, popped, hrecords, hpopped⟩ := popAll_ok hpop
        have hsum : (popped.map StackRecord.width).sum = (pops.map Ty.width).sum := by
          rw [hpopped, List.map_reverse, List.sum_reverse_nat]
        have hdepth : s.depth = (pops.map Ty.width).sum + mid.depth := by
          simp only [TypeStack.depth, slots_eq, hrecords, List.map_append, List.sum_append_nat,
            hsum]
        have hmid : mid.isUnreachable = false := by
          simp only [TypeStack.isUnreachable, hrecords] at hlive
          exact live_of_suffix hlive
        have hwidths : widths s = operands (.ops pops push) ++ widths mid := by
          rw [operands, ← List.map_reverse, ← hpopped]
          simp [widths, hrecords]
        have hneeds : (Effect.ops pops push).needs ≤ s.depth := by
          rw [hdepth]
          exact Nat.le_add_right _ _
        cases push with
        | none =>
            obtain rfl := (Prod.mk.inj h).2
            exact ⟨hmid, hneeds, Nat.le_of_eq hmax.symm, fun hle => by omega, _, hwidths, rfl⟩
        | some ty =>
            obtain rfl := (Prod.mk.inj h).2
            refine ⟨?_, hneeds, ?_, fun _ => Nat.le_max_right _ _, ?_⟩
            · simpa [TypeStack.isUnreachable, TypeStack.push, TypeStack.withRecords] using hmid
            · exact hmax ▸ Nat.le_max_left _ _
            · exact ⟨_, hwidths, rfl⟩

end Effects

/-! ### Conversions -/

/-- An instruction that takes one value and leaves another, whatever stands around it. -/
structure Turns (a : Nat) (i : Instruction) (b : Nat) : Prop where
  effect : ∃ e, (∀ sites, i.effect sites = .ok e) ∧ e.needs = a ∧ e.popped = a ∧ e.pushed = b
  ends : i.endsBlock = false
  slot : i.slot? = none
  targets : i.targets = []

/-- Instructions that in turn take one value and leave another; only the last may leave a wider one. -/
inductive Conversion : Nat → List Instruction → Nat → Prop where
  | nil (a : Nat) : Conversion a [] a
  | cons {a b c : Nat} {i : Instruction} {rest : List Instruction} (h : Turns a i b)
      (hle : rest = [] ∨ b ≤ a) (hrest : Conversion b rest c) : Conversion a (i :: rest) c

theorem Conversion.eq_of_nil {a b : Nat} (h : Conversion a [] b) : a = b := by
  cases h
  rfl

theorem Conversion.ends {a b : Nat} {code : List Instruction} (h : Conversion a code b) :
    ∀ i ∈ code, i.endsBlock = false := by
  induction h with
  | nil => simp
  | cons hi _ _ ih => exact List.forall_mem_cons.mpr ⟨hi.ends, ih⟩

theorem Conversion.one {a b : Nat} {i : Instruction} (h : Turns a i b) : Conversion a [i] b :=
  .cons h (.inl rfl) (.nil b)

section Instructions

theorem turns_const (c : Constant) : Turns 0 (.const c) c.ty.width :=
  ⟨⟨_, fun _ => rfl, rfl, rfl, rfl⟩, rfl, rfl, rfl⟩

theorem turns_box (p : Prim) : Turns (Ty.prim p).width (.box p) 1 :=
  ⟨⟨_, fun _ => rfl, rfl, rfl, rfl⟩, rfl, rfl, rfl⟩

theorem turns_unbox (p : Prim) : Turns 1 (.unbox p) (Ty.prim p).width :=
  ⟨⟨_, fun _ => rfl, rfl, rfl, rfl⟩, rfl, rfl, rfl⟩

theorem turns_convert (p q : Prim) : Turns (Ty.prim p).width (.convert p q) (Ty.prim q).width :=
  ⟨⟨_, fun _ => rfl, rfl, rfl, rfl⟩, rfl, rfl, rfl⟩

theorem turns_checkCast (cls : String) : Turns 1 (.checkCast cls) 1 :=
  ⟨⟨_, fun _ => rfl, rfl, rfl, rfl⟩, rfl, rfl, rfl⟩

theorem turns_pop : Turns 1 .pop 0 := ⟨⟨_, fun _ => rfl, rfl, rfl, rfl⟩, rfl, rfl, rfl⟩

theorem turns_pop2 : Turns 2 .pop2 0 := ⟨⟨_, fun _ => rfl, rfl, rfl, rfl⟩, rfl, rfl, rfl⟩

end Instructions

theorem width_defaultOf (p : Prim) : (Coercion.defaultOf p).ty.width = (Ty.prim p).width := by
  cases p <;> rfl

theorem discard_conversion (ty : Ty) : Conversion ty.width (Coercion.discard ty) 0 := by
  unfold Coercion.discard
  rcases ty with _ | _ | (_ | _ | _ | _) | _
  case void => exact .nil 0
  case prim.long => exact .one turns_pop2
  case prim.double => exact .one turns_pop2
  all_goals exact .one turns_pop

theorem toBoxed_conversion (ty : Ty) : Conversion ty.width (Coercion.toBoxed ty) 1 := by
  cases ty with
  | any => exact .nil 1
  | void => exact .one (turns_const .nil)
  | prim p => exact .one (turns_box p)
  | cls name => exact .nil 1

theorem betweenPrims_conversion {p q : Prim} {code : List Instruction}
    (h : Coercion.betweenPrims p q = .ok code) :
    Conversion (Ty.prim p).width code (Ty.prim q).width := by
  unfold Coercion.betweenPrims at h
  split at h
  · obtain rfl := Except.ok.inj h
    exact .one (turns_convert .long .double)
  · obtain rfl := Except.ok.inj h
    exact .one (turns_convert .double .long)
  · cases h

theorem boxAs_conversion {r : Registry} {p : Prim} {target : String} {code : List Instruction}
    (h : Coercion.boxAs r p target = .ok code) : Conversion (Ty.prim p).width code 1 := by
  unfold Coercion.boxAs at h
  split at h
  · obtain rfl := Except.ok.inj h
    exact .one (turns_box p)
  · split at h
    · rename_i hlong
      obtain ⟨rfl, -⟩ := hlong
      obtain rfl := Except.ok.inj h
      exact .cons (turns_convert .long .double) (.inr (Nat.le_refl _)) (.one (turns_box .double))
    · cases h

theorem castTo_conversion {r : Registry} {source : Ty} {target : String} {code : List Instruction}
    (h : Coercion.castTo r source target = .ok code) : Conversion 1 code 1 := by
  unfold Coercion.castTo at h
  split at h
  · obtain rfl := Except.ok.inj h
    exact .nil 1
  · split at h
    · obtain rfl := Except.ok.inj h
      exact .one (turns_checkCast target)
    · cases h

theorem unbox_conversion {q : Prim} {possible : Bool} {e : Error} {code : List Instruction}
    (h : (if possible then .ok [.unbox q] else .error e) = (.ok code : Except Error _)) :
    Conversion 1 code (Ty.prim q).width := by
  split at h
  · obtain rfl := Except.ok.inj h
    exact .one (turns_unbox q)
  · cases h

/-- A coercion takes a value of the one type and leaves one of the other. -/
theorem coerce_conversion {r : Registry} {source target : Ty} {code : List Instruction}
    (h : Coercion.coerce r source target = .ok code) : Conversion source.width code target.width := by
  unfold Coercion.coerce at h
  split at h
  · rename_i heq
    obtain rfl := Except.ok.inj h
    rw [heq]
    exact .nil _
  · cases target with
    | void =>
        obtain rfl : Coercion.discard source = code := by cases source <;> exact Except.ok.inj h
        exact discard_conversion source
    | any =>
        cases source with
        | prim p =>
            obtain rfl := Except.ok.inj h
            exact .one (turns_box p)
        | void =>
            obtain rfl := Except.ok.inj h
            exact .one (turns_const .nil)
        | _ =>
            obtain rfl := Except.ok.inj h
            exact .nil 1
    | prim q =>
        cases source with
        | prim p => exact betweenPrims_conversion h
        | void =>
            obtain rfl := Except.ok.inj h
            exact .one (width_defaultOf q ▸ turns_const _)
        | _ => exact unbox_conversion h
    | cls name =>
        cases source with
        | prim p => exact boxAs_conversion h
        | void =>
            obtain rfl := Except.ok.inj h
            exact .one (turns_const .nil)
        | _ => exact castTo_conversion h

end LispMachine.Emission
