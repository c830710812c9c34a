import LispMachine.Proofs.CallSite.Relinking

/-! # Relinking is bounded and moves forward

Every relink of a site lowers `potential`, the number of relinks its stage and its budgets leave; a site
that decides every call anew, or has a target for good, has none left.  The chain and the table are kept
within the thresholds at the same time (`Fits`).  Both facts are proved for one stage after the other, in
the order in which a relink falls through them, and carried over all calls of a site by induction
(`relinking_bounded`). -/

namespace LispMachine

namespace Table

variable {α β : Type} [DecidableEq α]

theorem length_replace (k : α) (v : β) (es : List (α × β)) : (replace k v es).length = es.length := by
  induction es with
  | nil => rfl
  | cons e rest ih =>
    unfold replace
    split
    · rfl
    · simp only [List.length_cons, ih]

theorem length_insert_le (t : Table α β) (k : α) (v : β) :
    (t.insert k v).entries.length ≤ t.entries.length + 1 := by
  unfold insert
  split
  · rw [length_replace]
    exact Nat.le_succ _
  · exact Nat.le_refl _

end Table

namespace CallSite

variable {ε γ η : Type}

/-- The place of a stage in the order in which sites go through them. -/
def Stage.rank : Stage → Nat
  | .cold => 0
  | .monomorphic => 1
  | .polymorphic => 2
  | .megamorphic => 3
  | .unoptimized => 4

/-- An installed chain or table within the thresholds. -/
def Dispatch.Fits (t : Thresholds) : Dispatch γ η → Prop
  | .chain entries => (entries.length : Int) ≤ max 1 t.polymorphic
  | .table entries => (entries.entries.length : Int) ≤ max 0 t.megamorphic
  | _ => True

namespace Site

/-- Relinks the thresholds leave a site that is in a stage and has no target for good. -/
def remaining (t : Thresholds) (s : Site γ η) : Nat :=
  match s.stage with
  | .cold => 2 + t.monomorphic.toNat + t.polymorphic.toNat + t.megamorphic.toNat
  | .monomorphic =>
    1 + (t.monomorphic - s.spent).toNat + t.polymorphic.toNat + t.megamorphic.toNat
  | .polymorphic => 1 + (t.polymorphic - s.spent).toNat + t.megamorphic.toNat
  | .megamorphic => 1 + (t.megamorphic - s.spent).toNat
  | .unoptimized => 1

/-- Relinks a site can still go through. -/
def potential (t : Thresholds) (s : Site γ η) : Nat :=
  match s.dispatch with
  | .unguarded _ => 0
  | _ => s.remaining t

theorem potential_le_remaining (t : Thresholds) (s : Site γ η) : s.potential t ≤ s.remaining t := by
  unfold potential
  split
  · exact Nat.zero_le _
  · exact Nat.le_refl _

/-- A site without a target for some call has all its relinks before it. -/
theorem remaining_eq_potential {t : Thresholds} {s : Site γ η} {holds : γ → Bool}
    {key : Unit → Option ShapeKey} (h : s.select holds key = none) : s.remaining t = s.potential t := by
  cases hdispatch : s.dispatch with
  | unguarded target => simp [select, hdispatch] at h
  | cold => simp only [potential, hdispatch]
  | chain entries => simp only [potential, hdispatch]
  | table table => simp only [potential, hdispatch]

/-! ### Sizes -/

/-- What a site remembers and what it has installed stay within the thresholds.  The table has one entry at
most for every unit spent in the megamorphic stage, and none before. -/
structure Fits (t : Thresholds) (s : Site γ η) : Prop where
  chain : (s.chain.length : Int) ≤ max 1 t.polymorphic
  table : (s.table.entries.length : Int) ≤ max 0 t.megamorphic
  tableSpent : s.stage = .megamorphic → (s.table.entries.length : Int) ≤ s.spent
  tableBefore : s.stage.rank < Stage.megamorphic.rank → s.table.entries = []
  dispatch : s.dispatch.Fits t
  installed : s.installed.rank ≤ s.stage.rank

theorem fits_cold (t : Thresholds) : Fits t ({} : Site γ η) where
  chain := by simp only [List.length_nil]; omega
  table := by simp only [List.length_nil]; omega
  tableSpent h := nomatch h
  tableBefore _ := rfl
  dispatch := trivial
  installed := Nat.le_refl _

section Fits

variable {t : Thresholds} {s : Site γ η}

/-- A site that goes over to a later stage still fits: on the way to the megamorphic stage the table is
empty. -/
theorem Fits.enter (h : Fits t s) {stage : Stage} (hlater : s.stage.rank < stage.rank) :
    Fits t (s.enter stage) where
  chain := h.chain
  table := h.table
  tableSpent hstage := by
    have hstage : stage = .megamorphic := hstage
    have hempty := h.tableBefore (hstage ▸ hlater)
    change (s.table.entries.length : Int) ≤ 0
    simp [hempty]
  tableBefore hbefore := h.tableBefore (Nat.lt_trans hlater hbefore)
  dispatch := h.dispatch
  installed := Nat.le_of_lt (Nat.lt_of_le_of_lt h.installed hlater)

theorem Fits.charge (h : Fits t s) : Fits t s.charge where
  chain := h.chain
  table := h.table
  tableSpent hstage := by
    have hspent := h.tableSpent hstage
    change (s.table.entries.length : Int) ≤ s.spent + 1
    omega
  tableBefore := h.tableBefore
  dispatch := h.dispatch
  installed := h.installed

theorem Fits.install (h : Fits t s) (isStatic : Bool) {dispatch : Dispatch γ η}
    (hdispatch : dispatch.Fits t) : Fits t (s.install s.stage isStatic dispatch) where
  chain := h.chain
  table := h.table
  tableSpent := h.tableSpent
  tableBefore := h.tableBefore
  dispatch := hdispatch
  installed := Nat.le_refl _

theorem Fits.withChain (h : Fits t s) {chain : List (γ × η)}
    (hchain : (chain.length : Int) ≤ max 1 t.polymorphic) : Fits t { s with chain } where
  chain := hchain
  table := h.table
  tableSpent := h.tableSpent
  tableBefore := h.tableBefore
  dispatch := h.dispatch
  installed := h.installed

end Fits

/-! ### One stage after the other -/

/-- What linking makes of a site that had fewer than `room` relinks left before. -/
structure Advanced (t : Thresholds) (room : Nat) (s s' : Site γ η) : Prop where
  fits : Fits t s'
  forward : s.installed.rank ≤ s'.installed.rank
  relinks : s'.relinks = s.relinks
  potential : s'.potential t < room

section Stages

variable {t : Thresholds} {room room' : Nat} {l : Linker ε γ η} {s s' : Site γ η}

theorem Advanced.of_enter {stage : Stage} (h : Advanced t room (s.enter stage) s') (hroom : room ≤ room') :
    Advanced t room' s s' :=
  ⟨h.fits, h.forward, h.relinks, Nat.lt_of_lt_of_le h.potential hroom⟩

theorem Advanced.of_charge (h : Advanced t room s.charge s') : Advanced t room s s' :=
  ⟨h.fits, h.forward, h.relinks, h.potential⟩

/-- A link that fails with the site left as it is. -/
theorem advanced_refl (h : Fits t s) (hroom : s.remaining t < room) : Advanced t room s s :=
  ⟨h, Nat.le_refl _, rfl, Nat.lt_of_le_of_lt (potential_le_remaining t s) hroom⟩

/-- A link that installs a dispatch for the stage the site is in. -/
theorem advanced_install (h : Fits t s) {stage : Stage} (hstage : s.stage = stage) (isStatic : Bool)
    (dispatch : Dispatch γ η) (hdispatch : dispatch.Fits t)
    (hroom : (s.install stage isStatic dispatch).potential t < room) :
    Advanced t room s (s.install stage isStatic dispatch) := by
  subst hstage
  exact ⟨h.install isStatic hdispatch, h.installed, rfl, hroom⟩

theorem affords_iff {budget : Int} : s.affords budget = true ↔ 0 < budget ∧ s.spent < budget := by
  simp [affords]

theorem linkUnoptimized_advanced (h : Fits t s) (hstage : s.stage = .unoptimized) :
    Advanced t 1 s (linkUnoptimized l s).1 :=
  advanced_install h hstage false _ trivial Nat.one_pos

theorem linkMegamorphic_advanced (h : Fits t s) (hstage : s.stage = .megamorphic) :
    Advanced t (s.remaining t) s (linkMegamorphic t.megamorphic l s).1 := by
  have hroom : s.remaining t = 1 + (t.megamorphic - s.spent).toNat := by simp only [remaining, hstage]
  have hnext : ∀ s₁ : Site γ η, Fits t s₁ → s₁.stage = s.stage →
      Advanced t (s.remaining t) s₁ (linkUnoptimized l (s₁.enter .unoptimized)).1 := by
    intro s₁ h₁ hs₁
    have hlater : s₁.stage.rank < Stage.unoptimized.rank := by
      rw [hs₁, hstage]
      decide
    exact (linkUnoptimized_advanced (h₁.enter hlater) rfl).of_enter (by omega)
  unfold linkMegamorphic
  split
  · exact hnext s h rfl
  · rename_i key _
    split
    · rename_i hafford
      obtain ⟨hpositive, hleft⟩ := affords_iff.mp hafford
      have hcharged : s.charge.remaining t = 1 + (t.megamorphic - (s.spent + 1)).toNat := by
        simp only [remaining, charge, hstage]
      have hless : s.charge.remaining t < s.remaining t := by omega
      dsimp only
      split
      · exact (advanced_refl h.charge hless).of_charge
      · exact (hnext s.charge h.charge rfl).of_charge
      · rename_i entry _
        have hlength := s.table.length_insert_le key entry
        have hspent := h.tableSpent hstage
        have hbound : ((s.table.insert key entry).entries.length : Int) ≤ max 0 t.megamorphic := by omega
        have hfits : Fits t { s.charge with table := s.table.insert key entry } :=
          { h.charge with
            table := hbound
            tableSpent := fun _ => by
              change ((s.table.insert key entry).entries.length : Int) ≤ s.spent + 1
              omega
            tableBefore := fun hbefore => by
              change s.stage.rank < _ at hbefore
              rw [hstage] at hbefore
              exact absurd hbefore (Nat.lt_irrefl _) }
        have hinstalled : Advanced t (s.remaining t) _ _ :=
          advanced_install hfits hstage false (.table (s.table.insert key entry)) hbound hless
        exact ⟨hinstalled.fits, hinstalled.forward, rfl, hinstalled.potential⟩
    · exact hnext s h rfl

theorem linkPolymorphic_advanced (h : Fits t s) (hstage : s.stage = .polymorphic) :
    Advanced t (s.remaining t) s (linkPolymorphic t l s).1 := by
  have hroom : s.remaining t = 1 + (t.polymorphic - s.spent).toNat + t.megamorphic.toNat := by
    simp only [remaining, hstage]
  have hnext : ∀ s₁ : Site γ η, Fits t s₁ → s₁.stage = s.stage →
      Advanced t (s.remaining t) s₁ (linkMegamorphic t.megamorphic l (s₁.enter .megamorphic)).1 := by
    intro s₁ h₁ hs₁
    have hlater : s₁.stage.rank < Stage.megamorphic.rank := by
      rw [hs₁, hstage]
      decide
    refine (linkMegamorphic_advanced (h₁.enter hlater) rfl).of_enter ?_
    change 1 + (t.megamorphic - 0).toNat ≤ _
    omega
  unfold linkPolymorphic
  split
  · rename_i hafford
    obtain ⟨hpositive, hleft⟩ := affords_iff.mp hafford
    have hcharged : s.charge.remaining t
        = 1 + (t.polymorphic - (s.spent + 1)).toNat + t.megamorphic.toNat := by
      simp only [remaining, charge, hstage]
    have hless : s.charge.remaining t < s.remaining t := by omega
    dsimp only
    split
    · exact (advanced_refl h.charge hless).of_charge
    · exact (hnext s.charge h.charge rfl).of_charge
    · rename_i entry _
      have htake := List.length_take_le t.polymorphic.toNat (entry :: s.chain)
      have hbound : (((entry :: s.chain).take t.polymorphic.toNat).length : Int) ≤ max 1 t.polymorphic := by
        omega
      have hinstalled : Advanced t (s.remaining t) _ _ :=
        advanced_install (h.charge.withChain hbound) hstage false (.chain _) hbound hless
      exact ⟨hinstalled.fits, hinstalled.forward, rfl, hinstalled.potential⟩
  · exact hnext s h rfl

theorem linkMonomorphic_advanced (h : Fits t s) (hstage : s.stage = .monomorphic) :
    Advanced t (s.remaining t) s (linkMonomorphic t l s).1 := by
  have hroom : s.remaining t
      = 1 + (t.monomorphic - s.spent).toNat + t.polymorphic.toNat + t.megamorphic.toNat := by
    simp only [remaining, hstage]
  have hnext : ∀ s₁ : Site γ η, Fits t s₁ → s₁.stage = s.stage →
      Advanced t (s.remaining t) s₁ (linkPolymorphic t l (s₁.enter .polymorphic)).1 := by
    intro s₁ h₁ hs₁
    have hlater : s₁.stage.rank < Stage.polymorphic.rank := by
      rw [hs₁, hstage]
      decide
    refine (linkPolymorphic_advanced (h₁.enter hlater) rfl).of_enter ?_
    change 1 + (t.polymorphic - 0).toNat + t.megamorphic.toNat ≤ _
    omega
  unfold linkMonomorphic
  split
  · rename_i hafford
    obtain ⟨hpositive, hleft⟩ := affords_iff.mp hafford
    have hcharged : s.charge.remaining t
        = 1 + (t.monomorphic - (s.spent + 1)).toNat + t.polymorphic.toNat + t.megamorphic.toNat := by
      simp only [remaining, charge, hstage]
    have hless : s.charge.remaining t < s.remaining t := by omega
    dsimp only
    split
    · exact (advanced_refl h.charge hless).of_charge
    · exact (hnext s.charge h.charge rfl).of_charge
    · rename_i entry _
      have hbound : (([entry] : List (γ × η)).length : Int) ≤ max 1 t.polymorphic := by
        simp only [List.length_singleton]
        omega
      have hinstalled : Advanced t (s.remaining t) _ _ :=
        advanced_install (h.charge.withChain hbound) hstage false (.chain [entry]) hbound hless
      exact ⟨hinstalled.fits, hinstalled.forward, rfl, hinstalled.potential⟩
  · exact hnext s h rfl

theorem linkCold_advanced (h : Fits t s) (hstage : s.stage = .cold) :
    Advanced t (s.remaining t) s (linkCold t l s).1 := by
  have hroom : s.remaining t
      = 2 + t.monomorphic.toNat + t.polymorphic.toNat + t.megamorphic.toNat := by
    simp only [remaining, hstage]
  have hentered : (s.enter .monomorphic).remaining t
      = 1 + (t.monomorphic - 0).toNat + t.polymorphic.toNat + t.megamorphic.toNat := rfl
  have hfits : Fits t (s.enter .monomorphic) := by
    refine h.enter ?_
    rw [hstage]
    decide
  unfold linkCold
  dsimp only
  split
  · exact (advanced_refl hfits (Nat.lt_succ_self _)).of_enter (by omega)
  · rename_i target _
    have hinstalled : Advanced t 1 _ _ :=
      advanced_install hfits rfl true (.unguarded target) trivial Nat.one_pos
    exact hinstalled.of_enter (by omega)
  · exact (linkMonomorphic_advanced hfits rfl).of_enter (by omega)

end Stages

/-! ### All calls of a site -/

/-- A relink uses up one of the relinks that are left. -/
theorem relink_advanced {t : Thresholds} {s : Site γ η} (l : Linker ε γ η) (h : Fits t s) :
    Advanced t (s.remaining t) { s with relinks := s.relinks + 1 } (s.relink t l).1 := by
  have hcounted : Fits t { s with relinks := s.relinks + 1 } := { h with }
  unfold relink
  dsimp only
  split
  · rename_i hstage
    exact linkCold_advanced hcounted hstage
  · rename_i hstage
    exact linkMonomorphic_advanced hcounted hstage
  · rename_i hstage
    exact linkPolymorphic_advanced hcounted hstage
  · rename_i hstage
    exact linkMegamorphic_advanced hcounted hstage
  · rename_i hstage
    have hadvanced := linkUnoptimized_advanced (l := l) hcounted hstage
    have hroom : s.remaining t = 1 := by simp only [remaining, hstage]
    rw [hroom]
    exact hadvanced

end Site

/-- A call at a site: how the site is linked for it, and which guards hold for it. -/
structure Visit (ε γ η : Type) where
  linker : Linker ε γ η
  holds : γ → Bool

namespace Visit

/-- The guard that is made for the call holds for the call. -/
def Accepts (v : Visit ε γ η) : Prop :=
  ∀ entry, v.linker.linkGuarded () = .ok (some entry) → v.holds entry.1 = true

/-- What the site makes of the call. -/
def resolve (t : Thresholds) (v : Visit ε γ η) (s : Site γ η) : Site γ η × Except ε (Option η) :=
  s.resolve t v.linker v.holds

end Visit

namespace Site

/-- A new site after some calls. -/
def after (t : Thresholds) (visits : List (Visit ε γ η)) : Site γ η :=
  visits.foldl (fun s v => (v.resolve t s).1) {}

/-- All relinks of a site are paid for by the thresholds. -/
structure Within (t : Thresholds) (s : Site γ η) : Prop where
  fits : Fits t s
  paid : s.relinks + s.potential t
    ≤ 2 + t.monomorphic.toNat + t.polymorphic.toNat + t.megamorphic.toNat

/-- One call relinks the site once at most, moves it forward and keeps it within the thresholds. -/
theorem resolve_within {t : Thresholds} {s : Site γ η} {v : Visit ε γ η} (h : Within t s)
    (hv : v.Accepts) :
    Within t (v.resolve t s).1 ∧ s.installed.rank ≤ (v.resolve t s).1.installed.rank ∧
      (v.resolve t s).1.relinks ≤ s.relinks + 1 := by
  have hstay : Within t s ∧ s.installed.rank ≤ s.installed.rank ∧ s.relinks ≤ s.relinks + 1 :=
    ⟨h, Nat.le_refl _, Nat.le_succ _⟩
  have hmove : s.select v.holds v.linker.shapeKey = none → Within t (s.relink t v.linker).1 ∧
      s.installed.rank ≤ (s.relink t v.linker).1.installed.rank ∧
      (s.relink t v.linker).1.relinks ≤ s.relinks + 1 := by
    intro hnone
    obtain ⟨hfits, hforward, hrelinks, hpotential⟩ := relink_advanced v.linker h.fits
    rw [remaining_eq_potential hnone] at hpotential
    have hpaid := h.paid
    change _ = s.relinks + 1 at hrelinks
    exact ⟨⟨hfits, by omega⟩, hforward, by omega⟩
  unfold Visit.resolve
  rcases resolve_cases (t := t) (s := s) hv with
    ⟨_, -, heq⟩ | ⟨hnone, ⟨_, -, -, heq⟩ | ⟨_, -, heq⟩⟩
  · rw [heq]
    exact hstay
  · rw [heq]
    exact hmove hnone
  · rw [heq]
    exact hmove hnone

theorem after_within (t : Thresholds) (visits : List (Visit ε γ η)) (h : ∀ v ∈ visits, v.Accepts) :
    Within t (after t visits) := by
  unfold after
  have hcold : Within t ({} : Site γ η) := ⟨fits_cold t, by simp [potential, remaining]⟩
  generalize ({} : Site γ η) = s at hcold
  induction visits generalizing s with
  | nil => exact hcold
  | cons v rest ih =>
    have hv := h v (List.mem_cons_self ..)
    exact ih (fun v' hv' => h v' (List.mem_cons_of_mem _ hv')) _ (resolve_within hcold hv).1

/-- The search for a target ends after one relink, however much patience there is. -/
theorem resolveWithin_eq {t : Thresholds} {s : Site γ η} {v : Visit ε γ η} (hv : v.Accepts) (fuel : Nat) :
    s.resolveWithin t v.linker v.holds (fuel + 2) = v.resolve t s ∧ (v.resolve t s).2 ≠ .ok none := by
  unfold Visit.resolve
  rcases resolve_cases (t := t) (s := s) hv with
    ⟨target, hselect, heq⟩ | ⟨hnone, ⟨target, hok, hselect, heq⟩ | ⟨e, herror, heq⟩⟩
  · rw [heq]
    exact ⟨by simp only [resolveWithin, hselect], by simp⟩
  · rw [heq]
    have hrelink : s.relink t v.linker = ((s.relink t v.linker).1, .ok ()) := by rw [← hok]
    refine ⟨?_, by simp⟩
    simp only [resolveWithin, hnone]
    rw [hrelink]
    simp only [hselect]
  · rw [heq]
    have hrelink : s.relink t v.linker = ((s.relink t v.linker).1, .error e) := by rw [← herror]
    refine ⟨?_, by simp⟩
    simp only [resolveWithin, hnone]
    rw [hrelink]

/-- Whatever the thresholds and the calls, found, linked or failed, that a new site has gone through, the
next call leaves the stage of the installed target where it is or moves it forward, relinks the site once at
most, and so ends its search however much patience it has; the chain, the table and the number of all relinks
stay within what the thresholds allow. -/
theorem relinking_bounded (t : Thresholds) (earlier : List (Visit ε γ η)) (v : Visit ε γ η)
    (haccepts : ∀ v' ∈ v :: earlier, v'.Accepts) :
    let s := after t earlier
    let s' := (v.resolve t s).1
    s.installed.rank ≤ s'.installed.rank ∧
    s'.relinks ≤ s.relinks + 1 ∧
    (∀ fuel, s.resolveWithin t v.linker v.holds (fuel + 2) = v.resolve t s) ∧
    (v.resolve t s).2 ≠ .ok none ∧
    (s'.chain.length : Int) ≤ max 1 t.polymorphic ∧
    (s'.table.entries.length : Int) ≤ max 0 t.megamorphic ∧
    s'.dispatch.Fits t ∧
    (s'.relinks : Int) ≤ 2 + max 0 t.monomorphic + max 0 t.polymorphic + max 0 t.megamorphic := by
  intro s s'
  have hv : v.Accepts := haccepts v (List.mem_cons_self ..)
  have hs : Within t s := after_within t earlier fun v' hv' => haccepts v' (List.mem_cons_of_mem _ hv')
  obtain ⟨⟨hfits, hpaid⟩, hforward, honce⟩ := resolve_within hs hv
  refine ⟨hforward, honce, fun fuel => (resolveWithin_eq hv fuel).1, (resolveWithin_eq hv 0).2,
    hfits.chain, hfits.table, hfits.dispatch, ?_⟩
  change s'.relinks + s'.potential t ≤ _ at hpaid
  omega

/-- A call whose target is right for one number and no other. -/
def numbered (n : Nat) : Visit Unit Nat Nat where
  linker :=
    { linkStatic := fun _ => .ok none
      linkGuarded := fun _ => .ok (some (n, n))
      shapeKey := fun _ => some [toString n]
      generic := 0 }
  holds guard := guard == n

/-- Four different calls take a site through all stages the thresholds leave it. -/
theorem relinking_bounded_numbered :
    let t : Thresholds := { monomorphic := 1, polymorphic := 2, megamorphic := -1 }
    let s := after t [numbered 1, numbered 2, numbered 3]
    s.installed = .polymorphic ∧ ((numbered 4).resolve t s).1.installed = .unoptimized ∧
      (((numbered 4).resolve t s).1.relinks : Int) ≤ 5 := by
  intro t s
  have haccepts : ∀ v ∈ [numbered 4, numbered 1, numbered 2, numbered 3], v.Accepts := by
    intro v hv
    have hnumbered : ∃ n, v = numbered n := by
      simp only [List.mem_cons, List.not_mem_nil, or_false] at hv
      rcases hv with rfl | rfl | rfl | rfl <;> exact ⟨_, rfl⟩
    obtain ⟨n, rfl⟩ := hnumbered
    intro entry hentry
    cases hentry
    exact beq_self_eq_true n
  obtain ⟨-, -, -, -, -, -, -, hrelinks⟩ :=
    relinking_bounded t [numbered 1, numbered 2, numbered 3] (numbered 4) haccepts
  exact ⟨by decide, by decide, hrelinks⟩

end Site

end CallSite

end LispMachine
