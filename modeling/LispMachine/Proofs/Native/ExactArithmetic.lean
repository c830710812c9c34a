import Mathlib.Algebra.BigOperators.Group.List.Basic
import Mathlib.Algebra.Order.Group.Unbundled.Int
import Mathlib.Data.Int.ModEq
import LispMachine.Machine.Natives
import LispMachine.Proofs.Sequencing

/-! # Arithmetic on longs is exact

The built-in functions on longs compute with integers and give a long only where the integer is one.  A sum, a
product or a difference of many arguments is put together from the left, and fails as soon as a result on the way is
no long, whatever comes behind it (`foldFrom_longs`); a quotient is a long just when the division comes out even; and
`mod` gives the remainder that is not negative.  The least long divided by minus one is the one pair besides division
by zero for which there is no answer. -/

namespace LispMachine.Arithmetic

/-! ### Integers that are longs -/

/-- The integer is the value of a long. -/
def Fits (n : Int) : Prop := -2 ^ 63 ≤ n ∧ n < 2 ^ 63

theorem fits_toInt (n : Int64) : Fits n.toInt := ⟨n.le_toInt, n.toInt_lt⟩

theorem checked_of_fits {n : Int} (op : String) (h : Fits n) :
    ∃ m : Int64, checked op n = .ok (.int m) ∧ m.toInt = n := by
  have hfit : fit? n = some (Int64.ofInt n) := if_pos h
  exact ⟨Int64.ofInt n, by rw [checked, hfit], Int64.toInt_ofInt_of_le h.1 h.2⟩

theorem checked_of_not_fits {n : Int} (op : String) (h : ¬Fits n) : checked op n = .error (overflow op) := by
  have hfit : fit? n = none := if_neg h
  rw [checked, hfit]

/-- Arguments that are all longs. -/
def longs (ns : List Int64) : List Value := ns.map .int

/-- The exact sum of longs. -/
def total (ns : List Int64) : Int := (ns.map Int64.toInt).sum

/-- The exact product of longs. -/
def productOf (ns : List Int64) : Int := (ns.map Int64.toInt).prod

/-! ### From left to right -/

section Folding

variable {op : String} {f : Int → Int → Int} {g : Double → Double → Double}

/-- An exact operation put together from the left, of longs and without a limit. -/
def foldExact (f : Int → Int → Int) (start : Int) (ns : List Int64) : Int := (ns.map Int64.toInt).foldl f start

/-- All results on the way are longs: the first one, and what the rest is put together from. -/
theorem fits_prefixes_cons (a b : Int64) (ns : List Int64) :
    (∀ front, front <+: b :: ns → Fits (foldExact f a.toInt front)) ↔
      ∀ front, front <+: ns → Fits (foldExact f (f a.toInt b.toInt) front) := by
  constructor
  · intro h front hfront
    exact h (b :: front) (List.prefix_cons_inj b |>.2 hfront)
  · intro h front hfront
    rcases List.prefix_cons_iff.1 hfront with rfl | ⟨rest, rfl, hrest⟩
    · exact fits_toInt a
    · exact h rest hrest

/-- Put together from the left, longs give the long of the exact result if all results on the way are longs, and
overflow otherwise. -/
theorem foldFrom_longs (a : Int64) (ns : List Int64) :
    ((∀ front, front <+: ns → Fits (foldExact f a.toInt front)) →
      ∃ n : Int64, foldFrom (arith op f g) (.int a) (longs ns) = .ok (.int n) ∧ n.toInt = foldExact f a.toInt ns) ∧
    ((¬∀ front, front <+: ns → Fits (foldExact f a.toInt front)) →
      foldFrom (arith op f g) (.int a) (longs ns) = .error (overflow op)) := by
  induction ns generalizing a with
  | nil =>
    refine ⟨fun _ => ⟨a, rfl, rfl⟩, fun h => absurd ?_ h⟩
    intro front hfront
    rw [List.prefix_nil.1 hfront]
    exact fits_toInt a
  | cons b ns ih =>
    have hstep : foldFrom (arith op f g) (.int a) (longs (b :: ns))
        = checked op (f a.toInt b.toInt) >>= fun v => foldFrom (arith op f g) v (longs ns) := rfl
    rw [fits_prefixes_cons, hstep]
    by_cases hfits : Fits (f a.toInt b.toInt)
    · obtain ⟨m, hm, hvalue⟩ := checked_of_fits op hfits
      rw [hm, ← hvalue]
      have hexact : foldExact f a.toInt (b :: ns) = foldExact f m.toInt ns := by
        rw [hvalue]
        rfl
      rw [hexact]
      exact ih m
    · rw [checked_of_not_fits op hfits]
      exact ⟨fun h => absurd (h [] List.nil_prefix) hfits, fun _ => rfl⟩

theorem foldExact_add (start : Int) (ns : List Int64) : foldExact (· + ·) start ns = start + total ns := by
  induction ns generalizing start with
  | nil => simp [foldExact, total]
  | cons n ns ih =>
    have hstep : foldExact (· + ·) start (n :: ns) = foldExact (· + ·) (start + n.toInt) ns := rfl
    rw [hstep, ih, total, total, List.map_cons, List.sum_cons, Int.add_assoc]

theorem foldExact_sub (start : Int) (ns : List Int64) : foldExact (· - ·) start ns = start - total ns := by
  induction ns generalizing start with
  | nil => simp [foldExact, total]
  | cons n ns ih =>
    have hstep : foldExact (· - ·) start (n :: ns) = foldExact (· - ·) (start - n.toInt) ns := rfl
    rw [hstep, ih, total, total, List.map_cons, List.sum_cons]
    omega

theorem foldExact_mul (start : Int) (ns : List Int64) : foldExact (· * ·) start ns = start * productOf ns := by
  induction ns generalizing start with
  | nil => simp [foldExact, productOf]
  | cons n ns ih =>
    have hstep : foldExact (· * ·) start (n :: ns) = foldExact (· * ·) (start * n.toInt) ns := rfl
    rw [hstep, ih, productOf, productOf, List.map_cons, List.prod_cons, Int.mul_assoc]

end Folding

/-! ### Division -/

section Division

variable {x y : Int64}

/-- The pairs of longs that neither `/` nor `mod` has an answer for. -/
def Undivided (x y : Int64) : Prop := y = 0 ∨ x = Int64.minValue ∧ y = -1

theorem toInt_ne_zero (h : y ≠ 0) : y.toInt ≠ 0 := fun heq => h (Int64.toInt_inj.1 heq)

/-- An even quotient of longs is no further from zero than what is divided, so it is a long unless it is that of the
least one and minus one. -/
theorem fits_of_mul {q : Int} (h : ¬Undivided x y) (hq : q * y.toInt = x.toInt) : Fits q := by
  have hx := fits_toInt x
  have hne := toInt_ne_zero fun heq => h (.inl heq)
  have habs : q.natAbs ≤ x.toInt.natAbs := by
    rw [← hq, Int.natAbs_mul]
    exact Nat.le_mul_of_pos_right _ (by omega)
  unfold Fits at hx ⊢
  by_contra hout
  obtain rfl : q = 2 ^ 63 := by omega
  have hy : y.toInt = -1 := by omega
  have hleast : x.toInt = -2 ^ 63 := by omega
  exact h (.inr ⟨Int64.toInt_inj.1 (hleast.trans Int64.toInt_minValue.symm),
    Int64.toInt_inj.1 (hy.trans (by decide))⟩)

theorem fits_emod (h : y ≠ 0) : Fits (Int.emod x.toInt y.toInt) := by
  have hy := fits_toInt y
  have hne := toInt_ne_zero h
  have hnonneg := Int.emod_nonneg x.toInt hne
  have hlt := Int.emod_lt x.toInt hne
  unfold Fits at hy ⊢
  change _ ≤ x.toInt % y.toInt ∧ x.toInt % y.toInt < _
  omega

/-- Longs divide to the long that they are a multiple by, or else to a double. -/
theorem divide_longs (x y : Int64) :
    (y = 0 → divide (.int x) (.int y) = .error (Error.runtime "Divide by zero")) ∧
    (x = Int64.minValue ∧ y = -1 → divide (.int x) (.int y) = .error (Error.runtime "integer overflow in /")) ∧
    (¬Undivided x y → y.toInt ∣ x.toInt →
      ∃ q : Int64, divide (.int x) (.int y) = .ok (.int q) ∧ q.toInt * y.toInt = x.toInt) ∧
    (¬Undivided x y → ¬y.toInt ∣ x.toInt →
      divide (.int x) (.int y) = .ok (.float ((Double.ofInt x.toInt).div (Double.ofInt y.toInt)))) := by
  have hrun : divide (.int x) (.int y) =
      if y = 0 then .error divideByZero
      else if x = Int64.minValue ∧ y = -1 then .error (overflow "/")
      else if Int.tmod x.toInt y.toInt = 0 then checked "/" (Int.tdiv x.toInt y.toInt)
      else .ok (.float ((Double.ofInt x.toInt).div (Double.ofInt y.toInt))) := rfl
  rw [hrun]
  refine ⟨fun hzero => if_pos hzero, fun hleast => ?_, fun h hdvd => ?_, fun h hdvd => ?_⟩
  · rw [if_neg (by rw [hleast.2]; decide), if_pos hleast]
    rfl
  · have hmul := Int.tdiv_mul_cancel hdvd
    obtain ⟨q, hq, hvalue⟩ := checked_of_fits "/" (fits_of_mul h hmul)
    rw [if_neg fun hzero => h (.inl hzero), if_neg fun hleast => h (.inr hleast),
      if_pos (Int.dvd_iff_tmod_eq_zero.1 hdvd)]
    exact ⟨q, hq, by rw [hvalue, hmul]⟩
  · rw [if_neg fun hzero => h (.inl hzero), if_neg fun hleast => h (.inr hleast),
      if_neg fun hzero => hdvd (Int.dvd_iff_tmod_eq_zero.2 hzero)]

/-- The remainder of longs is the one that is not negative. -/
theorem modulo_longs (x y : Int64) :
    (y = 0 → modulo (.int x) (.int y) = .error (Error.runtime "Divide by zero")) ∧
    (x = Int64.minValue ∧ y = -1 → modulo (.int x) (.int y) = .error (Error.runtime "integer overflow in mod")) ∧
    (¬Undivided x y → ∃ r : Int64, modulo (.int x) (.int y) = .ok (.int r) ∧
      0 ≤ r.toInt ∧ r.toInt < |y.toInt| ∧ y.toInt ∣ x.toInt - r.toInt) := by
  have hrun : modulo (.int x) (.int y) =
      if y = 0 then .error divideByZero
      else if x = Int64.minValue ∧ y = -1 then .error (overflow "mod")
      else checked "mod" (x.toInt % y.toInt) := rfl
  rw [hrun]
  refine ⟨fun hzero => if_pos hzero, fun hleast => ?_, fun h => ?_⟩
  · rw [if_neg (by rw [hleast.2]; decide), if_pos hleast]
    rfl
  · have hzero : y ≠ 0 := fun hzero => h (.inl hzero)
    obtain ⟨r, hr, hvalue⟩ := checked_of_fits "mod" (fits_emod (x := x) hzero)
    rw [if_neg hzero, if_neg fun hleast => h (.inr hleast)]
    refine ⟨r, hr, ?_⟩
    rw [hvalue]
    exact ⟨Int.emod_nonneg _ (toInt_ne_zero hzero), Int.emod_lt_abs _ (toInt_ne_zero hzero), Int.dvd_self_sub_emod⟩

end Division

end LispMachine.Arithmetic

namespace LispMachine.Machine

open Arithmetic

/-! ### The built-in functions -/

/-- What a function has to do if it gives the long of an exact result, or overflows where this or a result on the way
is none: which results are on the way is given, and the world stays as it is. -/
structure Exactly (op : String) (onTheWay : Int → Prop) (exact : Int) (w : World)
    (outcome : EStateM.Result Fault World Value) : Prop where
  returns : (∀ m, onTheWay m → Fits m) → ∃ n : Int64, outcome = .ok (.int n) w ∧ n.toInt = exact
  overflows : (¬∀ m, onTheWay m → Fits m) →
    outcome = .error (.error (Error.runtime ("integer overflow in " ++ op))) w

/-- What a division of longs has to do: there is a failure for no other pairs than those without an answer, a long is
the exact quotient, and where there is none the doubles are divided. -/
structure Divides (x y : Int64) (w : World) (outcome : EStateM.Result Fault World Value) : Prop where
  fails : Undivided x y → ∃ message, outcome = .error (.error (Error.runtime message)) w
  answers : ¬Undivided x y → ∃ v, outcome = .ok v w
  exact : ∀ q t, outcome = .ok (.int q) t → q.toInt * y.toInt = x.toInt
  even : ¬Undivided x y → y.toInt ∣ x.toInt → ∃ q : Int64, outcome = .ok (.int q) w
  uneven : ¬Undivided x y → ¬y.toInt ∣ x.toInt →
    outcome = .ok (.float ((Double.ofInt x.toInt).div (Double.ofInt y.toInt))) w

/-- What `mod` has to do with longs: there is a failure for no other pairs than those without an answer, and the
answer is congruent to the first long and from zero up to the size of the second. -/
structure Remains (x y : Int64) (w : World) (outcome : EStateM.Result Fault World Value) : Prop where
  fails : Undivided x y → ∃ message, outcome = .error (.error (Error.runtime message)) w
  answers : ¬Undivided x y → ∃ r : Int64, outcome = .ok (.int r) w ∧ 0 ≤ r.toInt ∧ r.toInt < |y.toInt| ∧
    r.toInt ≡ x.toInt [ZMOD y.toInt]

section Natives

variable {w : World} {op : String}

/-- What longs are put together to from the left, as a function is called with them. -/
theorem exactly_foldFrom {f : Int → Int → Int} {g : Double → Double → Double} (start : Int64) {ns : List Int64}
    (value : List Int64 → Int) (hvalue : ∀ front, foldExact f start.toInt front = value front) :
    Exactly op (fun m => ∃ front, front <+: ns ∧ m = value front) (value ns) w
      (Action.ofExcept (foldFrom (arith op f g) (.int start) (longs ns)) w) := by
  obtain ⟨hreturns, hoverflows⟩ := @foldFrom_longs op f g start ns
  simp only [hvalue] at hreturns hoverflows
  refine ⟨fun h => ?_, fun h => ?_⟩
  · obtain ⟨n, hrun, hn⟩ := hreturns fun front hfront => h _ ⟨front, hfront, rfl⟩
    exact ⟨n, by rw [hrun]; rfl, hn⟩
  · rw [hoverflows fun hall => h fun m hm => ?_]
    · rfl
    · obtain ⟨front, hfront, rfl⟩ := hm
      exact hall front hfront

/-- One operation on two longs. -/
theorem exactly_checked (n : Int) : Exactly op (· = n) n w (Action.ofExcept (checked op n) w) := by
  refine ⟨fun h => ?_, fun h => ?_⟩
  · obtain ⟨m, hm, hvalue⟩ := checked_of_fits op (h n rfl)
    exact ⟨m, by rw [hm]; rfl, hvalue⟩
  · rw [checked_of_not_fits op fun hfits => h fun m hm => hm ▸ hfits]
    rfl

theorem divides_longs (x y : Int64) (w : World) :
    Divides x y w (Action.ofExcept (divide (.int x) (.int y)) w) := by
  obtain ⟨hzero, hleast, heven, huneven⟩ := divide_longs x y
  have hfails : Undivided x y → ∃ message, divide (.int x) (.int y) = .error (Error.runtime message) :=
    fun h => h.elim (fun h => ⟨_, hzero h⟩) fun h => ⟨_, hleast h⟩
  refine ⟨fun h => ?_, fun h => ?_, fun q t hrun => ?_, fun h hdvd => ?_, fun h hdvd => ?_⟩
  · obtain ⟨message, hrun⟩ := hfails h
    exact ⟨message, by rw [hrun]; rfl⟩
  · by_cases hdvd : y.toInt ∣ x.toInt
    · obtain ⟨q, hrun, -⟩ := heven h hdvd
      exact ⟨.int q, by rw [hrun]; rfl⟩
    · exact ⟨_, by rw [huneven h hdvd]; rfl⟩
  · by_cases h : Undivided x y
    · obtain ⟨message, hfail⟩ := hfails h
      rw [hfail] at hrun
      cases hrun
    · by_cases hdvd : y.toInt ∣ x.toInt
      · obtain ⟨q', hq', hmul⟩ := heven h hdvd
        rw [hq'] at hrun
        cases hrun
        exact hmul
      · rw [huneven h hdvd] at hrun
        cases hrun
  · obtain ⟨q, hrun, -⟩ := heven h hdvd
    exact ⟨q, by rw [hrun]; rfl⟩
  · rw [huneven h hdvd]
    rfl

/-- Of two arguments, the first is divided by the second. -/
theorem quotient_longs (x y : Int64) : quotient (longs [x, y]) = divide (.int x) (.int y) := by
  have hfold : quotient (longs [x, y]) = divide (.int x) (.int y) >>= .ok := rfl
  rw [hfold]
  cases divide (.int x) (.int y) <;> rfl

theorem remains_longs (x y : Int64) (w : World) :
    Remains x y w (Action.ofExcept (modulo (.int x) (.int y)) w) := by
  obtain ⟨hzero, hleast, hanswers⟩ := modulo_longs x y
  refine ⟨?_, fun h => ?_⟩
  · rintro (h | h)
    · exact ⟨_, by rw [hzero h]; rfl⟩
    · exact ⟨_, by rw [hleast h]; rfl⟩
  · obtain ⟨r, hrun, hnonneg, hlt, hdvd⟩ := hanswers h
    exact ⟨r, by rw [hrun]; rfl, hnonneg, hlt, Int.modEq_iff_dvd.2 hdvd⟩

end Natives

/-- Called with longs, the arithmetic functions give the exact long or fail: `+`, `*` and `-` of any number of longs
overflow as soon as a result on the way from the left is no long, `/` gives a long only if it is the exact quotient,
and `mod` the remainder that is not negative.  `-` has no result for no arguments; its arity keeps a call from coming
to that.  The world is left as it is, whatever comes of the call. -/
theorem longs_never_wrap (call : Caller) (w : World) :
    (∀ ns, Exactly "+" (fun m => ∃ front, front <+: ns ∧ m = total front) (total ns) w
      (callFunction call (.native .add) (longs ns) w)) ∧
    (∀ ns, Exactly "*" (fun m => ∃ front, front <+: ns ∧ m = productOf front) (productOf ns) w
      (callFunction call (.native .mul) (longs ns) w)) ∧
    (∀ n m ns, Exactly "-" (fun k => ∃ front, front <+: m :: ns ∧ k = n.toInt - total front)
      (n.toInt - total (m :: ns)) w (callFunction call (.native .sub) (longs (n :: m :: ns)) w)) ∧
    (∀ n, Exactly "-" (· = -n.toInt) (-n.toInt) w (callFunction call (.native .sub) (longs [n]) w)) ∧
    runNative call .sub (longs []) w = .error (.error (Error.runtime "- needs an argument")) w ∧
    (∀ n, Exactly "inc" (· = n.toInt + 1) (n.toInt + 1) w (callFunction call (.native .inc) (longs [n]) w)) ∧
    (∀ n, Exactly "dec" (· = n.toInt - 1) (n.toInt - 1) w (callFunction call (.native .dec) (longs [n]) w)) ∧
    (∀ x y, Divides x y w (callFunction call (.native .div) (longs [x, y]) w)) ∧
    ∀ x y, Remains x y w (callFunction call (.native .mod) (longs [x, y]) w) := by
  refine ⟨fun ns => ?_, fun ns => ?_, fun n m ns => ?_, fun n => ?_, rfl, fun n => ?_, fun n => ?_,
    fun x y => ?_, fun x y => ?_⟩
  · exact exactly_foldFrom 0 _ fun front => by
      rw [foldExact_add, Int64.toInt_zero, Int.zero_add]
  · exact exactly_foldFrom 1 _ fun front => by
      rw [foldExact_mul, Int64.toInt_one, Int.one_mul]
  · exact exactly_foldFrom n (fun front => n.toInt - total front) fun front => foldExact_sub n.toInt front
  · have hnegated : 0 - n.toInt = -n.toInt := Int.zero_sub _
    exact hnegated ▸ exactly_checked (0 - n.toInt)
  · exact exactly_checked (n.toInt + 1)
  · exact exactly_checked (n.toInt - 1)
  · have hcall : callFunction call (.native .div) (longs [x, y]) w = Action.ofExcept (quotient (longs [x, y])) w := rfl
    rw [hcall, quotient_longs]
    exact divides_longs x y w
  · exact remains_longs x y w

end LispMachine.Machine
