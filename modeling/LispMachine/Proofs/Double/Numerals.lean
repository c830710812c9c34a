import LispMachine.Datum.Reader

/-! # The texts of numbers as tokens

Integers and finite doubles are written with digits, a sign, a point and an exponent mark and nothing
else, so the reader takes their texts as single tokens.  A token of digits is read as the integer it is the
text of (`number?_intText`); the text of a double holds a point or an exponent, so that it is read as a
double (`number?_finiteText`). -/

namespace LispMachine

namespace Double

/-- A character that numbers are written with. -/
def isNumeral (c : Char) : Bool := c.isDigit || c == '.' || c == 'e' || c == '-'

theorem toNat_of_isDigit {c : Char} (h : c.isDigit = true) : 0x30 ≤ c.toNat ∧ c.toNat ≤ 0x39 := by
  simp only [Char.isDigit, Bool.and_eq_true, decide_eq_true_eq] at h
  exact ⟨h.1, h.2⟩

theorem isNumeral_of_isDigit {c : Char} (h : c.isDigit = true) : isNumeral c = true := by
  simp [isNumeral, h]

theorem isDigit_digitText {n : Nat} {c : Char} (h : c ∈ digitText n) : c.isDigit = true :=
  Nat.isDigit_of_mem_toDigits (by decide) (by decide) h

theorem digitText_ne_nil (n : Nat) : digitText n ≠ [] := Nat.toDigits_ne_nil

theorem isDigit_zeros {n : Nat} {c : Char} (h : c ∈ zeros n) : c.isDigit = true := by
  rw [List.eq_of_mem_replicate h]
  rfl

theorem isNumeral_intText {n : Int} {c : Char} (h : c ∈ intText n) : isNumeral c = true := by
  unfold intText at h
  split at h
  · rcases List.mem_cons.mp h with rfl | h
    · rfl
    · exact isNumeral_of_isDigit (isDigit_digitText h)
  · exact isNumeral_of_isDigit (isDigit_digitText h)

/-! ### The texts of magnitudes -/

/-- The text of a number that is not whole: a digit first, and a character that is none further on. -/
structure IsDecimal (cs : List Char) : Prop where
  head : ∃ c rest, cs = c :: rest ∧ c.isDigit = true
  numerals : ∀ c ∈ cs, isNumeral c = true
  mark : ∃ c ∈ cs, c.isDigit = false

section Layouts

variable {digits : List Char} (hne : digits ≠ []) (hdigits : ∀ c ∈ digits, c.isDigit = true)

include hne hdigits

theorem isDecimal_positional (place : Int) : IsDecimal (positional digits place) := by
  obtain ⟨d, ds, rfl⟩ := List.exists_cons_of_ne_nil hne
  unfold positional
  split
  · refine ⟨⟨'0', _, rfl, rfl⟩, ?_, '.', by simp, rfl⟩
    intro c hc
    simp only [List.cons_append, List.mem_cons, List.mem_append] at hc
    rcases hc with rfl | rfl | hc | hc
    · rfl
    · rfl
    · exact isNumeral_of_isDigit (isDigit_zeros hc)
    · exact isNumeral_of_isDigit (hdigits c (List.mem_cons.mpr hc))
  · rename_i hplace
    obtain ⟨n, hn⟩ : ∃ n, place.toNat = n + 1 := ⟨place.toNat - 1, by omega⟩
    simp only [hn]
    split
    · refine ⟨⟨d, _, rfl, hdigits d List.mem_cons_self⟩, ?_, '.', by simp, rfl⟩
      intro c hc
      simp only [List.mem_append, List.mem_cons, List.not_mem_nil, or_false] at hc
      rcases hc with (hc | hc) | rfl | rfl
      · exact isNumeral_of_isDigit (hdigits c (List.mem_cons.mpr hc))
      · exact isNumeral_of_isDigit (isDigit_zeros hc)
      · rfl
      · rfl
    · refine ⟨⟨d, _, rfl, hdigits d List.mem_cons_self⟩, ?_, '.', by simp, rfl⟩
      intro c hc
      rcases List.mem_append.mp hc with hc | hc
      · exact isNumeral_of_isDigit (hdigits c (List.mem_of_mem_take hc))
      · rcases List.mem_cons.mp hc with rfl | hc
        · rfl
        · exact isNumeral_of_isDigit (hdigits c (List.mem_of_mem_drop hc))

theorem isDecimal_scientific (place : Int) : IsDecimal (scientific digits place) := by
  obtain ⟨d, ds, rfl⟩ := List.exists_cons_of_ne_nil hne
  have hd : d.isDigit = true := hdigits d List.mem_cons_self
  cases ds with
  | nil =>
    refine ⟨⟨d, _, rfl, hd⟩, ?_, 'e', by simp [scientific], rfl⟩
    intro c hc
    simp only [scientific, List.mem_cons] at hc
    rcases hc with rfl | rfl | hc
    · exact isNumeral_of_isDigit hd
    · rfl
    · exact isNumeral_intText hc
  | cons d' ds =>
    refine ⟨⟨d, _, rfl, hd⟩, ?_, 'e', by simp [scientific], rfl⟩
    intro c hc
    simp only [scientific, List.cons_append, List.mem_cons, List.mem_append] at hc
    rcases hc with rfl | rfl | hc | hc | rfl | hc
    · exact isNumeral_of_isDigit hd
    · rfl
    · exact isNumeral_of_isDigit (hdigits c (by simp [hc]))
    · exact isNumeral_of_isDigit (hdigits c (by simp [hc]))
    · rfl
    · exact isNumeral_intText hc

end Layouts

theorem isDecimal_magnitudeText (format : NumberFormat) (x : Double) : IsDecimal (magnitudeText format x) := by
  unfold magnitudeText
  split
  · exact ⟨⟨'0', _, rfl, rfl⟩, List.all_eq_true.mp rfl, '.', by simp, rfl⟩
  · simp only
    split
    · exact isDecimal_positional (digitText_ne_nil _) (fun c => isDigit_digitText) _
    · exact isDecimal_scientific (digitText_ne_nil _) (fun c => isDigit_digitText) _

end Double

namespace Datum

open Double

theorem isTokenChar_of_isNumeral {c : Char} (h : isNumeral c = true) : isTokenChar c = true := by
  have hall : ∀ n : Fin 0x80, isNumeral (Char.ofNat n) = true → isTokenChar (Char.ofNat n) = true := by
    decide +kernel
  have hlt : c.toNat < 0x80 := by
    simp only [isNumeral, Bool.or_eq_true, beq_iff_eq] at h
    rcases h with ((h | rfl) | rfl) | rfl
    · have := (toNat_of_isDigit h).2
      omega
    all_goals decide
  have hc := hall ⟨c.toNat, hlt⟩
  simp only [Char.ofNat_toNat] at hc
  exact hc h

/-! ### Whole numbers -/

/-- One digit more behind a number in decimal. -/
def appendDigit (acc : Option Int) (c : Char) : Option Int :=
  acc.bind fun n => (decimalDigit? c >>= fun d => pure (d : Int)).map fun d => ((10 : Nat) : Int) * n + d

theorem decimalWord?_eq (cs : List Char) :
    decimalWord? cs = if (splitSign cs).2.isEmpty then none
      else ((splitSign cs).2.foldl appendDigit (some 0)).bind fun n =>
        word? (if (splitSign cs).1 then -n else n) := by
  unfold decimalWord? signedWord?
  rfl

theorem foldl_appendDigit {cs : List Char} (h : ∀ c ∈ cs, c.isDigit = true) (n : Nat) :
    cs.foldl appendDigit (some (n : Int)) = some (Nat.ofDigitChars 10 cs n : Int) := by
  induction cs generalizing n with
  | nil => rfl
  | cons c cs ih =>
    have hdigit : appendDigit (some n) c = some ((10 * n + (c.toNat - 0x30) : Nat) : Int) := by
      simp [appendDigit, decimalDigit?, h c List.mem_cons_self]
    rw [List.foldl_cons, hdigit, ih fun c' hc' => h c' (List.mem_cons_of_mem c hc')]
    rfl

theorem foldl_appendDigit_none {cs : List Char} (h : ∃ c ∈ cs, c.isDigit = false) (acc : Option Int) :
    cs.foldl appendDigit acc = none := by
  have hnone : ∀ cs : List Char, cs.foldl appendDigit none = none := by
    intro cs
    induction cs with
    | nil => rfl
    | cons c cs ih => exact ih
  induction cs generalizing acc with
  | nil => simp at h
  | cons c cs ih =>
    obtain ⟨c', hmem, hc'⟩ := h
    rw [List.foldl_cons]
    rcases List.mem_cons.mp hmem with rfl | hmem
    · have hstop : appendDigit acc c' = none := by
        cases acc with
        | none => rfl
        | some n => simp [appendDigit, decimalDigit?, hc']
      rw [hstop, hnone]
    · exact ih ⟨c', hmem, hc'⟩ _

theorem splitSign_digit {c : Char} (h : c.isDigit = true) (cs : List Char) :
    splitSign (c :: cs) = (false, c :: cs) := by
  unfold splitSign
  split
  · simp_all
  · simp_all
  · rfl

theorem decimalWord?_intText (n : Int64) : decimalWord? (intText n.toInt) = some n := by
  have hlow := n.le_toInt
  have hhigh := n.toInt_lt
  have hword : word? n.toInt = some n := by
    have hmin : Int64.minValue.toInt = -2 ^ 63 := rfl
    have hmax : Int64.maxValue.toInt = 2 ^ 63 - 1 := rfl
    rw [word?, hmin, hmax, if_pos (by simp; omega), Int64.ofInt_toInt]
  have hvalue : (digitText n.toInt.natAbs).foldl appendDigit (some 0) = some (n.toInt.natAbs : Int) := by
    have hdigits : ∀ c ∈ digitText n.toInt.natAbs, c.isDigit = true := fun c => isDigit_digitText
    have hread := foldl_appendDigit hdigits 0
    rwa [digitText, Nat.ofDigitChars_toDigits (by decide) (by decide)] at hread
  obtain ⟨d, ds, hds⟩ := List.exists_cons_of_ne_nil (digitText_ne_nil n.toInt.natAbs)
  have hd : d.isDigit = true := isDigit_digitText (hds ▸ List.mem_cons_self)
  rw [decimalWord?_eq, intText]
  split
  · rename_i hneg
    have habs : -((n.toInt.natAbs : Nat) : Int) = n.toInt := by omega
    rw [hds] at hvalue ⊢
    simp only [splitSign, List.isEmpty_cons, Bool.false_eq_true, ↓reduceIte, hvalue, Option.bind_some, habs,
      hword]
  · rename_i hneg
    have habs : ((n.toInt.natAbs : Nat) : Int) = n.toInt := by omega
    rw [hds] at hvalue ⊢
    simp only [splitSign_digit hd, List.isEmpty_cons, Bool.false_eq_true, ↓reduceIte, hvalue,
      Option.bind_some, habs, hword]

theorem startsLikeNumber_intText (n : Int) : startsLikeNumber (intText n) = true := by
  obtain ⟨d, ds, hds⟩ := List.exists_cons_of_ne_nil (digitText_ne_nil n.natAbs)
  have hd : d.isDigit = true := isDigit_digitText (hds ▸ List.mem_cons_self)
  unfold intText
  split
  · simp [startsLikeNumber, hds, hd]
  · simp [startsLikeNumber, hds, hd]

/-- The text of an integer is read as the integer. -/
theorem number?_intText (n : Int64) : number? (intText n.toInt) = some (.int n) := by
  simp [number?, startsLikeNumber_intText, decimalWord?_intText]

/-! ### Doubles -/

theorem startsLikeNumber_finiteText (x : Double) : startsLikeNumber (x.finiteText sourceFormat) = true := by
  obtain ⟨d, ds, hds, hd⟩ := (isDecimal_magnitudeText sourceFormat x).head
  unfold finiteText
  split
  · simp [startsLikeNumber, hds, hd]
  · simp [startsLikeNumber, hds, hd]

theorem isNumeral_finiteText {format : NumberFormat} {x : Double} {c : Char} (h : c ∈ x.finiteText format) :
    isNumeral c = true := by
  unfold finiteText at h
  split at h
  · rcases List.mem_cons.mp h with rfl | h
    · rfl
    · exact (isDecimal_magnitudeText format x).numerals c h
  · exact (isDecimal_magnitudeText format x).numerals c h

theorem decimalWord?_finiteText (x : Double) : decimalWord? (x.finiteText sourceFormat) = none := by
  have hdecimal := isDecimal_magnitudeText sourceFormat x
  have hsign : (splitSign (x.finiteText sourceFormat)).2 = magnitudeText sourceFormat x := by
    obtain ⟨d, ds, hds, hd⟩ := hdecimal.head
    unfold finiteText
    split
    · rfl
    · rw [hds, splitSign_digit hd]
  rw [decimalWord?_eq, hsign, foldl_appendDigit_none hdecimal.mark]
  simp

/-- The text of a finite double is read as a double. -/
theorem number?_finiteText (x : Double) :
    number? (x.finiteText sourceFormat)
      = (Double.ofText? (String.ofList (x.finiteText sourceFormat))).map .float := by
  have hhex : ∀ hex, x.finiteText sourceFormat ≠ '0' :: 'x' :: hex := by
    intro hex htext
    have hx : isNumeral 'x' = true := isNumeral_finiteText (htext ▸ List.mem_cons_of_mem _ List.mem_cons_self)
    cases hx
  unfold number?
  rw [startsLikeNumber_finiteText, decimalWord?_finiteText]
  simp only [Bool.not_true, Bool.false_eq_true, ↓reduceIte]

end Datum

end LispMachine
