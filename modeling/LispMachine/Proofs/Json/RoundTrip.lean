import LispMachine.ClassFile.Decoder
import LispMachine.Json.Parser
import LispMachine.Proofs.Double.Numerals

/-! # JSON text that reads back

`parse?_print` says that the text of a value denotes the value: integers have to fit 64 bits, and a number
that is not whole has to be one whose text reads back, which short decimals are and some long ones are not.
A number ends where a character stands that no number goes on with, so reading one is local
(`number_append`); the rest goes by the structure of the value. -/

namespace LispMachine

namespace Double

/-- The numeral of a finite number is read as the same number. -/
def HasNumeral (x : Double) : Prop := x.isFinite = true ∧ Json.number (x.finiteText imageFormat) = some (.float x, [])

/-- Whether the numeral of the number is read as the same number. -/
def hasNumeral (x : Double) : Bool :=
  x.isFinite && match Json.number (x.finiteText imageFormat) with
    | some (.float y, []) => y == x
    | _ => false

theorem hasNumeral_iff (x : Double) : x.hasNumeral = true ↔ x.HasNumeral := by
  unfold hasNumeral HasNumeral
  rw [Bool.and_eq_true]
  refine and_congr_right fun _ => ?_
  split
  · rename_i y heq
    simp [heq]
  · rename_i hother
    simp only [Bool.false_eq_true, false_iff]
    exact hother x

instance (x : Double) : Decidable x.HasNumeral := decidable_of_iff _ x.hasNumeral_iff

-- Reading rounds more than once, so 0.9452706955539223 comes back as its neighbour.
example : ¬(⟨0x3FEE3FA85468AE3C⟩ : Double).HasNumeral := by decide +kernel

end Double

namespace Json

/-! ### Where numbers end -/

/-- The text does not start with what a number could start or go on with. -/
def Closes (tail : List Char) : Prop :=
  ∀ c ∈ tail.head?, c.isDigit = false ∧ c ∉ ['.', 'e', 'E', '-', '+']

theorem closes_nil : Closes [] := nofun

theorem closes_cons {c : Char} (h : c.isDigit = false ∧ c ∉ ['.', 'e', 'E', '-', '+']) (cs : List Char) :
    Closes (c :: cs) := by
  intro c' hc'
  cases hc'
  exact h

/-- The part read, in front of more text. -/
def behind {α : Type} (tail : List Char) (p : α × List Char) : α × List Char := (p.1, p.2 ++ tail)

theorem map_behind_nil {α : Type} (p : Parsed α) : p.map (behind []) = p := by
  have hbehind : (behind [] : α × List Char → α × List Char) = id := by
    funext p
    simp [behind]
  rw [hbehind, Option.map_id_apply]

section Local

variable {tail : List Char} (htail : Closes tail) (negative : Bool) (s : Nat) (e : Int) (cs : List Char)

include htail

theorem takeWhile_digits : (cs ++ tail).takeWhile Char.isDigit = cs.takeWhile Char.isDigit := by
  induction cs with
  | nil =>
    cases tail with
    | nil => rfl
    | cons c tail => simp [(htail c rfl).1]
  | cons c cs ih => simp only [List.cons_append, List.takeWhile_cons, ih]

theorem dropWhile_digits : (cs ++ tail).dropWhile Char.isDigit = cs.dropWhile Char.isDigit ++ tail := by
  induction cs with
  | nil =>
    cases tail with
    | nil => rfl
    | cons c tail => simp [(htail c rfl).1]
  | cons c cs ih =>
    simp only [List.cons_append, List.dropWhile_cons]
    split
    · exact ih
    · rfl

theorem takeSignificand_append (count : Nat) :
    takeSignificand s count (cs ++ tail)
      = ((takeSignificand s count cs).1, (takeSignificand s count cs).2.1,
          (takeSignificand s count cs).2.2 ++ tail) := by
  induction cs generalizing s count with
  | nil =>
    cases tail with
    | nil => rfl
    | cons c tail => simp [takeSignificand, (htail c rfl).1]
  | cons c cs ih =>
    simp only [List.cons_append, takeSignificand]
    split
    · exact ih _ _
    · rfl

theorem splitSign_append :
    Double.splitSign (cs ++ tail) = ((Double.splitSign cs).1, (Double.splitSign cs).2 ++ tail) := by
  cases cs with
  | nil =>
    cases tail with
    | nil => rfl
    | cons c tail =>
      have hc := (htail c rfl).2
      simp only [List.mem_cons, List.not_mem_nil, or_false, not_or] at hc
      simp [Double.splitSign, hc]
  | cons c cs =>
    simp only [List.cons_append]
    unfold Double.splitSign
    split
    · simp_all
    · simp_all
    · simp_all

theorem exponentPart_append :
    exponentPart negative s e (cs ++ tail) = (exponentPart negative s e cs).map (behind tail) := by
  unfold exponentPart
  rw [splitSign_append htail]
  dsimp only
  rw [takeWhile_digits htail, dropWhile_digits htail]
  split
  · rfl
  · split
    · split <;> rfl
    · rw [Option.map_map]
      rfl

theorem afterDigits_append :
    afterDigits negative s e (cs ++ tail) = (afterDigits negative s e cs).map (behind tail) := by
  cases cs with
  | nil =>
    cases tail with
    | nil => exact (map_behind_nil _).symm
    | cons c tail =>
      have hc := (htail c rfl).2
      simp only [List.mem_cons, List.not_mem_nil, or_false, not_or] at hc
      simp [afterDigits, behind, hc, Function.comp_def]
  | cons c cs =>
    simp only [List.cons_append, afterDigits]
    split
    · exact exponentPart_append htail negative s e cs
    · rw [Option.map_map]
      rfl

theorem fractionPart_append :
    fractionPart negative s e (cs ++ tail) = (fractionPart negative s e cs).map (behind tail) := by
  unfold fractionPart
  rw [takeSignificand_append htail]
  dsimp only
  rw [takeWhile_digits htail, dropWhile_digits htail]
  split
  · rfl
  · exact afterDigits_append htail negative _ _ _

end Local

/-- The number behind its whole part. -/
def wholeNumber (negative : Bool) (s : Nat) : List Char → Parsed Json
  | '.' :: ds => (fractionPart negative s 0 ds).map fun (x, r) => (.float x, r)
  | c :: ds =>
    if c == 'e' || c == 'E' then
      (exponentPart negative s 0 ds).map fun (x, r) => (.float x, r)
    else if negative && (s == 0 || 0x8000000000000000 < s) then some (.float (Double.ofInt s).neg, c :: ds)
    else some (.int (if negative then -s else s), c :: ds)
  | [] =>
    if negative && (s == 0 || 0x8000000000000000 < s) then some (.float (Double.ofInt s).neg, [])
    else some (.int (if negative then -s else s), [])

/-- The number behind more digits than a word holds. -/
def longNumber (negative : Bool) (s past : Nat) : List Char → Parsed Json
  | '.' :: ds => (fractionPart negative s past ds).map fun (x, r) => (.float x, r)
  | rest => (afterDigits negative s past rest).map fun (x, r) => (.float x, r)

theorem unsignedNumber_zero (negative : Bool) (rest : List Char) :
    unsignedNumber negative ('0' :: rest)
      = if (rest.head?.any Char.isDigit) then none else wholeNumber negative 0 rest := by
  cases rest with
  | nil => rfl
  | cons c rest => rfl

theorem unsignedNumber_digit (negative : Bool) {c : Char} (hc : c ≠ '0') (hdigit : c.isDigit = true)
    (cs : List Char) :
    unsignedNumber negative (c :: cs)
      = if ((takeSignificand 0 0 (c :: cs)).2.2.takeWhile Char.isDigit).isEmpty then
          wholeNumber negative (takeSignificand 0 0 (c :: cs)).1
            ((takeSignificand 0 0 (c :: cs)).2.2.dropWhile Char.isDigit)
        else longNumber negative (takeSignificand 0 0 (c :: cs)).1
            ((takeSignificand 0 0 (c :: cs)).2.2.takeWhile Char.isDigit).length
            ((takeSignificand 0 0 (c :: cs)).2.2.dropWhile Char.isDigit) := by
  rw [unsignedNumber, if_pos hdigit]
  · rfl
  · exact hc

theorem longNumber_of_ne {negative : Bool} {s past : Nat} {cs : List Char} (h : cs.head? ≠ some '.') :
    longNumber negative s past cs = (afterDigits negative s past cs).map fun (x, r) => (.float x, r) := by
  unfold longNumber
  split
  · exact absurd rfl h
  · rfl

/-- No number starts with anything else. -/
theorem unsignedNumber_none (negative : Bool) {c : Char} (hc : c.isDigit = false) (cs : List Char) :
    unsignedNumber negative (c :: cs) = none := by
  have hzero : c ≠ '0' := by
    rintro rfl
    cases hc
  rw [unsignedNumber, if_neg (by simp [hc])]
  exact hzero

section Local

variable {tail : List Char} (htail : Closes tail) (negative : Bool)

include htail

theorem wholeNumber_append (s : Nat) (cs : List Char) :
    wholeNumber negative s (cs ++ tail) = (wholeNumber negative s cs).map (behind tail) := by
  cases cs with
  | nil =>
    cases tail with
    | nil => exact (map_behind_nil _).symm
    | cons c tail =>
      have hc := (htail c rfl).2
      simp only [List.mem_cons, List.not_mem_nil, or_false, not_or] at hc
      rw [List.nil_append, wholeNumber, if_neg (by simp [hc])]
      · unfold wholeNumber
        split <;> rfl
      · exact hc.1
  | cons c cs =>
    by_cases hc : c = '.'
    · subst hc
      simp only [List.cons_append, wholeNumber, fractionPart_append htail, Option.map_map]
      rfl
    · rw [List.cons_append, wholeNumber, wholeNumber]
      · split
        · rw [exponentPart_append htail, Option.map_map, Option.map_map]
          rfl
        · split <;> rfl
      · exact hc
      · exact hc

theorem longNumber_append (s past : Nat) (cs : List Char) :
    longNumber negative s past (cs ++ tail) = (longNumber negative s past cs).map (behind tail) := by
  by_cases hpoint : cs.head? = some '.'
  · obtain ⟨ds, rfl⟩ := List.head?_eq_some_iff.mp hpoint
    simp only [List.cons_append, longNumber, fractionPart_append htail, Option.map_map]
    rfl
  · have hpoint' : (cs ++ tail).head? ≠ some '.' := by
      cases cs with
      | nil => exact fun hdot => (htail '.' hdot).2 (by simp)
      | cons c cs => exact hpoint
    rw [longNumber_of_ne hpoint, longNumber_of_ne hpoint', afterDigits_append htail, Option.map_map,
      Option.map_map]
    rfl

theorem unsignedNumber_append (cs : List Char) :
    unsignedNumber negative (cs ++ tail) = (unsignedNumber negative cs).map (behind tail) := by
  cases cs with
  | nil =>
    cases tail with
    | nil => rfl
    | cons c tail => exact unsignedNumber_none negative (htail c rfl).1 tail
  | cons c cs =>
    by_cases hzero : c = '0'
    · subst hzero
      have hhead : (cs ++ tail).head?.any Char.isDigit = cs.head?.any Char.isDigit := by
        cases cs with
        | nil =>
          cases tail with
          | nil => rfl
          | cons c tail => exact (htail c rfl).1
        | cons _ _ => rfl
      rw [List.cons_append, unsignedNumber_zero, unsignedNumber_zero, hhead]
      split
      · rfl
      · exact wholeNumber_append htail negative 0 cs
    · cases hdigit : c.isDigit with
      | false =>
        rw [List.cons_append, unsignedNumber_none negative hdigit, unsignedNumber_none negative hdigit]
        rfl
      | true =>
        rw [List.cons_append, unsignedNumber_digit negative hzero hdigit,
          unsignedNumber_digit negative hzero hdigit, ← List.cons_append, takeSignificand_append htail]
        dsimp only
        rw [takeWhile_digits htail, dropWhile_digits htail]
        split
        · exact wholeNumber_append htail negative _ _
        · exact longNumber_append htail negative _ _ _

/-- What stands behind a number does not matter to it. -/
theorem number_append (cs : List Char) : number (cs ++ tail) = (number cs).map (behind tail) := by
  cases cs with
  | nil =>
    cases tail with
    | nil => rfl
    | cons c tail =>
      have hc := htail c rfl
      simp only [List.mem_cons, List.not_mem_nil, or_false, not_or] at hc
      rw [List.nil_append, number]
      · exact unsignedNumber_none false hc.1 tail
      · simp [hc]
  | cons c cs =>
    by_cases hminus : c = '-'
    · subst hminus
      exact unsignedNumber_append htail true cs
    · rw [List.cons_append, number, number]
      · exact unsignedNumber_append htail false (c :: cs)
      · simp [hminus]
      · simp [hminus]

end Local

/-! ### Integers -/

/-- Digits are taken as long as the number they make fits a word. -/
theorem takeSignificand_digits {s : Nat} {cs : List Char} (hdigits : ∀ c ∈ cs, c.isDigit = true)
    (hfits : Nat.ofDigitChars 10 cs s < wordLimit) (count : Nat) :
    takeSignificand s count cs = (Nat.ofDigitChars 10 cs s, count + cs.length, []) := by
  induction cs generalizing s count with
  | nil => rfl
  | cons c cs ih =>
    rw [Nat.ofDigitChars_cons] at hfits ⊢
    have hvalue : 10 * s + (c.toNat - '0'.toNat) = 10 * s + digitValue c := rfl
    rw [hvalue] at hfits ⊢
    -- A longer run of digits makes no smaller number.
    have hgrows : 10 * s + digitValue c ≤ Nat.ofDigitChars 10 cs (10 * s + digitValue c) := by
      rw [Nat.ofDigitChars_eq_ofDigitChars_zero]
      have hpow : 0 < 10 ^ cs.length := Nat.pow_pos (by decide)
      have hscaled : 1 * (10 * s + digitValue c) ≤ 10 ^ cs.length * (10 * s + digitValue c) :=
        Nat.mul_le_mul_right _ hpow
      omega
    have hdigit : c.isDigit = true := hdigits c List.mem_cons_self
    have hrest := ih (fun c' hc' => hdigits c' (List.mem_cons_of_mem c hc')) hfits (count + 1)
    rw [takeSignificand, if_pos (by simp [hdigit]; omega), hrest, List.length_cons]
    congr 2
    omega

theorem head_toDigits {n : Nat} (hn : 0 < n) : ∃ c cs, Nat.toDigits 10 n = c :: cs ∧ c ≠ '0' := by
  induction n using Nat.strongRecOn with
  | ind n ih =>
    by_cases hsmall : n < 10
    · refine ⟨n.digitChar, [], Nat.toDigits_of_lt_base hsmall, ?_⟩
      rw [ne_eq, Nat.digitChar_eq_zero]
      omega
    · obtain ⟨c, cs, hdigits, hc⟩ := ih (n / 10) (by omega) (by omega)
      rw [Nat.toDigits_of_base_le (by decide) (by omega), hdigits]
      exact ⟨c, _, rfl, hc⟩

/-- The digits of a number that fits a word are read as the number. -/
theorem unsignedNumber_digitText (negative : Bool) {n : Nat} (hn : n < wordLimit) :
    unsignedNumber negative (Double.digitText n) = wholeNumber negative n [] := by
  unfold Double.digitText
  by_cases hzero : n = 0
  · subst hzero
    rfl
  · obtain ⟨c, cs, hdigits, hc⟩ := head_toDigits (Nat.pos_of_ne_zero hzero)
    have hall : ∀ c' ∈ c :: cs, c'.isDigit = true := by
      rw [← hdigits]
      exact fun c' hc' => Nat.isDigit_of_mem_toDigits (by decide) (by decide) hc'
    have hvalue : Nat.ofDigitChars 10 (c :: cs) 0 = n := by
      rw [← hdigits, Nat.ofDigitChars_toDigits (by decide) (by decide)]
    rw [hdigits, unsignedNumber_digit negative hc (hall c List.mem_cons_self),
      takeSignificand_digits hall (by rwa [hvalue]), hvalue]
    rfl

theorem number_intText {n : Int} (hlow : -0x8000000000000000 ≤ n) (hhigh : n < 0x10000000000000000) :
    number (Double.intText n) = some (.int n, []) := by
  have hword : n.natAbs < wordLimit := by
    unfold wordLimit
    omega
  unfold Double.intText
  split
  · rename_i hneg
    rw [number, unsignedNumber_digitText true hword]
    have hint : -(n.natAbs : Int) = n := by omega
    have hfits : ¬(true && (n.natAbs == 0 || decide (0x8000000000000000 < n.natAbs))) = true := by
      simp
      omega
    simp only [wholeNumber]
    rw [if_neg hfits, if_true, hint]
  · rename_i hneg
    have hint : (n.natAbs : Int) = n := by omega
    rw [number, unsignedNumber_digitText false hword]
    · simp [wholeNumber, hint]
    · intro cs hcs
      have hminus : '-' ∈ Nat.toDigits 10 n.natAbs := by
        rw [← Double.digitText, hcs]
        exact List.mem_cons_self
      cases Nat.isDigit_of_mem_toDigits (by decide) (by decide) hminus

/-! ### Strings -/

theorem hex4?_hexDigit {n : Nat} (hn : n < 0x20) :
    hex4? '0' '0' (Text.hexDigit (n / 16)) (Text.hexDigit (n % 16)) = some n := by
  have hall : ∀ n : Fin 0x20,
      hex4? '0' '0' (Text.hexDigit (n.val / 16)) (Text.hexDigit (n.val % 16)) = some n.val := by
    decide
  exact hall ⟨n, hn⟩

theorem stringBody_short {c e : Char} (h : shortEscape? c = some e) (taken cs : List Char) :
    stringBody none taken ('\\' :: c :: cs) = stringBody none (e :: taken) cs := by
  have hcode : c ≠ 'u' := by
    rintro rfl
    cases h
  rw [stringBody]
  · exact fun _ _ _ _ _ hu => absurd hu hcode
  · exact h

theorem stringBody_code {n : Nat} (hn : n < 0x20) (taken cs : List Char) :
    stringBody none taken
        ('\\' :: 'u' :: '0' :: '0' :: Text.hexDigit (n / 16) :: Text.hexDigit (n % 16) :: cs)
      = stringBody none (Char.ofNat n :: taken) cs := by
  rw [stringBody.eq_def]
  simp only [hex4?_hexDigit hn]
  rw [if_neg (by simp; omega), if_neg (by simp; omega)]

theorem stringBody_plain {c : Char} (hquote : c ≠ '\x22') (hslash : c ≠ '\\') (hcontrol : 0x20 ≤ c.toNat)
    (taken cs : List Char) : stringBody none taken (c :: cs) = stringBody none (c :: taken) cs := by
  rw [stringBody, if_neg (by simp [hslash]; omega), if_neg (by simp [hquote])]
  · simp [hslash]
  · simp [hslash]

/-- A written character is read as the character. -/
theorem stringBody_escape (taken : List Char) (c : Char) (cs : List Char) :
    stringBody none taken (escape c ++ cs) = stringBody none (c :: taken) cs := by
  fun_cases escape c with
  | case1 h =>
    simp only [Bool.or_eq_true, beq_iff_eq] at h
    rcases h with rfl | rfl
    · exact stringBody_short rfl taken cs
    · exact stringBody_short rfl taken cs
  | case2 _ h => exact eq_of_beq h ▸ stringBody_short rfl taken cs
  | case3 _ _ h => exact eq_of_beq h ▸ stringBody_short rfl taken cs
  | case4 _ _ _ h => exact eq_of_beq h ▸ stringBody_short rfl taken cs
  | case5 _ _ _ _ h => exact eq_of_beq h ▸ stringBody_short rfl taken cs
  | case6 _ _ _ _ _ h => exact eq_of_beq h ▸ stringBody_short rfl taken cs
  | case7 _ _ _ _ _ _ h =>
    have hread := stringBody_code h taken cs
    rwa [Char.ofNat_toNat] at hread
  | case8 hplain _ _ _ _ _ h =>
    simp only [Bool.or_eq_true, beq_iff_eq, not_or] at hplain
    exact stringBody_plain hplain.1 hplain.2 (by omega) taken cs

theorem stringBody_flatMap (cs taken tail : List Char) :
    stringBody none taken (cs.flatMap escape ++ '\x22' :: tail)
      = some (String.ofList (taken.reverse ++ cs), tail) := by
  induction cs generalizing taken with
  | nil =>
    rw [List.append_nil]
    rfl
  | cons c cs ih =>
    rw [List.flatMap_cons, List.append_assoc, stringBody_escape, ih]
    simp

/-- A text in quotes is read as the text. -/
theorem stringBody_strChars (s : String) (tail : List Char) :
    ∃ cs, strChars s ++ tail = '\x22' :: cs ∧ stringBody none [] cs = some (s, tail) := by
  refine ⟨s.toList.flatMap escape ++ '\x22' :: tail, by simp [strChars], ?_⟩
  rw [stringBody_flatMap]
  simp

/-! ### Values -/

attribute [local simp] value

/-- A text that reads as a number starts with a sign or a digit. -/
theorem head_of_number {cs : List Char} {j : Json} {rest : List Char} (h : number cs = some (j, rest)) :
    ∃ c cs', cs = c :: cs' ∧ (c = '-' ∨ c.isDigit = true) := by
  cases cs with
  | nil => cases h
  | cons c cs =>
    refine ⟨c, cs, rfl, ?_⟩
    by_cases hminus : c = '-'
    · exact .inl hminus
    · refine .inr ?_
      cases hdigit : c.isDigit with
      | true => rfl
      | false =>
        rw [number] at h
        · rw [unsignedNumber_none false hdigit] at h
          cases h
        · simp [hminus]

/-- The characters that other values and the blanks before them start with. -/
def nonNumeric : List Char := [' ', '\n', '\t', '\r', 'n', 't', 'f', '\x22', '[', '\x7b', ']']

theorem not_mem_nonNumeric {c : Char} (hc : c = '-' ∨ c.isDigit = true) : c ∉ nonNumeric := by
  have hall : nonNumeric.all (fun c => !(c == '-' || c.isDigit)) = true := rfl
  intro hmem
  have hother := List.all_eq_true.mp hall c hmem
  simp only [Bool.not_eq_true', Bool.or_eq_false_iff, beq_eq_false_iff_ne] at hother
  rcases hc with rfl | hdigit
  · exact hother.1 rfl
  · rw [hother.2] at hdigit
    cases hdigit

theorem isBlank_of_numeric {c : Char} (hc : c = '-' ∨ c.isDigit = true) : isBlank c = false := by
  have hnot := not_mem_nonNumeric hc
  simp only [nonNumeric, List.mem_cons, not_or] at hnot
  simp [isBlank, hnot]

theorem skipBlanks_cons {c : Char} (hc : isBlank c = false) (cs : List Char) :
    skipBlanks (c :: cs) = c :: cs := by
  rw [skipBlanks, List.dropWhile_cons, hc]
  rfl

/-- A text that starts as numbers do is read as a number. -/
theorem value_of_numeric {c : Char} (hc : c = '-' ∨ c.isDigit = true) (cs : List Char) (fuel depth : Nat) :
    value (fuel + 1) depth (c :: cs) = number (c :: cs) := by
  have hother : ∀ {x : Char} {rest : List Char}, x ∈ nonNumeric → c :: cs ≠ x :: rest := by
    rintro x rest hx heq
    cases heq
    exact not_mem_nonNumeric hc hx
  rw [value.eq_def]
  dsimp only
  rw [skipBlanks_cons (isBlank_of_numeric hc)]
  split
  · exact absurd ‹_› (hother (by decide))
  · exact absurd ‹_› (hother (by decide))
  · exact absurd ‹_› (hother (by decide))
  · exact absurd ‹_› (hother (by decide))
  · exact absurd ‹_› (hother (by decide))
  · exact absurd ‹_› (hother (by decide))
  · rfl

/-- What reads as a number is read as a value of its own. -/
theorem value_number {cs tail : List Char} {j : Json} (h : number cs = some (j, [])) (htail : Closes tail)
    (fuel depth : Nat) : value (fuel + 1) depth (cs ++ tail) = some (j, tail) := by
  have hnumber : number (cs ++ tail) = some (j, tail) := by
    rw [number_append htail, h]
    rfl
  obtain ⟨c, cs', rfl, hc⟩ := head_of_number h
  rw [List.cons_append, value_of_numeric hc]
  exact hnumber

theorem head_intText (n : Int) : ∃ c cs, Double.intText n = c :: cs ∧ (c = '-' ∨ c.isDigit = true) := by
  obtain ⟨d, ds, hds⟩ := List.exists_cons_of_ne_nil (Double.digitText_ne_nil n.natAbs)
  unfold Double.intText
  split
  · exact ⟨'-', _, rfl, .inl rfl⟩
  · exact ⟨d, ds, hds, .inr (Double.isDigit_digitText (hds ▸ List.mem_cons_self))⟩

theorem head_finiteText (format : Double.NumberFormat) (x : Double) :
    ∃ c cs, x.finiteText format = c :: cs ∧ (c = '-' ∨ c.isDigit = true) := by
  unfold Double.finiteText
  split
  · exact ⟨'-', _, rfl, .inl rfl⟩
  · obtain ⟨d, ds, hds, hd⟩ := (Double.isDecimal_magnitudeText format x).head
    exact ⟨d, ds, hds, .inr hd⟩

theorem number_floatChars {x : Double} (h : x.HasNumeral) :
    number (floatChars x) = some (.float x, []) := by
  rw [floatChars, if_pos h.1]
  exact h.2

/-- The text of a value starts with neither a blank nor a closing bracket. -/
theorem print_cons (j : Json) (tail : List Char) :
    ∃ c cs, print j tail = c :: cs ∧ isBlank c = false ∧ c ≠ ']' := by
  have hnumeric : ∀ {cs : List Char}, (∃ c cs', cs = c :: cs' ∧ (c = '-' ∨ c.isDigit = true)) →
      ∃ c cs', cs ++ tail = c :: cs' ∧ isBlank c = false ∧ c ≠ ']' := by
    rintro cs ⟨c, cs', rfl, hc⟩
    refine ⟨c, cs' ++ tail, rfl, isBlank_of_numeric hc, ?_⟩
    rintro rfl
    exact not_mem_nonNumeric hc (by decide)
  cases j with
  | null => exact ⟨_, _, rfl, rfl, by decide⟩
  | bool b => cases b <;> exact ⟨_, _, rfl, rfl, by decide⟩
  | int n => exact hnumeric (head_intText n)
  | float x =>
    rw [print, floatChars]
    split
    · exact hnumeric (head_finiteText _ x)
    · exact ⟨_, _, rfl, rfl, by decide⟩
  | str s => exact ⟨_, _, rfl, rfl, by decide⟩
  | arr items =>
    cases items with
    | nil => exact ⟨_, _, rfl, rfl, by decide⟩
    | cons _ _ => exact ⟨_, _, rfl, rfl, by decide⟩
  | obj members =>
    cases members with
    | nil => exact ⟨_, _, rfl, rfl, by decide⟩
    | cons m ms => exact ⟨_, _, rfl, rfl, by decide⟩

mutual

theorem length_print : ∀ {j : Json}, Readable Double.HasNumeral j →
    ∀ tail : List Char, tail.length < (print j tail).length
  | .null, _, tail => by simp only [print, List.length_cons]; omega
  | .bool true, _, tail => by simp only [print, List.length_cons]; omega
  | .bool false, _, tail => by simp only [print, List.length_cons]; omega
  | .int n, hj, tail => by
    obtain ⟨c, cs, htext, -⟩ := head_of_number (number_intText hj.1 hj.2)
    simp only [print, htext, List.length_cons, List.length_append]
    omega
  | .float x, hj, tail => by
    obtain ⟨c, cs, htext, -⟩ := head_of_number (number_floatChars hj)
    simp only [print, htext, List.length_cons, List.length_append]
    omega
  | .str s, _, tail => by simp only [print, strChars, List.length_cons, List.length_append]; omega
  | .arr [], _, tail => by simp only [print, List.length_cons]; omega
  | .arr (j :: js), hj, tail => by
    have hitem := length_print hj.1 (printItems js tail)
    have hitems := length_printItems hj.2 tail
    simp only [print, List.length_cons]
    omega
  | .obj [], _, tail => by simp only [print, List.length_cons]; omega
  | .obj ((k, j) :: ms), hj, tail => by
    have hmember := length_print hj.1 (printMembers ms tail)
    have hmembers := length_printMembers hj.2 tail
    simp only [print, List.length_cons, List.length_append]
    omega

theorem length_printItems : ∀ {js : List Json}, Readable.EachReadable Double.HasNumeral js →
    ∀ tail : List Char, tail.length < (printItems js tail).length
  | [], _, tail => by simp [printItems]
  | j :: js, hjs, tail => by
    have hitem := length_print hjs.1 (printItems js tail)
    have hitems := length_printItems hjs.2 tail
    simp only [printItems, List.length_cons]
    omega

theorem length_printMembers : ∀ {ms : List (String × Json)}, Readable.MembersReadable Double.HasNumeral ms →
    ∀ tail : List Char, tail.length < (printMembers ms tail).length
  | [], _, tail => by simp [printMembers]
  | (k, j) :: ms, hms, tail => by
    have hmember := length_print hms.1 (printMembers ms tail)
    have hmembers := length_printMembers hms.2 tail
    simp only [printMembers, List.length_cons, List.length_append]
    omega

end

/-- What follows an item. -/
def itemsAfter (fuel depth : Nat) (taken : List Json) (cs : List Char) : Parsed (List Json) :=
  match skipBlanks cs with
  | ',' :: rest => items fuel depth taken rest
  | ']' :: rest => some (taken.reverse, rest)
  | _ => none

theorem items_succ (fuel depth : Nat) (taken : List Json) (cs : List Char) :
    items (fuel + 1) depth taken cs
      = (value fuel depth cs).bind fun (j, rest) => itemsAfter fuel depth (j :: taken) rest := by
  rw [items.eq_def]
  dsimp only
  cases value fuel depth cs <;> rfl

/-- What follows a member. -/
def membersAfter (fuel depth : Nat) (taken : List (String × Json)) (cs : List Char) :
    Parsed (List (String × Json)) :=
  match skipBlanks cs with
  | ',' :: rest => members fuel depth taken rest
  | '\x7d' :: rest => some (taken.reverse, rest)
  | _ => none

theorem members_succ (fuel depth : Nat) (taken : List (String × Json)) (k : String) (cs : List Char) :
    members (fuel + 1) depth taken (strChars k ++ ':' :: cs)
      = (value fuel depth cs).bind fun (j, rest) => membersAfter fuel depth ((k, j) :: taken) rest := by
  obtain ⟨text, htext, hkey⟩ := stringBody_strChars k (':' :: cs)
  have hquote : isBlank '\x22' = false := rfl
  have hcolon : isBlank ':' = false := rfl
  rw [htext, members.eq_def]
  simp only [skipBlanks_cons hquote, hkey, skipBlanks_cons hcolon]
  cases value fuel depth cs <;> rfl

theorem closes_printItems (js : List Json) (tail : List Char) : Closes (printItems js tail) := by
  cases js with
  | nil => exact closes_cons (by decide) tail
  | cons j js => exact closes_cons (by decide) _

theorem closes_printMembers (ms : List (String × Json)) (tail : List Char) :
    Closes (printMembers ms tail) := by
  cases ms with
  | nil => exact closes_cons (by decide) tail
  | cons m ms => exact closes_cons (by decide) _

theorem value_arr {fuel depth : Nat} {c : Char} {cs : List Char} (hblank : isBlank c = false)
    (hbracket : c ≠ ']') :
    value (fuel + 1) (depth + 1) ('[' :: c :: cs)
      = (items fuel depth [] (c :: cs)).map fun (js, rest) => (.arr js, rest) := by
  have hopen : isBlank '[' = false := rfl
  simp [skipBlanks_cons hopen, skipBlanks_cons hblank, hbracket]

theorem value_obj (fuel depth : Nat) (cs : List Char) :
    value (fuel + 1) (depth + 1) ('\x7b' :: '\x22' :: cs)
      = (members fuel depth [] ('\x22' :: cs)).map fun (ms, rest) => (.obj ms, rest) := by
  have hopen : isBlank '\x7b' = false := rfl
  have hquote : isBlank '\x22' = false := rfl
  simp [skipBlanks_cons hopen, skipBlanks_cons hquote]

theorem depth_cons {j : Json} {js : List Json} {depth : Nat} (h : Json.depth.depths (j :: js) ≤ depth) :
    j.depth ≤ depth ∧ Json.depth.depths js ≤ depth :=
  Nat.max_le.mp h

theorem memberDepths_cons {k : String} {j : Json} {ms : List (String × Json)} {depth : Nat}
    (h : Json.depth.memberDepths ((k, j) :: ms) ≤ depth) :
    j.depth ≤ depth ∧ Json.depth.memberDepths ms ≤ depth :=
  Nat.max_le.mp h

mutual

/-- The text of a value reads as the value, whatever follows; the fuel is as long as the text. -/
theorem value_print : ∀ {j : Json} {fuel depth : Nat} {tail : List Char},
    Readable Double.HasNumeral j → j.depth ≤ depth →
    Closes tail → (print j tail).length < fuel + tail.length →
    value fuel depth (print j tail) = some (j, tail)
  | _, 0, _, tail, hj, _, _, hfuel => by
    have hlength := length_print hj tail
    omega
  | .null, fuel + 1, depth, tail, _, _, _, _ => rfl
  | .bool true, fuel + 1, depth, tail, _, _, _, _ => rfl
  | .bool false, fuel + 1, depth, tail, _, _, _, _ => rfl
  | .int n, fuel + 1, depth, tail, hj, _, htail, _ => value_number (number_intText hj.1 hj.2) htail fuel depth
  | .float x, fuel + 1, depth, tail, hj, _, htail, _ => value_number (number_floatChars hj) htail fuel depth
  | .str s, fuel + 1, depth, tail, _, _, _, _ => by
    obtain ⟨text, htext, hs⟩ := stringBody_strChars s tail
    have hquote : isBlank '\x22' = false := rfl
    rw [print, htext, value.eq_def]
    simp only [skipBlanks_cons hquote, hs]
    rfl
  | .arr [], fuel + 1, depth + 1, tail, _, _, _, _ => rfl
  | .arr (j :: js), fuel + 1, depth + 1, tail, hj, hdepth, htail, hfuel => by
    obtain ⟨c, cs, htext, hblank, hbracket⟩ := print_cons j (printItems js tail)
    have hitems : items fuel depth [] (print j (printItems js tail)) = some (j :: js, tail) :=
      items_print hj (Nat.le_of_succ_le_succ hdepth) htail (by
        simp only [print, List.length_cons] at hfuel
        omega)
    rw [htext] at hitems
    rw [print, htext, value_arr hblank hbracket, hitems]
    rfl
  | .obj [], fuel + 1, depth + 1, tail, _, _, _, _ => rfl
  | .obj ((k, j) :: ms), fuel + 1, depth + 1, tail, hj, hdepth, htail, hfuel => by
    have hmembers : members fuel depth [] (strChars k ++ ':' :: print j (printMembers ms tail))
        = some ((k, j) :: ms, tail) :=
      members_print hj (Nat.le_of_succ_le_succ hdepth) htail (by
        simp only [print, List.length_cons, List.length_append] at hfuel ⊢
        omega)
    exact (value_obj fuel depth _).trans (congrArg _ hmembers)

theorem items_print : ∀ {j : Json} {js : List Json} {fuel depth : Nat} {taken : List Json} {tail : List Char},
    Readable.EachReadable Double.HasNumeral (j :: js) → Json.depth.depths (j :: js) ≤ depth → Closes tail →
    (print j (printItems js tail)).length < fuel + tail.length →
    items fuel depth taken (print j (printItems js tail)) = some (taken.reverse ++ j :: js, tail)
  | j, js, 0, depth, taken, tail, hjs, _, _, hfuel => by
    have hitem := length_print hjs.1 (printItems js tail)
    have hitems := length_printItems hjs.2 tail
    omega
  | j, js, fuel + 1, depth, taken, tail, hjs, hdepth, htail, hfuel => by
    have hitem := length_print hjs.1 (printItems js tail)
    have hitems := length_printItems hjs.2 tail
    have hvalue : value fuel depth (print j (printItems js tail)) = some (j, printItems js tail) :=
      value_print hjs.1 (depth_cons hdepth).1 (closes_printItems js tail) (by omega)
    rw [items_succ, hvalue, Option.bind_some]
    cases js with
    | nil =>
      show some ((j :: taken).reverse, tail) = _
      rw [List.reverse_cons]
    | cons j' js =>
      show items fuel depth (j :: taken) (print j' (printItems js tail)) = _
      rw [items_print hjs.2 (depth_cons hdepth).2 htail (by
        simp only [printItems, List.length_cons] at hitem hfuel
        omega)]
      simp

theorem members_print : ∀ {k : String} {j : Json} {ms : List (String × Json)} {fuel depth : Nat}
    {taken : List (String × Json)} {tail : List Char},
    Readable.MembersReadable Double.HasNumeral ((k, j) :: ms) →
    Json.depth.memberDepths ((k, j) :: ms) ≤ depth → Closes tail →
    (strChars k ++ ':' :: print j (printMembers ms tail)).length < fuel + tail.length →
    members fuel depth taken (strChars k ++ ':' :: print j (printMembers ms tail))
      = some (taken.reverse ++ (k, j) :: ms, tail)
  | k, j, ms, 0, depth, taken, tail, hms, _, _, hfuel => by
    have hmember := length_print hms.1 (printMembers ms tail)
    have hmembers := length_printMembers hms.2 tail
    simp only [List.length_append, List.length_cons] at hfuel
    omega
  | k, j, ms, fuel + 1, depth, taken, tail, hms, hdepth, htail, hfuel => by
    have hmember := length_print hms.1 (printMembers ms tail)
    have hmembers := length_printMembers hms.2 tail
    simp only [List.length_append, List.length_cons] at hfuel
    have hvalue : value fuel depth (print j (printMembers ms tail)) = some (j, printMembers ms tail) :=
      value_print hms.1 (memberDepths_cons hdepth).1 (closes_printMembers ms tail) (by omega)
    rw [members_succ, hvalue, Option.bind_some]
    cases ms with
    | nil =>
      show some (((k, j) :: taken).reverse, tail) = _
      rw [List.reverse_cons]
    | cons m ms =>
      show members fuel depth ((k, j) :: taken) (strChars m.1 ++ ':' :: print m.2 (printMembers ms tail)) = _
      rw [members_print hms.2 (memberDepths_cons hdepth).2 htail (by
        simp only [printMembers, List.length_cons, List.length_append] at hmember hfuel ⊢
        omega)]
      simp

end

/-- The text of a value denotes the value. -/
theorem parse?_print {j : Json} {depth : Nat} (hj : Readable Double.HasNumeral j) (hdepth : j.depth ≤ depth) :
    parse? depth (print j []) = some j := by
  rw [parse?, value_print hj hdepth closes_nil (by simp)]
  rfl

end Json

end LispMachine
