import LispMachine.Proofs.Json.RoundTrip

/-! # What the text of any value denotes

The text of a value need not read back: an integer may be too large, and a decimal may come back as its
neighbour.  But numbers are all that can change: whatever the text of `j` denotes is like `j`
(`like_of_parse?`).  A number may even end before its text does, and what is left over is then of characters
that numbers are written with, so that nothing else can go on there (`value_like`). -/

namespace LispMachine.Json

/-- The items are like each other place by place. -/
def LikeEach (js js' : List Json) : Prop := js.length = js'.length ∧ ∀ p ∈ js.zip js', Like p.1 p.2

theorem LikeEach.nil : LikeEach [] [] := ⟨rfl, nofun⟩

theorem LikeEach.cons {j j' : Json} {js js' : List Json} (h : Like j j') (hs : LikeEach js js') :
    LikeEach (j :: js) (j' :: js') :=
  ⟨congrArg (· + 1) hs.1, List.forall_mem_cons.mpr ⟨h, hs.2⟩⟩

/-! ### Numbers -/

section Suffix

variable {negative : Bool} {s : Nat} {e : Int} {cs r : List Char}

theorem takeSignificand_suffix (s count : Nat) (cs : List Char) : (takeSignificand s count cs).2.2 <:+ cs := by
  induction cs generalizing s count with
  | nil => exact List.suffix_rfl
  | cons c cs ih =>
    rw [takeSignificand]
    split
    · exact (ih _ _).trans (List.suffix_cons c cs)
    · exact List.suffix_rfl

theorem splitSign_suffix (cs : List Char) : (Double.splitSign cs).2 <:+ cs := by
  unfold Double.splitSign
  split
  · exact List.suffix_cons _ _
  · exact List.suffix_cons _ _
  · exact List.suffix_rfl

theorem map_some_suffix {α β : Type} {p : Parsed α} {f : α → β} {b : β}
    (hp : ∀ a, p = some (a, r) → r <:+ cs) (h : p.map (fun q => (f q.1, q.2)) = some (b, r)) : r <:+ cs := by
  obtain ⟨⟨a, r'⟩, hpart, heq⟩ := Option.map_eq_some_iff.mp h
  cases heq
  exact hp a hpart

theorem exponentPart_suffix {x : Double} (h : exponentPart negative s e cs = some (x, r)) : r <:+ cs := by
  have hrest : (Double.splitSign cs).2.dropWhile Char.isDigit <:+ cs :=
    (List.dropWhile_suffix _).trans (splitSign_suffix cs)
  unfold exponentPart at h
  dsimp only at h
  split at h
  · cases h
  · split at h
    · split at h
      · cases h
      · cases h
        exact hrest
    · obtain ⟨y, -, heq⟩ := Option.map_eq_some_iff.mp h
      cases heq
      exact hrest

theorem afterDigits_suffix {x : Double} (h : afterDigits negative s e cs = some (x, r)) : r <:+ cs := by
  unfold afterDigits at h
  split at h
  · split at h
    · exact (exponentPart_suffix h).trans (List.suffix_cons _ _)
    · obtain ⟨y, -, heq⟩ := Option.map_eq_some_iff.mp h
      cases heq
      exact List.suffix_rfl
  · obtain ⟨y, -, heq⟩ := Option.map_eq_some_iff.mp h
    cases heq
    exact List.suffix_rfl

theorem fractionPart_suffix {x : Double} (h : fractionPart negative s e cs = some (x, r)) : r <:+ cs := by
  unfold fractionPart at h
  dsimp only at h
  split at h
  · cases h
  · exact ((afterDigits_suffix h).trans (List.dropWhile_suffix _)).trans (takeSignificand_suffix s 0 cs)

theorem wholeNumber_suffix {j : Json} (h : wholeNumber negative s cs = some (j, r)) : r <:+ cs := by
  unfold wholeNumber at h
  split at h
  · exact map_some_suffix (fun x hx => (fractionPart_suffix hx).trans (List.suffix_cons _ _)) h
  · split at h
    · exact map_some_suffix (fun x hx => (exponentPart_suffix hx).trans (List.suffix_cons _ _)) h
    · split at h
      · cases h
        exact List.suffix_rfl
      · cases h
        exact List.suffix_rfl
  · split at h
    · cases h
      exact List.suffix_rfl
    · cases h
      exact List.suffix_rfl

theorem longNumber_suffix {past : Nat} {j : Json} (h : longNumber negative s past cs = some (j, r)) : r <:+ cs := by
  unfold longNumber at h
  split at h
  · exact map_some_suffix (fun x hx => (fractionPart_suffix hx).trans (List.suffix_cons _ _)) h
  · exact map_some_suffix (fun x hx => afterDigits_suffix hx) h

theorem unsignedNumber_suffix {j : Json} (h : unsignedNumber negative cs = some (j, r)) : r <:+ cs := by
  cases cs with
  | nil => cases h
  | cons c cs =>
    by_cases hzero : c = '0'
    · subst hzero
      rw [unsignedNumber_zero] at h
      split at h
      · cases h
      · exact (wholeNumber_suffix h).trans (List.suffix_cons _ _)
    · cases hdigit : c.isDigit with
      | false =>
        rw [unsignedNumber_none negative hdigit] at h
        cases h
      | true =>
        have hdigits : (takeSignificand 0 0 (c :: cs)).2.2.dropWhile Char.isDigit <:+ c :: cs :=
          (List.dropWhile_suffix _).trans (takeSignificand_suffix 0 0 (c :: cs))
        rw [unsignedNumber_digit negative hzero hdigit] at h
        split at h
        · exact (wholeNumber_suffix h).trans hdigits
        · exact (longNumber_suffix h).trans hdigits

/-- What is left behind a number is the end of the text. -/
theorem number_suffix {j : Json} (h : number cs = some (j, r)) : r <:+ cs := by
  unfold number at h
  split at h
  · exact (unsignedNumber_suffix h).trans (List.suffix_cons _ _)
  · exact unsignedNumber_suffix h

end Suffix

/-- What the text of a number is read as, if it is read: some number, perhaps of a part of the text. -/
theorem value_numeral {cs tail rest : List Char} {j : Json} {fuel depth : Nat}
    (hhead : ∃ c cs', cs = c :: cs' ∧ (c = '-' ∨ c.isDigit = true)) (hcs : ∀ c ∈ cs, Double.isNumeral c = true)
    (htail : Closes tail) (h : value (fuel + 1) depth (cs ++ tail) = some (j, rest)) :
    ∃ r, rest = r ++ tail ∧ ∀ c ∈ r, Double.isNumeral c = true := by
  obtain ⟨c, cs', rfl, hc⟩ := hhead
  rw [List.cons_append, value_of_numeric hc, ← List.cons_append, number_append htail] at h
  obtain ⟨⟨j', r⟩, hnumber, heq⟩ := Option.map_eq_some_iff.mp h
  cases heq
  exact ⟨r, rfl, fun c hmem => hcs c ((number_suffix hnumber).subset hmem)⟩

/-! ### Values -/

/-- No blank, separator or bracket is a character that numbers are written with. -/
theorem numeral_ne {c : Char} (hc : Double.isNumeral c = true) :
    isBlank c = false ∧ c ≠ ',' ∧ c ≠ ']' ∧ c ≠ '\x7d' := by
  refine ⟨?_, ?_, ?_, ?_⟩
  · rw [Bool.eq_false_iff]
    intro hblank
    simp only [isBlank, Bool.or_eq_true, beq_iff_eq] at hblank
    rcases hblank with ((rfl | rfl) | rfl) | rfl <;> cases hc
  all_goals
    rintro rfl
    cases hc

section Leftover

variable {fuel depth : Nat} {r cs : List Char} (hr : ∀ c ∈ r, Double.isNumeral c = true)

include hr

/-- Items do not go on behind a number that ended early. -/
theorem itemsAfter_leftover {taken : List Json} {p : List Json × List Char}
    (h : itemsAfter fuel depth taken (r ++ cs) = some p) : r = [] := by
  cases r with
  | nil => rfl
  | cons c r =>
    obtain ⟨hblank, hcomma, hbracket, -⟩ := numeral_ne (hr c List.mem_cons_self)
    rw [itemsAfter, List.cons_append, skipBlanks_cons hblank] at h
    simp [hcomma, hbracket] at h

theorem membersAfter_leftover {taken : List (String × Json)} {p : List (String × Json) × List Char}
    (h : membersAfter fuel depth taken (r ++ cs) = some p) : r = [] := by
  cases r with
  | nil => rfl
  | cons c r =>
    obtain ⟨hblank, hcomma, -, hbrace⟩ := numeral_ne (hr c List.mem_cons_self)
    rw [membersAfter, List.cons_append, skipBlanks_cons hblank] at h
    simp [hcomma, hbrace] at h

end Leftover

mutual

/-- What the text of a value is read as, in front of more text: a value like it, and only a number may leave
something over. -/
theorem value_like : ∀ {j j' : Json} {fuel depth : Nat} {tail rest : List Char}, Closes tail →
    value fuel depth (print j tail) = some (j', rest) →
    Like j j' ∧ ∃ r, rest = r ++ tail ∧ ∀ c ∈ r, Double.isNumeral c = true
  | _, _, 0, _, _, _, _, h => by cases h
  | .null, _, fuel + 1, depth, tail, _, _, h => by
    cases h
    exact ⟨.null, [], rfl, nofun⟩
  | .bool true, _, fuel + 1, depth, tail, _, _, h => by
    cases h
    exact ⟨.bool true, [], rfl, nofun⟩
  | .bool false, _, fuel + 1, depth, tail, _, _, h => by
    cases h
    exact ⟨.bool false, [], rfl, nofun⟩
  | .int n, j', fuel + 1, depth, tail, _, htail, h =>
    ⟨.int n j', value_numeral (head_intText n) (fun _ => Double.isNumeral_intText) htail h⟩
  | .float x, j', fuel + 1, depth, tail, _, htail, h => by
    refine ⟨.float x j', ?_⟩
    rw [print, floatChars] at h
    split at h
    · exact value_numeral (head_finiteText _ x) (fun _ => Datum.isNumeral_finiteText) htail h
    · cases h
      exact ⟨[], rfl, nofun⟩
  | .str s, _, fuel + 1, depth, tail, _, _, h => by
    obtain ⟨text, htext, hs⟩ := stringBody_strChars s tail
    have hquote : isBlank '\x22' = false := rfl
    rw [print, htext, value.eq_def] at h
    simp only [skipBlanks_cons hquote, hs] at h
    cases h
    exact ⟨.str s, [], rfl, nofun⟩
  | .arr [], _, fuel + 1, 0, tail, _, _, h => by cases h
  | .arr [], _, fuel + 1, depth + 1, tail, _, _, h => by
    cases h
    exact ⟨.arr rfl nofun, [], rfl, nofun⟩
  | .arr (j :: js), _, fuel + 1, 0, tail, _, _, h => by cases h
  | .arr (j :: js), j', fuel + 1, depth + 1, tail, rest, htail, h => by
    obtain ⟨c, cs, htext, hblank, hbracket⟩ := print_cons j (printItems js tail)
    rw [print, htext, value_arr hblank hbracket, ← htext] at h
    obtain ⟨⟨js', rest'⟩, hitems, heq⟩ := Option.map_eq_some_iff.mp h
    cases heq
    obtain ⟨ks, rfl, rfl, hlike⟩ := items_like htail hitems
    exact ⟨.arr hlike.1 hlike.2, [], rfl, nofun⟩
  | .obj [], _, fuel + 1, 0, tail, _, _, h => by cases h
  | .obj [], _, fuel + 1, depth + 1, tail, _, _, h => by
    cases h
    exact ⟨.obj rfl nofun, [], rfl, nofun⟩
  | .obj ((k, j) :: ms), _, fuel + 1, 0, tail, _, _, h => by cases h
  | .obj ((k, j) :: ms), j', fuel + 1, depth + 1, tail, rest, htail, h => by
    obtain ⟨⟨ms', rest'⟩, hmembers, heq⟩ := Option.map_eq_some_iff.mp ((value_obj fuel depth _).symm.trans h)
    cases heq
    obtain ⟨ks, rfl, rfl, hkeys, hlike⟩ := members_like htail hmembers
    exact ⟨.obj hkeys hlike.2, [], rfl, nofun⟩

theorem items_like : ∀ {j : Json} {js : List Json} {ks : List Json} {fuel depth : Nat} {taken : List Json}
    {tail rest : List Char}, Closes tail →
    items fuel depth taken (print j (printItems js tail)) = some (ks, rest) →
    ∃ js', ks = taken.reverse ++ js' ∧ rest = tail ∧ LikeEach (j :: js) js'
  | _, _, _, 0, _, _, _, _, _, h => by cases h
  | j, js, ks, fuel + 1, depth, taken, tail, rest, htail, h => by
    rw [items_succ] at h
    obtain ⟨⟨j', rest'⟩, hvalue, hafter⟩ := Option.bind_eq_some_iff.mp h
    obtain ⟨hlike, r, rfl, hr⟩ := value_like (closes_printItems js tail) hvalue
    obtain rfl := itemsAfter_leftover hr hafter
    cases js with
    | nil =>
      cases hafter
      exact ⟨[j'], List.reverse_cons, rfl, .cons hlike .nil⟩
    | cons j₂ js =>
      have hitems : items fuel depth (j' :: taken) (print j₂ (printItems js tail)) = some (ks, rest) := hafter
      obtain ⟨js', rfl, rfl, hrest⟩ := items_like htail hitems
      exact ⟨j' :: js', by simp, rfl, .cons hlike hrest⟩

theorem members_like : ∀ {k : String} {j : Json} {ms ks : List (String × Json)} {fuel depth : Nat}
    {taken : List (String × Json)} {tail rest : List Char}, Closes tail →
    members fuel depth taken (strChars k ++ ':' :: print j (printMembers ms tail)) = some (ks, rest) →
    ∃ ms', ks = taken.reverse ++ ms' ∧ rest = tail ∧
      ((k, j) :: ms).map Prod.fst = ms'.map Prod.fst ∧
      LikeEach (((k, j) :: ms).map Prod.snd) (ms'.map Prod.snd)
  | _, _, _, _, 0, _, _, _, _, _, h => by cases h
  | k, j, ms, ks, fuel + 1, depth, taken, tail, rest, htail, h => by
    rw [members_succ] at h
    obtain ⟨⟨j', rest'⟩, hvalue, hafter⟩ := Option.bind_eq_some_iff.mp h
    obtain ⟨hlike, r, rfl, hr⟩ := value_like (closes_printMembers ms tail) hvalue
    obtain rfl := membersAfter_leftover hr hafter
    cases ms with
    | nil =>
      cases hafter
      exact ⟨[(k, j')], List.reverse_cons, rfl, rfl, .cons hlike .nil⟩
    | cons m ms =>
      have hmembers : members fuel depth ((k, j') :: taken)
          (strChars m.1 ++ ':' :: print m.2 (printMembers ms tail)) = some (ks, rest) := hafter
      obtain ⟨ms', rfl, rfl, hkeys, hrest⟩ := members_like htail hmembers
      exact ⟨(k, j') :: ms', by simp, rfl, congrArg (k :: ·) hkeys, .cons hlike hrest⟩

end

/-- Whatever the text of a value denotes is like the value. -/
theorem like_of_parse? {j j' : Json} {depth : Nat} (h : parse? depth (print j []) = some j') : Like j j' := by
  unfold parse? at h
  split at h
  · rename_i hvalue
    split at h
    · cases h
      exact (value_like closes_nil hvalue).1
    · cases h
  · cases h

end LispMachine.Json
