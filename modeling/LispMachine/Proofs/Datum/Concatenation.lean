import LispMachine.Proofs.Datum.Offset
import LispMachine.Proofs.Datum.RoundTrip

/-! # Texts read one behind the other

The reader goes through a text once, and what it gives for a form depends on the form and on where it stands,
on nothing before it and on nothing behind it.  Two facts about every reading function say so.  It leaves the
cursor behind the characters it has taken, at the place that is counted from these (`Cursor.Moves`); and where
more text stands before and behind, it gives the same data, only as far on as the text before reaches
(`Cursor.within`, `Datum.shift`).  Both go by the fuel of the reader, and for a form by the ways it can start
(`Starts`).

The main result is `readAll_append`: two texts with a line break between them are read as the data of the first
and those of the second, moved on by the lines and characters of the first. -/

namespace LispMachine

variable {k : Offset}

/-! ### Cursors -/

namespace Cursor

/-- The cursor in a longer text, `tail` being what stands behind. -/
def within (k : Offset) (tail : List Char) (c : Cursor) : Cursor := ⟨c.rest ++ tail, c.span.shift k⟩

theorem within_cons (tail : List Char) (ch : Char) (cs : List Char) (span : Span) :
    within k tail ⟨ch :: cs, span⟩ = ⟨ch :: (cs ++ tail), span.shift k⟩ := rfl

theorem within_after (tail cs : List Char) (span : Span) (ch : Char) :
    within k tail ⟨cs, span.after ch⟩ = ⟨cs ++ tail, (span.shift k).after ch⟩ := by
  rw [within, Span.shift_after]

/-- From the one cursor to the other characters were taken, and the place counted on by these. -/
def Moves (c c' : Cursor) : Prop := ∃ cs, c.rest = cs ++ c'.rest ∧ c'.span = c.span.afterAll cs

theorem Moves.refl (c : Cursor) : c.Moves c := ⟨[], rfl, rfl⟩

theorem Moves.trans {c c' c'' : Cursor} (h : c.Moves c') (h' : c'.Moves c'') : c.Moves c'' := by
  obtain ⟨cs, hrest, hspan⟩ := h
  obtain ⟨cs', hrest', hspan'⟩ := h'
  exact ⟨cs ++ cs', by rw [hrest, hrest', List.append_assoc], by rw [hspan', hspan, Span.afterAll_append]⟩

theorem Moves.cons {ch : Char} {cs : List Char} {span : Span} {c' : Cursor}
    (h : Moves ⟨cs, span.after ch⟩ c') : Moves ⟨ch :: cs, span⟩ c' :=
  Moves.trans ⟨[ch], rfl, rfl⟩ h

theorem Moves.length_le {c c' : Cursor} (h : c.Moves c') : c'.rest.length ≤ c.rest.length := by
  obtain ⟨cs, hrest, -⟩ := h
  rw [hrest, List.length_append]
  omega

theorem Moves.afterAll_rest {c c' : Cursor} (h : c.Moves c') :
    c.span.afterAll c.rest = c'.span.afterAll c'.rest := by
  obtain ⟨cs, hrest, hspan⟩ := h
  rw [hrest, hspan, Span.afterAll_append]

end Cursor

namespace Datum

variable {source : Option String} {tail : List Char}

/-! ### Blanks -/

theorem moves_skipBlanks (comment : Bool) (span : Span) (cs : List Char) :
    Cursor.Moves ⟨cs, span⟩ (skipBlanks comment span cs) := by
  induction cs generalizing comment span with
  | nil => exact .refl _
  | cons c cs ih =>
    rw [skipBlanks]
    split
    · exact (ih _ _).cons
    split
    · exact (ih _ _).cons
    split
    · exact (ih _ _).cons
    · exact .refl _

theorem moves_atToken (c : Cursor) : c.Moves (atToken c) := moves_skipBlanks false c.span c.rest

/-- A token behind blanks is found in a longer text. -/
theorem skipBlanks_within (comment : Bool) (span : Span) (cs : List Char)
    (h : tail = [] ∨ (skipBlanks comment span cs).rest ≠ []) :
    skipBlanks comment (span.shift k) (cs ++ tail) = (skipBlanks comment span cs).within k tail := by
  induction cs generalizing comment span with
  | nil =>
    obtain rfl : tail = [] := h.resolve_right (by simp [skipBlanks])
    rfl
  | cons c cs ih =>
    rw [skipBlanks] at h
    rw [List.cons_append, skipBlanks, skipBlanks, ← Span.shift_after]
    split at h
    · rename_i hcomment
      rw [if_pos hcomment, if_pos hcomment, ih _ _ h]
    rename_i hcomment
    rw [if_neg hcomment, if_neg hcomment]
    split at h
    · rename_i hblank
      rw [if_pos hblank, if_pos hblank, ih _ _ h]
    rename_i hblank
    rw [if_neg hblank, if_neg hblank]
    split at h
    · rename_i hsemicolon
      rw [if_pos hsemicolon, if_pos hsemicolon, ih _ _ h]
    · rename_i hsemicolon
      rw [if_neg hsemicolon, if_neg hsemicolon]
      rfl

theorem atToken_within (c : Cursor) (h : tail = [] ∨ (atToken c).rest ≠ []) :
    atToken (c.within k tail) = (atToken c).within k tail := skipBlanks_within false c.span c.rest h

/-- Behind blanks and comments up to its end a text goes on with the next line, a comment being over. -/
theorem skipBlanks_lineBreak (comment : Bool) (span : Span) (cs : List Char)
    (h : (skipBlanks comment span cs).rest = []) :
    skipBlanks comment span (cs ++ '\n' :: tail) = skipBlanks false ((span.afterAll cs).after '\n') tail := by
  induction cs generalizing comment span with
  | nil =>
    cases comment with
    | true => rfl
    | false => rfl
  | cons c cs ih =>
    rw [skipBlanks] at h
    rw [List.cons_append, skipBlanks]
    split at h
    · rename_i hcomment
      rw [if_pos hcomment, ih _ _ h]
      rfl
    rename_i hcomment
    rw [if_neg hcomment]
    split at h
    · rename_i hblank
      rw [if_pos hblank, ih _ _ h]
      rfl
    rename_i hblank
    rw [if_neg hblank]
    split at h
    · rename_i hsemicolon
      rw [if_pos hsemicolon, ih _ _ h]
      rfl
    · cases h

/-! ### Tokens -/

theorem moves_token (c : Cursor) : c.Moves (token c).2 :=
  ⟨_, (List.prefix_iff_eq_append.mp (List.takeWhile_prefix isTokenChar)).symm, rfl⟩

theorem isTokenChar_of_token {ch : Char} {cs : List Char} {span : Span} (h : (token ⟨ch :: cs, span⟩).1 ≠ []) :
    isTokenChar ch = true := by
  cases hch : isTokenChar ch with
  | true => rfl
  | false => simp [token, hch] at h

/-- A token that is not empty starts with the first character. -/
theorem token_cons {ch : Char} {cs : List Char} {span : Span} (h : (token ⟨ch :: cs, span⟩).1 ≠ []) :
    (token ⟨ch :: cs, span⟩).2 = (token ⟨cs, span.after ch⟩).2 := by
  simp only [token, List.takeWhile_cons, isTokenChar_of_token h, if_true]
  rfl

theorem takeWhile_ends (htail : Ends tail) (cs : List Char) :
    (cs ++ tail).takeWhile isTokenChar = cs.takeWhile isTokenChar := by
  induction cs with
  | nil =>
    cases tail with
    | nil => rfl
    | cons c cs => rw [List.nil_append, List.takeWhile_cons, htail c rfl]; rfl
  | cons c cs ih =>
    rw [List.cons_append, List.takeWhile_cons, List.takeWhile_cons, ih]

/-- A token is the same where no token character follows the text. -/
theorem token_within (htail : Ends tail) (c : Cursor) :
    token (c.within k tail) = ((token c).1, (token c).2.within k tail) := by
  have hle : (c.rest.takeWhile isTokenChar).length ≤ c.rest.length := (List.takeWhile_prefix _).length_le
  simp only [token, Cursor.within, Cursor.skip, takeWhile_ends htail, List.drop_append_of_le_length hle,
    Span.shift_afterAll]

/-! ### Strings and patterns -/

theorem moves_stringBody {taken cs : List Char} {span : Span} {text : String} {c' : Cursor}
    (h : stringBody source taken span cs = .ok (text, c')) : Cursor.Moves ⟨cs, span⟩ c' := by
  fun_induction stringBody source taken span cs with
  | case1 => cases h
  | case2 =>
    cases h
    exact .cons (.refl _)
  | case3 => cases h
  | case4 => cases h
  | case5 =>
    cases h
    exact .cons (.refl _)
  | case6 taken span c e cs hquote hslash ch hescape ih => exact .cons (.cons (ih h))
  | case7 => cases h
  | case8 taken span c e cs hquote hslash ih => exact .cons (ih h)

/-- A string ends at its quote, whatever follows. -/
theorem stringBody_within (tail : List Char) {taken cs : List Char} {span : Span} {text : String} {c' : Cursor}
    (h : stringBody source taken span cs = .ok (text, c')) :
    stringBody source taken (span.shift k) (cs ++ tail) = .ok (text, c'.within k tail) := by
  fun_induction stringBody source taken span cs with
  | case1 => cases h
  | case2 taken span c hquote =>
    cases h
    obtain rfl : c = '\x22' := by simpa using hquote
    rw [Cursor.within, Span.shift_after]
    exact stringBody_quote taken (span.shift k) tail
  | case3 => cases h
  | case4 => cases h
  | case5 taken span c e cs hquote =>
    cases h
    obtain rfl : c = '\x22' := by simpa using hquote
    rw [Cursor.within, Span.shift_after]
    exact stringBody_quote taken (span.shift k) (e :: cs ++ tail)
  | case6 taken span c e cs hquote hslash ch hescape ih =>
    rw [List.cons_append, List.cons_append, stringBody, if_neg hquote, if_pos hslash, hescape]
    simp only [← Span.shift_after]
    exact ih h
  | case7 => cases h
  | case8 taken span c e cs hquote hslash ih =>
    rw [List.cons_append, List.cons_append, stringBody, if_neg hquote, if_neg hslash, ← Span.shift_after]
    exact ih h

theorem moves_patternBody {taken cs : List Char} {span : Span} {text : String} {c' : Cursor}
    (h : patternBody source taken span cs = .ok (text, c')) : Cursor.Moves ⟨cs, span⟩ c' := by
  fun_induction patternBody source taken span cs with
  | case1 => cases h
  | case2 =>
    cases h
    exact .cons (.refl _)
  | case3 => cases h
  | case4 =>
    cases h
    exact .cons (.refl _)
  | case5 taken span c e cs hquote hslash ih => exact .cons (.cons (ih h))
  | case6 taken span c e cs hquote hslash ih => exact .cons (ih h)

theorem patternBody_within (tail : List Char) {taken cs : List Char} {span : Span} {text : String} {c' : Cursor}
    (h : patternBody source taken span cs = .ok (text, c')) :
    patternBody source taken (span.shift k) (cs ++ tail) = .ok (text, c'.within k tail) := by
  fun_induction patternBody source taken span cs with
  | case1 => cases h
  | case2 taken span c hquote =>
    cases h
    obtain rfl : c = '\x22' := by simpa using hquote
    rw [Cursor.within, Span.shift_after]
    exact patternBody_quote taken (span.shift k) tail
  | case3 => cases h
  | case4 taken span c e cs hquote =>
    cases h
    obtain rfl : c = '\x22' := by simpa using hquote
    rw [Cursor.within, Span.shift_after]
    exact patternBody_quote taken (span.shift k) (e :: cs ++ tail)
  | case5 taken span c e cs hquote hslash ih =>
    rw [List.cons_append, List.cons_append, patternBody, if_neg hquote, if_pos hslash, ← Span.shift_after,
      ← Span.shift_after]
    exact ih h
  | case6 taken span c e cs hquote hslash ih =>
    rw [List.cons_append, List.cons_append, patternBody, if_neg hquote, if_neg hslash, ← Span.shift_after]
    exact ih h

/-! ### Characters, names and numbers -/

/-- Characters that are spelled as words. -/
def namedChar? (word : String) : Option Char :=
  if word == "newline" then some '\n'
  else if word == "space" then some ' '
  else if word == "tab" then some '\t'
  else if word == "return" then some '\r'
  else none

theorem character_eq (source : Option String) (c : Cursor) :
    character source c = match namedChar? (String.ofList (token c).1) with
      | some ch => .ok (ch, (token c).2)
      | none =>
        match (token c).1 with
        | [] =>
          match c.rest with
          | ch :: _ => .ok (ch, c.advance)
          | [] => failAt source c "unexpected end of input in character literal"
        | [ch] => .ok (ch, (token c).2)
        | _ => failAt source (token c).2
          ("unsupported character literal '\\" ++ String.ofList (token c).1 ++ "'") := by
  simp only [character, namedChar?]
  split
  · rfl
  split
  · rfl
  split
  · rfl
  split <;> rfl

theorem moves_character {c c' : Cursor} {ch : Char} (h : character source c = .ok (ch, c')) : c.Moves c' := by
  have htoken := moves_token c
  rw [character_eq] at h
  split at h
  · cases h
    exact htoken
  split at h
  · obtain ⟨rest, span⟩ := c
    cases rest with
    | nil => cases h
    | cons ch cs =>
      cases h
      exact .cons (.refl _)
  · cases h
    exact htoken
  · cases h

theorem character_within (htail : Ends tail) {c c' : Cursor} {ch : Char}
    (h : character source c = .ok (ch, c')) : character source (c.within k tail) = .ok (ch, c'.within k tail) := by
  rw [character_eq] at h ⊢
  rw [token_within htail]
  split at h
  · rename_i hnamed
    cases h
    rw [hnamed]
  rename_i hnamed
  rw [hnamed]
  split at h
  · rename_i htoken
    rw [htoken]
    obtain ⟨rest, span⟩ := c
    cases rest with
    | nil => cases h
    | cons ch cs =>
      cases h
      simp only [Cursor.within, List.cons_append, Cursor.advance, Span.shift_after]
  · rename_i htoken
    cases h
    rw [htoken]
  · cases h

/-- A name or a number is read by its token alone. -/
theorem plain_ok {c c' : Cursor} {d : Datum} (h : plain source c = .ok (d, c')) :
    (token c).1 ≠ [] ∧ c' = (token c).2 ∧ ∃ a, d = .ofAtom a c.span ∧
      ∀ c₂, (token c₂).1 = (token c).1 → plain source c₂ = .ok (.ofAtom a c₂.span, (token c₂).2) := by
  unfold plain at h
  simp only at h
  split at h
  · cases h
  rename_i hempty
  have hne : (token c).1 ≠ [] := by simpa using hempty
  split at h
  · rename_i hnil
    cases h
    exact ⟨hne, rfl, .nil, rfl, fun c₂ hc₂ => by simp only [plain, hc₂, if_neg hempty, if_pos hnil, nil]⟩
  rename_i hnil
  split at h
  · rename_i htrue
    cases h
    exact ⟨hne, rfl, .bool true, rfl, fun c₂ hc₂ => by
      simp only [plain, hc₂, if_neg hempty, if_neg hnil, if_pos htrue]⟩
  rename_i htrue
  split at h
  · rename_i hfalse
    cases h
    exact ⟨hne, rfl, .bool false, rfl, fun c₂ hc₂ => by
      simp only [plain, hc₂, if_neg hempty, if_neg hnil, if_neg htrue, if_pos hfalse]⟩
  rename_i hfalse
  split at h
  · rename_i a hnumber
    cases h
    exact ⟨hne, rfl, a, rfl, fun c₂ hc₂ => by
      simp only [plain, hc₂, if_neg hempty, if_neg hnil, if_neg htrue, if_neg hfalse, hnumber]⟩
  · rename_i hnumber
    split at h
    · cases h
    · rename_i hstarts
      cases h
      exact ⟨hne, rfl, .symbol (String.ofList (token c).1), rfl, fun c₂ hc₂ => by
        simp only [plain, hc₂, if_neg hempty, if_neg hnil, if_neg htrue, if_neg hfalse, hnumber, if_neg hstarts,
          symbol]⟩

/-! ### Forms -/

/-- How a form is read that starts at the cursor, by the character it starts with. -/
inductive Starts (source : Option String) (fuel : Nat) : Cursor → Datum → Cursor → Prop where
  | quote {cs : List Char} {span : Span} {d : Datum} {c : Cursor} :
    marked source fuel "quote" span ⟨cs, span.after '\x27'⟩ = .ok (d, c) →
    Starts source fuel ⟨'\x27' :: cs, span⟩ d c
  | template {cs : List Char} {span : Span} {d : Datum} {c : Cursor} :
    marked source fuel "syntax-quote" span ⟨cs, span.after '\x60'⟩ = .ok (d, c) →
    Starts source fuel ⟨'\x60' :: cs, span⟩ d c
  | unquote {cs : List Char} {span : Span} {d : Datum} {c : Cursor} :
    (∀ more, cs ≠ '@' :: more) → marked source fuel "unquote" span ⟨cs, span.after '~'⟩ = .ok (d, c) →
    Starts source fuel ⟨'~' :: cs, span⟩ d c
  | splice {cs : List Char} {span : Span} {d : Datum} {c : Cursor} :
    marked source fuel "unquote-splicing" span ⟨cs, (span.after '~').after '@'⟩ = .ok (d, c) →
    Starts source fuel ⟨'~' :: '@' :: cs, span⟩ d c
  | metadata {cs : List Char} {span : Span} {m d d' : Datum} {c c' : Cursor} :
    form source fuel ⟨cs, span.after '^'⟩ = .ok (m, c) → form source fuel c = .ok (d, c') →
    applyMeta m d = .ok d' → Starts source fuel ⟨'^' :: cs, span⟩ d' c'
  | list {cs : List Char} {span : Span} {items : List Datum} {c : Cursor} :
    sequence source fuel ')' [] ⟨cs, span.after '('⟩ = .ok (items, c) →
    Starts source fuel ⟨'(' :: cs, span⟩ (.list items { span }) c
  | vector {cs : List Char} {span : Span} {items : List Datum} {c : Cursor} :
    sequence source fuel ']' [] ⟨cs, span.after '['⟩ = .ok (items, c) →
    Starts source fuel ⟨'[' :: cs, span⟩ (.vector items { span }) c
  | map {cs : List Char} {span : Span} {items : List Datum} {c : Cursor} :
    sequence source fuel '\x7d' [] ⟨cs, span.after '\x7b'⟩ = .ok (items, c) → ¬ (items.length % 2 != 0) = true →
    Starts source fuel ⟨'\x7b' :: cs, span⟩ (.map (pairUp items) { span }) c
  | set {cs : List Char} {span : Span} {items : List Datum} {c : Cursor} :
    sequence source fuel '\x7d' [] ⟨cs, (span.after '#').after '\x7b'⟩ = .ok (items, c) →
    Starts source fuel ⟨'#' :: '\x7b' :: cs, span⟩ (.set items { span }) c
  | pattern {cs : List Char} {span : Span} {text : String} {c : Cursor} :
    patternBody source [] ((span.after '#').after '\x22') cs = .ok (text, c) →
    Starts source fuel ⟨'#' :: '\x22' :: cs, span⟩ (.ofAtom (.regex text) span) c
  | text {cs : List Char} {span : Span} {text : String} {c : Cursor} :
    stringBody source [] (span.after '\x22') cs = .ok (text, c) →
    Starts source fuel ⟨'\x22' :: cs, span⟩ (.ofAtom (.str text) span) c
  | character {cs : List Char} {span : Span} {ch : Char} {c : Cursor} :
    character source ⟨cs, span.after '\\'⟩ = .ok (ch, c) →
    Starts source fuel ⟨'\\' :: cs, span⟩ (.ofAtom (.char ch) span) c
  | keyword {cs : List Char} {span : Span} :
    ¬ (token ⟨cs, span.after ':'⟩).1.isEmpty = true →
    Starts source fuel ⟨':' :: cs, span⟩ (.ofAtom (.keyword (String.ofList (token ⟨cs, span.after ':'⟩).1)) span)
      (token ⟨cs, span.after ':'⟩).2
  | plain {ch : Char} {cs : List Char} {span : Span} {d : Datum} {c : Cursor} :
    ch ≠ '#' ∧ ch ≠ '\\' ∧ ch ≠ ':' → plain source ⟨ch :: cs, span⟩ = .ok (d, c) →
    Starts source fuel ⟨ch :: cs, span⟩ d c

theorem starts_of_form {fuel : Nat} {c c' : Cursor} {d : Datum} (h : form source (fuel + 1) c = .ok (d, c')) :
    Starts source fuel (atToken c) d c' := by
  rw [form] at h
  generalize atToken c = c at h ⊢
  obtain ⟨rest, span⟩ := c
  simp only at h
  split at h
  · cases h
  · exact .quote h
  · exact .template h
  · exact .splice h
  · rename_i hat
    exact .unquote hat h
  · obtain ⟨⟨m, c₁⟩, hm, h⟩ := bind_ok h
    obtain ⟨⟨d₁, c₂⟩, hd, h⟩ := bind_ok h
    obtain ⟨d₂, hmeta, h⟩ := bind_ok h
    cases h
    exact .metadata hm hd hmeta
  · obtain ⟨⟨items, c₁⟩, hitems, h⟩ := bind_ok h
    cases h
    exact .list hitems
  · obtain ⟨⟨items, c₁⟩, hitems, h⟩ := bind_ok h
    cases h
    exact .vector hitems
  · obtain ⟨⟨items, c₁⟩, hitems, h⟩ := bind_ok h
    dsimp only at h
    split at h
    · cases h
    · rename_i heven
      cases h
      exact .map hitems heven
  · simp only [Cursor.advance] at h
    split at h
    · obtain ⟨⟨items, c₁⟩, hitems, h⟩ := bind_ok h
      cases h
      exact .set hitems
    · obtain ⟨⟨text, c₁⟩, htext, h⟩ := bind_ok h
      cases h
      exact .pattern htext
    · cases h
    · cases h
  · obtain ⟨⟨text, c₁⟩, htext, h⟩ := bind_ok h
    cases h
    exact .text htext
  · obtain ⟨⟨ch, c₁⟩, hch, h⟩ := bind_ok h
    cases h
    exact .character hch
  · split at h
    · cases h
    · rename_i hempty
      cases h
      exact .keyword hempty
  · rename_i hhash _ hbackslash hcolon
    split at h
    · cases h
    · exact .plain ⟨hhash, hbackslash, hcolon⟩ h

/-- A tilde that no at-sign follows unquotes. -/
theorem form_unquote {c : Cursor} {cs : List Char} {span : Span} (hc : atToken c = ⟨'~' :: cs, span⟩)
    (hat : ∀ more, cs ≠ '@' :: more) (fuel : Nat) :
    form source (fuel + 1) c = marked source fuel "unquote" span ⟨cs, span.after '~'⟩ := by
  rw [form, hc]
  cases cs with
  | nil => rfl
  | cons ch cs =>
    have hch : ch ≠ '@' := fun heq => hat cs (by rw [heq])
    split
    case h_14 hne _ _ _ _ _ _ _ _ heq => exact absurd (List.cons.inj heq).1.symm hne
    all_goals simp_all [Cursor.advance]

/-- A token that no mark starts is a name or a number. -/
theorem form_token {c : Cursor} {ch : Char} {cs : List Char} {span : Span} (hc : atToken c = ⟨ch :: cs, span⟩)
    (htoken : isTokenChar ch = true) (hmark : ch ≠ '#' ∧ ch ≠ '\\' ∧ ch ≠ ':') (fuel : Nat) :
    form source (fuel + 1) c = plain source ⟨ch :: cs, span⟩ := by
  rw [form, hc]
  simp only [isTokenChar, isDelimiter, Bool.and_eq_true, Bool.not_eq_true', Bool.or_eq_false_iff] at htoken
  simp only
  split <;> simp_all

theorem Starts.form {fuel : Nat} {c c' : Cursor} {d : Datum} (h : Starts source fuel (atToken c) d c') :
    form source (fuel + 1) c = .ok (d, c') := by
  generalize hc : atToken c = at' at h
  cases h with
  | unquote hat h => rw [form_unquote hc hat, h]
  | plain hmark h =>
    obtain ⟨hne, -⟩ := plain_ok h
    rw [form_token hc (isTokenChar_of_token hne) hmark, h]
  | quote h | template h | splice h =>
    rw [Datum.form, hc]
    exact h
  | metadata hm hd hmeta =>
    rw [Datum.form, hc]
    simp only [Cursor.advance, hm, hd, hmeta, bind, Except.bind, pure, Except.pure]
  | list hitems | vector hitems | set hitems =>
    rw [Datum.form, hc]
    simp only [Cursor.advance, hitems, bind, Except.bind, pure, Except.pure]
  | map hitems heven =>
    rw [Datum.form, hc]
    simp only [Cursor.advance, hitems, bind, Except.bind, pure, Except.pure, if_neg heven]
  | pattern htext | text htext =>
    rw [Datum.form, hc]
    simp only [Cursor.advance, htext, bind, Except.bind, pure, Except.pure]
  | character hch =>
    rw [Datum.form, hc]
    simp only [Cursor.advance, hch, bind, Except.bind, pure, Except.pure]
  | keyword hempty =>
    rw [Datum.form, hc]
    exact if_neg hempty

/-- A form is read from its first character on. -/
def Begins (c c' : Cursor) : Prop :=
  ∃ ch cs, (atToken c).rest = ch :: cs ∧ Cursor.Moves ⟨cs, (atToken c).span.after ch⟩ c'

theorem Begins.moves {c c' : Cursor} (h : Begins c c') : c.Moves c' := by
  obtain ⟨ch, cs, hrest, hmoves⟩ := h
  refine (moves_atToken c).trans ?_
  have hcursor : atToken c = ⟨ch :: cs, (atToken c).span⟩ := by rw [← hrest]
  rw [hcursor]
  exact hmoves.cons

theorem Begins.atToken_ne_nil {c c' : Cursor} (h : Begins c c') : (atToken c).rest ≠ [] := by
  obtain ⟨ch, cs, hrest, -⟩ := h
  simp [hrest]

theorem Begins.length_lt {c c' : Cursor} (h : Begins c c') : c'.rest.length < (atToken c).rest.length := by
  obtain ⟨ch, cs, hrest, hmoves⟩ := h
  have hle := hmoves.length_le
  rw [hrest, List.length_cons]
  simp only at hle
  omega

/-- With this much fuel, the reader counts the places on by the text it takes. -/
structure CountsPlaces (source : Option String) (fuel : Nat) : Prop where
  form : ∀ {c c' : Cursor} {d : Datum}, form source fuel c = .ok (d, c') → Begins c c'
  marked : ∀ {head : String} {span : Span} {c c' : Cursor} {d : Datum},
    marked source fuel head span c = .ok (d, c') → c.Moves c'
  sequence : ∀ {close : Char} {taken ds : List Datum} {c c' : Cursor},
    sequence source fuel close taken c = .ok (ds, c') → c.Moves c'

theorem Starts.begins {fuel : Nat} (ih : CountsPlaces source fuel) {c c' : Cursor} {d : Datum}
    (h : Starts source fuel c d c') : ∃ ch cs, c.rest = ch :: cs ∧ Cursor.Moves ⟨cs, c.span.after ch⟩ c' := by
  cases h with
  | quote h | template h | unquote _ h => exact ⟨_, _, rfl, ih.marked h⟩
  | splice h => exact ⟨_, _, rfl, .cons (ih.marked h)⟩
  | metadata hm hd => exact ⟨_, _, rfl, (ih.form hm).moves.trans (ih.form hd).moves⟩
  | list hitems | vector hitems | map hitems => exact ⟨_, _, rfl, ih.sequence hitems⟩
  | set hitems => exact ⟨_, _, rfl, .cons (ih.sequence hitems)⟩
  | pattern htext => exact ⟨_, _, rfl, .cons (moves_patternBody htext)⟩
  | text htext => exact ⟨_, _, rfl, moves_stringBody htext⟩
  | character hch => exact ⟨_, _, rfl, moves_character hch⟩
  | keyword => exact ⟨_, _, rfl, moves_token _⟩
  | plain _ h =>
    obtain ⟨hne, rfl, -⟩ := plain_ok h
    rw [token_cons hne]
    exact ⟨_, _, rfl, moves_token _⟩

theorem countsPlaces (source : Option String) (fuel : Nat) : CountsPlaces source fuel := by
  induction fuel with
  | zero =>
    refine ⟨?_, ?_, ?_⟩
    · intro c c' d h
      cases h
    · intro head span c c' d h
      cases h
    · intro close taken ds c c' h
      cases h
  | succ fuel ih =>
    refine ⟨fun h => (starts_of_form h).begins ih, ?_, ?_⟩
    · intro head span c c' d h
      rw [Datum.marked] at h
      obtain ⟨⟨d₁, c₁⟩, hd, h⟩ := bind_ok h
      cases h
      exact (ih.form hd).moves
    · intro close taken ds c c' h
      rw [Datum.sequence] at h
      refine (moves_atToken c).trans ?_
      generalize atToken c = c at h ⊢
      obtain ⟨rest, span⟩ := c
      simp only at h
      split at h
      · cases h
      split at h
      · cases h
        exact .cons (.refl _)
      · obtain ⟨⟨d₁, c₁⟩, hd, h⟩ := bind_ok h
        exact (ih.form hd).moves.trans (ih.sequence h)

/-- With this much fuel and more, the reader gives the same data in a longer text, further on. -/
structure ReadsWithin (source : Option String) (k : Offset) (tail : List Char) (fuel : Nat) : Prop where
  form : ∀ {c c' : Cursor} {d : Datum}, form source fuel c = .ok (d, c') → ∀ {fuel' : Nat}, fuel ≤ fuel' →
    form source fuel' (c.within k tail) = .ok (d.shift k, c'.within k tail)
  marked : ∀ {head : String} {span : Span} {c c' : Cursor} {d : Datum},
    marked source fuel head span c = .ok (d, c') → ∀ {fuel' : Nat}, fuel ≤ fuel' →
      marked source fuel' head (span.shift k) (c.within k tail) = .ok (d.shift k, c'.within k tail)
  sequence : ∀ {close : Char} {taken ds : List Datum} {c c' : Cursor},
    sequence source fuel close taken c = .ok (ds, c') → ∀ {fuel' : Nat}, fuel ≤ fuel' →
      sequence source fuel' close (shiftAll k taken) (c.within k tail) = .ok (shiftAll k ds, c'.within k tail)

/-- A form is the same where more text stands around it and no token goes on behind it. -/
theorem Starts.within {fuel : Nat} (ih : ReadsWithin source k tail fuel) (htail : Ends tail) {c c' : Cursor}
    {d : Datum} (h : Starts source fuel c d c') {fuel' : Nat} (hle : fuel ≤ fuel') :
    Starts source fuel' (c.within k tail) (d.shift k) (c'.within k tail) := by
  cases h with
  | quote h =>
    rw [Cursor.within_cons]
    refine .quote ?_
    rw [← Cursor.within_after]
    exact ih.marked h hle
  | template h =>
    rw [Cursor.within_cons]
    refine .template ?_
    rw [← Cursor.within_after]
    exact ih.marked h hle
  | splice h =>
    rw [Cursor.within_cons, List.cons_append]
    refine .splice ?_
    rw [← Span.shift_after, ← Cursor.within_after]
    exact ih.marked h hle
  | @unquote cs span d c hat h =>
    -- What follows the text is no token, so no mark of two characters comes up.
    have hmore : ∀ more, cs ++ tail ≠ '@' :: more := by
      intro more hmore
      cases cs with
      | nil =>
        obtain rfl : tail = '@' :: more := hmore
        exact absurd (htail '@' rfl) (by decide)
      | cons ch cs => exact hat cs (by rw [(List.cons.inj hmore).1])
    rw [Cursor.within_cons]
    refine .unquote hmore ?_
    rw [← Cursor.within_after]
    exact ih.marked h hle
  | metadata hm hd hmeta =>
    rw [Cursor.within_cons]
    refine .metadata ?_ (ih.form hd hle) (applyMeta_shift hmeta)
    rw [← Cursor.within_after]
    exact ih.form hm hle
  | list hitems =>
    rw [Cursor.within_cons]
    refine .list ?_
    rw [← Cursor.within_after]
    exact ih.sequence hitems hle
  | vector hitems =>
    rw [Cursor.within_cons]
    refine .vector ?_
    rw [← Cursor.within_after]
    exact ih.sequence hitems hle
  | map hitems heven =>
    rw [Cursor.within_cons, shift, shiftEntries_pairUp]
    refine .map ?_ (by rwa [length_shiftAll])
    rw [← Cursor.within_after]
    exact ih.sequence hitems hle
  | set hitems =>
    rw [Cursor.within_cons, List.cons_append]
    refine .set ?_
    rw [← Span.shift_after, ← Cursor.within_after]
    exact ih.sequence hitems hle
  | pattern htext =>
    rw [Cursor.within_cons, List.cons_append]
    refine .pattern ?_
    rw [← Span.shift_after, ← Span.shift_after]
    exact patternBody_within tail htext
  | text htext =>
    rw [Cursor.within_cons]
    refine .text ?_
    rw [← Span.shift_after]
    exact stringBody_within tail htext
  | character hch =>
    rw [Cursor.within_cons]
    refine .character ?_
    rw [← Cursor.within_after]
    exact character_within htail hch
  | @keyword cs span hempty =>
    have htoken := token_within (k := k) htail ⟨cs, span.after ':'⟩
    rw [Cursor.within_after] at htoken
    have hkeyword : Starts source fuel' ⟨':' :: (cs ++ tail), span.shift k⟩ _ _ := .keyword (by rwa [htoken])
    rwa [htoken] at hkeyword
  | @plain ch cs span d c hmark h =>
    obtain ⟨-, rfl, a, rfl, hplain⟩ := plain_ok h
    have htoken := token_within (k := k) htail ⟨ch :: cs, span⟩
    have hread := hplain (Cursor.within k tail ⟨ch :: cs, span⟩) (by rw [htoken])
    rw [htoken] at hread
    exact .plain hmark hread

theorem readsWithin (htail : Ends tail) (fuel : Nat) : ReadsWithin source k tail fuel := by
  induction fuel with
  | zero =>
    refine ⟨?_, ?_, ?_⟩
    · intro c c' d h
      cases h
    · intro head span c c' d h
      cases h
    · intro close taken ds c c' h
      cases h
  | succ fuel ih =>
    refine ⟨?_, ?_, ?_⟩
    · intro c c' d h fuel' hle
      obtain ⟨fuel', rfl⟩ : ∃ n, fuel' = n + 1 := ⟨fuel' - 1, by omega⟩
      have hwithin := (starts_of_form h).within ih htail (Nat.le_of_succ_le_succ hle)
      rw [← atToken_within c (.inr ((countsPlaces source _).form h).atToken_ne_nil)] at hwithin
      exact hwithin.form
    · intro head span c c' d h fuel' hle
      obtain ⟨fuel', rfl⟩ : ∃ n, fuel' = n + 1 := ⟨fuel' - 1, by omega⟩
      rw [Datum.marked] at h ⊢
      obtain ⟨⟨d₁, c₁⟩, hd, h⟩ := bind_ok h
      cases h
      rw [ih.form hd (by omega)]
      rfl
    · intro close taken ds c c' h fuel' hle
      obtain ⟨fuel', rfl⟩ : ∃ n, fuel' = n + 1 := ⟨fuel' - 1, by omega⟩
      rw [Datum.sequence] at h ⊢
      cases hrest : (atToken c).rest with
      | nil =>
        simp only [hrest] at h
        cases h
      | cons ch cs =>
        rw [atToken_within c (.inr (by simp [hrest]))]
        generalize atToken c = c at h hrest ⊢
        obtain ⟨rest, span⟩ := c
        obtain rfl : rest = ch :: cs := hrest
        simp only [Cursor.within, List.cons_append] at h ⊢
        split at h
        · rename_i hclose
          cases h
          rw [if_pos hclose, shiftAll_reverse]
          simp only [Cursor.advance, Span.shift_after]
        · rename_i hclose
          obtain ⟨⟨d₁, c₁⟩, hd, h⟩ := bind_ok h
          rw [if_neg hclose]
          have hd' := ih.form hd (Nat.le_of_succ_le_succ hle)
          simp only [Cursor.within, List.cons_append] at hd'
          rw [hd']
          exact ih.sequence h (by omega)

/-! ### Texts -/

/-- The forms from the cursor to the end of the text. -/
inductive Reads (source : Option String) : Cursor → List Datum → Prop where
  | done {c : Cursor} : (atToken c).rest = [] → Reads source c []
  | item {c c' : Cursor} {d : Datum} {ds : List Datum} :
    form source (2 * (atToken c).rest.length + 2) (atToken c) = .ok (d, c') → Reads source c' ds →
    Reads source c (d :: ds)

theorem form_length_lt {fuel : Nat} {c c' : Cursor} {d : Datum}
    (h : form source fuel (atToken c) = .ok (d, c')) : c'.rest.length < (atToken c).rest.length :=
  Nat.lt_of_lt_of_le ((countsPlaces source fuel).form h).length_lt (moves_atToken (atToken c)).length_le

/-- The fuel of the outermost loop is more than a text needs, since every form takes some of it. -/
theorem reads_of_formsAux {fuel : Nat} {taken ds : List Datum} {c : Cursor} (hfuel : c.rest.length < fuel)
    (h : formsAux source fuel taken c = .ok ds) : ∃ ds', ds = taken.reverse ++ ds' ∧ Reads source c ds' := by
  induction fuel generalizing taken c with
  | zero => cases hfuel
  | succ fuel ih =>
    rw [formsAux] at h
    dsimp only at h
    split at h
    · rename_i hdone
      cases h
      exact ⟨[], by simp, .done (by simpa using hdone)⟩
    · obtain ⟨⟨d, c'⟩, hd, h⟩ := bind_ok h
      have hlt := form_length_lt hd
      have hle := (moves_atToken c).length_le
      obtain ⟨ds', rfl, hrest⟩ := ih (by simp only; omega) h
      exact ⟨d :: ds', by simp, .item hd hrest⟩

theorem Reads.formsAux {fuel : Nat} {ds : List Datum} {c : Cursor} (h : Reads source c ds)
    (hfuel : c.rest.length < fuel) (taken : List Datum) :
    formsAux source fuel taken c = .ok (taken.reverse ++ ds) := by
  induction h generalizing fuel taken with
  | done hdone =>
    obtain ⟨fuel, rfl⟩ : ∃ n, fuel = n + 1 := ⟨fuel - 1, by omega⟩
    simp only [Datum.formsAux, hdone, List.isEmpty_nil, if_true, List.append_nil]
    rfl
  | @item c c' d ds hd _ ih =>
    obtain ⟨fuel, rfl⟩ : ∃ n, fuel = n + 1 := ⟨fuel - 1, by omega⟩
    have hlt := form_length_lt hd
    have hle := (moves_atToken c).length_le
    have hmore : ¬ (atToken c).rest.isEmpty = true := by
      rw [List.isEmpty_iff_length_eq_zero]
      omega
    have hrest := ih (show c'.rest.length < fuel by omega) (d :: taken)
    simp only [Datum.formsAux, if_neg hmore, hd]
    exact hrest.trans (by simp)

theorem readAll_eq_ok_iff {text : String} {ds : List Datum} :
    readAll source text = .ok ds ↔ Reads source (.ofText text) ds := by
  constructor
  · intro h
    obtain ⟨ds', rfl, hreads⟩ := reads_of_formsAux (Nat.lt_succ_self _) h
    exact hreads
  · intro h
    exact h.formsAux (Nat.lt_succ_self _) []

/-- Blanks in front make no difference. -/
theorem Reads.of_atToken_eq {c c' : Cursor} {ds : List Datum} (heq : atToken c = atToken c')
    (h : Reads source c' ds) : Reads source c ds := by
  cases h with
  | done hdone => exact .done (heq ▸ hdone)
  | item hd hrest => exact .item (heq ▸ hd) hrest

/-- Further on, a text is read as the same data further on. -/
theorem Reads.shift {c : Cursor} {ds : List Datum} (h : Reads source c ds) (k : Offset) :
    Reads source (c.within k []) (shiftAll k ds) := by
  induction h with
  | @done c hdone =>
    refine .done ?_
    rw [atToken_within c (.inl rfl), Cursor.within, hdone]
    rfl
  | @item c c' d ds hd _ ih =>
    refine .item ?_ ih
    rw [atToken_within c (.inl rfl)]
    exact (readsWithin ends_nil _).form hd (by simp [Cursor.within])

/-- In front of another text on its own line, a text is read first and as it is alone. -/
theorem Reads.append {c : Cursor} {cs : List Char} {xs ys : List Datum} (hx : Reads source c xs)
    (hy : Reads source ⟨cs, (c.span.afterAll c.rest).after '\n'⟩ ys) :
    Reads source ⟨c.rest ++ '\n' :: cs, c.span⟩ (xs ++ ys) := by
  induction hx with
  | @done c hdone =>
    have hblanks : atToken ⟨c.rest ++ '\n' :: cs, c.span⟩ = atToken ⟨cs, (c.span.afterAll c.rest).after '\n'⟩ :=
      skipBlanks_lineBreak false c.span c.rest hdone
    exact hy.of_atToken_eq hblanks
  | @item c c' d xs hd _ ih =>
    have hlt := form_length_lt hd
    have htoken : atToken (c.within {} ('\n' :: cs)) = (atToken c).within {} ('\n' :: cs) :=
      atToken_within c (.inr (List.ne_nil_of_length_pos (Nat.zero_lt_of_lt hlt)))
    -- The fuel for a form comes from the text that is left, of which there is more now.
    have hreads : ReadsWithin source {} ('\n' :: cs) (2 * (atToken c).rest.length + 2) :=
      readsWithin (ends_cons rfl cs) _
    have hform := hreads.form hd
      (show _ ≤ 2 * (atToken (c.within {} ('\n' :: cs))).rest.length + 2 by
        rw [htoken, Cursor.within, List.length_append]
        omega)
    rw [shift_none, ← htoken] at hform
    refine .item hform (ih ?_)
    have hmoves := (moves_atToken c).trans ((countsPlaces source _).form hd).moves
    rw [hmoves.afterAll_rest] at hy
    exact hy

/-- Two texts with a line break between them are read as the one and then the other, the second moved on by the
lines and characters of the first and of the line break. -/
theorem readAll_append {source : Option String} {a b : String} {xs ys : List Datum}
    (ha : readAll source a = .ok xs) (hb : readAll source b = .ok ys) :
    readAll source (a ++ "\n" ++ b) = .ok (xs ++ ys.map (shift ⟨1 + a.toList.count '\n', 1 + a.length⟩)) := by
  rw [readAll_eq_ok_iff] at ha hb ⊢
  rw [← String.length_toList]
  have hplace := Span.after_lineBreak_afterAll (s := Span.start) rfl a.toList
  have hb' := hb.shift ⟨1 + a.toList.count '\n', 1 + a.toList.length⟩
  simp only [Cursor.within, Cursor.ofText, List.append_nil, ← hplace, shiftAll_eq_map] at hb'
  have happend := ha.append hb'
  simpa [Cursor.ofText] using happend

/-- A comment ends with the first text; the flag, the list in the vector and the second line are the second's. -/
theorem readAll_append_commented :
    readAll none "x ; (y" = .ok [.symbol "x" ⟨1, 1, 0⟩] ∧
      readAll none "^:k [()\n :n]" = .ok [.vector [.ofList [] ⟨1, 6, 5⟩, .ofAtom (.keyword "n") ⟨2, 2, 9⟩]
        { span := ⟨1, 5, 4⟩, flags := ["k"] }] ∧
      readAll none ("x ; (y" ++ "\n" ++ "^:k [()\n :n]") = .ok [.symbol "x" ⟨1, 1, 0⟩,
        .vector [.ofList [] ⟨2, 6, 12⟩, .ofAtom (.keyword "n") ⟨3, 2, 16⟩]
          { span := ⟨2, 5, 11⟩, flags := ["k"] }] := by
  have ha : readAll none "x ; (y" = .ok [.symbol "x" ⟨1, 1, 0⟩] := rfl
  have hb : readAll none "^:k [()\n :n]" = .ok [.vector [.ofList [] ⟨1, 6, 5⟩, .ofAtom (.keyword "n") ⟨2, 2, 9⟩]
      { span := ⟨1, 5, 4⟩, flags := ["k"] }] := rfl
  exact ⟨ha, hb, readAll_append ha hb⟩

end Datum

end LispMachine
