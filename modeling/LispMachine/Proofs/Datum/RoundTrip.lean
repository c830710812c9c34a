import LispMachine.Proofs.Datum.Spelling
import LispMachine.Proofs.Double.Numerals

/-! # Data read back from their text

Writing a datum and reading the text gives the datum again, up to places and metadata
(`readAll_toText`).  The reader works with fuel and stops at the first character that does not belong to a
form, so the statement that goes through the induction is `ReadsBack`: in front of any text that does not
go on with a token, with fuel twice the length of the text, the form is read and nothing behind it.  Atoms
are cases of their own, collections all go through `sequence`. -/

namespace LispMachine

/-! ### Atoms with a text of their own -/

/-- The reader gives this atom, alone or within a datum, for some text. -/
def Atom.Produced (a : Atom) : Prop :=
  ∃ (source : Option String) (text : String) (ds : List Datum),
    Datum.readAll source text = .ok ds ∧ ∃ d ∈ ds, a ∈ d.atoms

/-- Atoms whose text can be read: the text of a float denotes it, no character of a string is written by
its code, and names and patterns are those the reader can give. -/
def Atom.Legible : Atom → Prop
  | .float x => x.isFinite = true ∧ ∃ y, Double.ofText? x.toText = some y ∧ y.eq x = true
  | .str s => ∀ c ∈ s.toList, Text.escapeChar '\x22' c ≠ Text.escapeCode c.toNat
  | .regex s => (Atom.regex s).Produced
  | .keyword k => (Atom.keyword k).Produced
  | .symbol s => (Atom.symbol s).Produced
  | _ => True

theorem Atom.Produced.wellSpelled {a : Atom} (h : a.Produced) : a.WellSpelled := by
  obtain ⟨source, text, ds, hread, d, hd, ha⟩ := h
  exact Datum.wellSpelled_of_readAll hread d hd a ha

namespace Datum

variable {source : Option String}

/-! ### Tokens -/

/-- A text in front of which a token ends. -/
def Ends (tail : List Char) : Prop := ∀ c ∈ tail.head?, isTokenChar c = false

theorem ends_cons {c : Char} (h : isTokenChar c = false) (cs : List Char) : Ends (c :: cs) := by
  simpa [Ends] using h

theorem ends_nil : Ends [] := by simp [Ends]

theorem token_append {t tail : List Char} (ht : ∀ c ∈ t, isTokenChar c = true) (htail : Ends tail) (span : Span) :
    token ⟨t ++ tail, span⟩ = (t, ⟨tail, span.afterAll t⟩) := by
  have htake : (t ++ tail).takeWhile isTokenChar = t := by
    rw [List.takeWhile_append_of_pos ht]
    cases tail with
    | nil => simp
    | cons c cs => simp [htail c rfl]
  simp only [token, htake, Cursor.skip, List.drop_left]

theorem isWord_iff {t : List Char} : isWord t = true ↔ t ≠ [] ∧ ∀ c ∈ t, isTokenChar c = true := by
  simp [isWord]

/-! ### Forms -/

/-- Starts a form, and nothing else. -/
def opens (c : Char) : Bool :=
  !isSeparator c && c != ';' && c != ')' && c != ']' && c != '\x7d'

theorem atToken_opens {c : Char} (h : opens c = true) (cs : List Char) (span : Span) :
    atToken ⟨c :: cs, span⟩ = ⟨c :: cs, span⟩ := by
  simp only [opens, Bool.and_eq_true, Bool.not_eq_true', bne_iff_ne] at h
  simp [atToken, skipBlanks, h]

theorem opens_of_isTokenChar {c : Char} (h : isTokenChar c = true) : opens c = true := by
  simp only [isTokenChar, isDelimiter, Bool.and_eq_true, Bool.not_eq_true', Bool.or_eq_false_iff] at h
  simp [opens, bne, h]

/-- The datum is read from its text in front of any text that does not go on with a token. -/
structure ReadsBack (source : Option String) (d : Datum) : Prop where
  starts : ∃ c cs, d.toText.toList = c :: cs ∧ opens c = true
  form : ∀ (fuel : Nat) (tail : List Char) (span : Span), 2 * d.toText.toList.length ≤ fuel → Ends tail →
    ∃ d' span', form source fuel ⟨d.toText.toList ++ tail, span⟩ = .ok (d', ⟨tail, span'⟩) ∧
      d'.sameShape d = true

/-! ### Words -/

/-- A word that starts no other form is read as a plain one. -/
theorem form_word {t tail : List Char} (ht : isWord t = true)
    (hhead : t.head?.all fun c => c != '#' && c != '\\' && c != ':') (fuel : Nat) (span : Span) :
    form source (fuel + 1) ⟨t ++ tail, span⟩ = plain source ⟨t ++ tail, span⟩ := by
  obtain ⟨hne, hchars⟩ := isWord_iff.mp ht
  obtain ⟨c, cs, rfl⟩ := List.exists_cons_of_ne_nil hne
  have hc : isTokenChar c = true := hchars c List.mem_cons_self
  rw [form, List.cons_append, atToken_opens (opens_of_isTokenChar hc)]
  have hmark : (c != '#' && c != '\\' && c != ':') = true := by simpa using hhead
  simp only [isTokenChar, isDelimiter, Bool.and_eq_true, Bool.not_eq_true', Bool.or_eq_false_iff] at hc
  simp only [Bool.and_eq_true, bne_iff_ne] at hmark
  split <;> simp_all

/-- How a word is read: constants and numbers first, then names. -/
theorem plain_word {t tail : List Char} (ht : isWord t = true) (htail : Ends tail) (span : Span) :
    plain source ⟨t ++ tail, span⟩ =
      if String.ofList t == "nil" then .ok (.nil span, ⟨tail, span.afterAll t⟩)
      else if String.ofList t == "true" then .ok (.ofAtom (.bool true) span, ⟨tail, span.afterAll t⟩)
      else if String.ofList t == "false" then .ok (.ofAtom (.bool false) span, ⟨tail, span.afterAll t⟩)
      else
        match number? t with
        | some a => .ok (.ofAtom a span, ⟨tail, span.afterAll t⟩)
        | none =>
          if startsLikeNumber t then
            .error ((Error.reading ("invalid number '" ++ String.ofList t ++ "'")).atSpan span)
          else .ok (.symbol (String.ofList t) span, ⟨tail, span.afterAll t⟩) := by
  obtain ⟨hne, hchars⟩ := isWord_iff.mp ht
  simp only [plain, token_append hchars htail]
  exact if_neg (by simpa using hne)

theorem isWord_ofText {s : String} (h : isWord s.toList = true) : ∃ c cs, s.toList = c :: cs ∧ opens c = true := by
  obtain ⟨hne, hchars⟩ := isWord_iff.mp h
  obtain ⟨c, cs, hcs⟩ := List.exists_cons_of_ne_nil hne
  exact ⟨c, cs, hcs, opens_of_isTokenChar (hchars c (hcs ▸ List.mem_cons_self))⟩

/-- An atom is read back when its text is a plain word that is read as an equal atom. -/
theorem readsBack_word {a b : Atom} {i : Info} (hword : isWord a.toText.toList = true)
    (hhead : a.toText.toList.head?.all fun c => c != '#' && c != '\\' && c != ':')
    (hplain : ∀ tail span, Ends tail → ∃ c', plain source ⟨a.toText.toList ++ tail, span⟩
      = .ok (.ofAtom b span, ⟨tail, c'⟩))
    (hsame : b.same a = true) : ReadsBack source (.atom a i) := by
  refine ⟨isWord_ofText hword, ?_⟩
  intro fuel tail span hfuel htail
  obtain ⟨c, cs, hcs, -⟩ := isWord_ofText hword
  simp only [toText] at hfuel ⊢
  obtain ⟨fuel, rfl⟩ : ∃ n, fuel = n + 1 := ⟨fuel - 1, by simp [hcs] at hfuel; omega⟩
  obtain ⟨span', hread⟩ := hplain tail span htail
  exact ⟨_, span', (form_word hword hhead fuel span).trans hread, by simpa [ofAtom, sameShape] using hsame⟩

/-- Numbers are written as plain words. -/
theorem readsBack_number {a b : Atom} {i : Info} (hnumeral : ∀ c ∈ a.toText.toList, Double.isNumeral c = true)
    (hstarts : startsLikeNumber a.toText.toList = true) (hnumber : number? a.toText.toList = some b)
    (hsame : b.same a = true) : ReadsBack source (.atom a i) := by
  obtain ⟨c, cs, hcs⟩ : ∃ c cs, a.toText.toList = c :: cs := by
    cases h : a.toText.toList with
    | nil => simp [h, startsLikeNumber] at hstarts
    | cons c cs => exact ⟨c, cs, rfl⟩
  have hc : Double.isNumeral c = true := hnumeral c (hcs ▸ List.mem_cons_self)
  have hword : isWord a.toText.toList = true :=
    isWord_iff.mpr ⟨by simp [hcs], fun c hc => isTokenChar_of_isNumeral (hnumeral c hc)⟩
  refine readsBack_word hword ?_ ?_ hsame
  · rw [hcs, List.head?_cons]
    simp only [Double.isNumeral, Char.isDigit, Bool.or_eq_true, beq_iff_eq] at hc
    rcases hc with ((hc | rfl) | rfl) | rfl
    · simp only [Option.all_some, Bool.and_eq_true, bne_iff_ne]
      refine ⟨⟨?_, ?_⟩, ?_⟩ <;> rintro rfl <;> simp at hc
    · rfl
    · rfl
    · rfl
  · -- A constant does not start like a number.
    intro tail span htail
    have hconstant : ∀ w : String, startsLikeNumber w.toList = false →
        ¬ (String.ofList a.toText.toList == w) = true := by
      intro w hw h
      rw [beq_iff_eq, String.ofList_toList] at h
      rw [h, hw] at hstarts
      cases hstarts
    exact ⟨_, by rw [plain_word hword htail, if_neg (hconstant _ rfl), if_neg (hconstant _ rfl),
      if_neg (hconstant _ rfl), hnumber]⟩

/-- A name is read as a symbol. -/
theorem readsBack_symbol {s : String} {i : Info} (h : isName s.toList = true) :
    ReadsBack source (.atom (.symbol s) i) := by
  simp only [isName, Bool.and_eq_true, Bool.not_eq_true'] at h
  obtain ⟨⟨⟨hword, hconstant⟩, hstarts⟩, hhead⟩ := h
  refine readsBack_word (b := .symbol s) hword hhead ?_ (by simp [Atom.same])
  intro tail span htail
  rw [String.ofList_toList] at hconstant
  simp only [constantWords, List.contains_cons, List.contains_nil, Bool.or_false,
    Bool.or_eq_false_iff] at hconstant
  have hnumber : number? s.toList = none := by simp [number?, hstarts]
  refine ⟨span.afterAll s.toList, ?_⟩
  rw [Atom.toText, plain_word hword htail, String.ofList_toList, if_neg (by simp [hconstant]),
    if_neg (by simp [hconstant]), if_neg (by simp [hconstant]), hnumber]
  simp only [hstarts]
  rfl

theorem readsBack_constant {a : Atom} {i : Info} (ha : a = .nil ∨ a = .bool true ∨ a = .bool false) :
    ReadsBack source (.atom a i) := by
  rcases ha with rfl | rfl | rfl <;>
    exact readsBack_word rfl rfl (fun tail span htail => ⟨_, plain_word rfl htail span⟩) rfl

/-! ### Keywords and characters -/

theorem readsBack_keyword {k : String} {i : Info} (h : isWord k.toList = true) :
    ReadsBack source (.atom (.keyword k) i) := by
  obtain ⟨hne, hchars⟩ := isWord_iff.mp h
  refine ⟨⟨':', k.toList, by simp [toText, Atom.toText], rfl⟩, ?_⟩
  intro fuel tail span hfuel htail
  simp only [toText, Atom.toText, String.toList_append] at hfuel ⊢
  obtain ⟨fuel, rfl⟩ : ∃ n, fuel = n + 1 := ⟨fuel - 1, by simp at hfuel; omega⟩
  refine ⟨.ofAtom (.keyword k) span, (span.after ':').afterAll k.toList, ?_, ?_⟩
  · have hform : form source (fuel + 1) ⟨':' :: (k.toList ++ tail), span⟩
        = if (token ⟨k.toList ++ tail, span.after ':'⟩).1.isEmpty then
            failAt source (token ⟨k.toList ++ tail, span.after ':'⟩).2 "empty keyword"
          else .ok (.ofAtom (.keyword (String.ofList (token ⟨k.toList ++ tail, span.after ':'⟩).1)) span,
            (token ⟨k.toList ++ tail, span.after ':'⟩).2) := rfl
    refine hform.trans ?_
    rw [token_append hchars htail, if_neg (by simpa using hne), String.ofList_toList]
  · simp [ofAtom, sameShape, Atom.same]

/-- A character is read behind a backslash, whatever it is. -/
theorem character_append (source : Option String) (c : Char) {tail : List Char} (htail : Ends tail) (span : Span) :
    ∃ span', character source ⟨c :: tail, span⟩ = .ok (c, ⟨tail, span'⟩) := by
  cases hc : isTokenChar c with
  | true =>
    have htoken : token ⟨c :: tail, span⟩ = ([c], ⟨tail, span.afterAll [c]⟩) :=
      token_append (t := [c]) (by simpa using hc) htail span
    have hword : ∀ w : String, w.length ≠ 1 → ¬ (String.ofList [c] == w) = true := by
      intro w hw h
      rw [beq_iff_eq] at h
      exact hw (by rw [← h]; simp)
    refine ⟨span.afterAll [c], ?_⟩
    simp only [character, htoken]
    rw [if_neg (hword _ (by decide)), if_neg (hword _ (by decide)), if_neg (hword _ (by decide)),
      if_neg (hword _ (by decide))]
  | false =>
    have htoken : token ⟨c :: tail, span⟩ = ([], ⟨c :: tail, span⟩) :=
      token_append (t := []) (by simp) (ends_cons hc tail) span
    refine ⟨span.after c, ?_⟩
    simp only [character, htoken]
    rfl

theorem readsBack_char {c : Char} {i : Info} : ReadsBack source (.atom (.char c) i) := by
  refine ⟨⟨'\\', [c], by simp [toText, Atom.toText], rfl⟩, ?_⟩
  intro fuel tail span hfuel htail
  have htext : (toText (.atom (.char c) i)).toList = ['\\', c] := by simp [toText, Atom.toText]
  rw [htext] at hfuel ⊢
  obtain ⟨fuel, rfl⟩ : ∃ n, fuel = n + 1 := ⟨fuel - 1, by simp at hfuel; omega⟩
  obtain ⟨span', hread⟩ := character_append source c htail (span.after '\\')
  refine ⟨.ofAtom (.char c) span, span', ?_, by simp [ofAtom, sameShape, Atom.same]⟩
  have hform : form source (fuel + 1) ⟨'\\' :: c :: tail, span⟩ = (do
      let r ← character source ⟨c :: tail, span.after '\\'⟩
      return (.ofAtom (.char r.1) span, r.2)) := rfl
  refine hform.trans ?_
  rw [hread]
  rfl

/-! ### Strings and patterns -/

/-- Every character of a legible string is written as itself or as one escape that stands for it. -/
theorem escapeChar_cases {c : Char} (h : Text.escapeChar '\x22' c ≠ Text.escapeCode c.toNat) :
    (∃ e, Text.escapeChar '\x22' c = ['\\', e] ∧ escape? e = some c) ∨
      (Text.escapeChar '\x22' c = [c] ∧ c ≠ '\x22' ∧ c ≠ '\\') := by
  unfold Text.escapeChar at h ⊢
  split
  · simp_all [escape?]
  split
  · simp_all [escape?]
  split
  · simp_all [escape?]
  split
  · simp_all [escape?]
  split
  · simp_all [escape?]
    grind
  split
  · simp_all
  · simp_all

theorem stringBody_quote (taken : List Char) (span : Span) (tail : List Char) :
    stringBody source taken span ('\x22' :: tail)
      = .ok (String.ofList taken.reverse, ⟨tail, span.after '\x22'⟩) := by
  cases tail <;> rfl

/-- The characters of a string are read one after the other up to the quote. -/
theorem stringBody_append (source : Option String) {cs : List Char}
    (hcs : ∀ c ∈ cs, Text.escapeChar '\x22' c ≠ Text.escapeCode c.toNat) (taken : List Char) (span : Span)
    (tail : List Char) :
    ∃ span', stringBody source taken span (cs.flatMap (Text.escapeChar '\x22') ++ '\x22' :: tail)
      = .ok (String.ofList (taken.reverse ++ cs), ⟨tail, span'⟩) := by
  induction cs generalizing taken span with
  | nil => exact ⟨_, by simpa using stringBody_quote taken span tail⟩
  | cons c cs ih =>
    have ih := ih (fun c hc => hcs c (List.mem_cons_of_mem _ hc)) (c :: taken)
    simp only [List.reverse_cons, List.append_assoc, List.singleton_append] at ih
    rw [List.flatMap_cons, List.append_assoc]
    rcases escapeChar_cases (hcs c List.mem_cons_self) with ⟨e, hesc, he⟩ | ⟨hesc, hquote, hslash⟩
    · obtain ⟨span', ih⟩ := ih ((span.after '\\').after e)
      refine ⟨span', ?_⟩
      rw [hesc, List.cons_append, List.cons_append, List.nil_append, stringBody, if_neg (by decide),
        if_pos (by decide), he]
      exact ih
    · obtain ⟨span', ih⟩ := ih (span.after c)
      refine ⟨span', ?_⟩
      rw [hesc, List.singleton_append]
      obtain ⟨e, rest, hrest⟩ : ∃ e rest, cs.flatMap (Text.escapeChar '\x22') ++ '\x22' :: tail = e :: rest :=
        List.exists_cons_of_ne_nil (by simp)
      rw [hrest] at ih ⊢
      rw [stringBody, if_neg (by simpa using hquote), if_neg (by simpa using hslash)]
      exact ih

theorem readsBack_str {s : String} {i : Info} (h : (Atom.str s).Legible) :
    ReadsBack source (.atom (.str s) i) := by
  have htext : (toText (.atom (.str s) i)).toList
      = '\x22' :: (s.toList.flatMap (Text.escapeChar '\x22') ++ ['\x22']) := by
    simp [toText, Atom.toText, Text.quote]
  refine ⟨⟨'\x22', _, htext, rfl⟩, ?_⟩
  intro fuel tail span hfuel _
  rw [htext] at hfuel ⊢
  obtain ⟨fuel, rfl⟩ : ∃ n, fuel = n + 1 := ⟨fuel - 1, by simp at hfuel; omega⟩
  obtain ⟨span', hread⟩ := stringBody_append source h [] (span.after '\x22') tail
  refine ⟨.ofAtom (.str s) span, span', ?_, by simp [ofAtom, sameShape, Atom.same]⟩
  rw [List.cons_append, List.append_assoc, List.singleton_append]
  have hform : ∀ cs, form source (fuel + 1) ⟨'\x22' :: cs, span⟩ = (do
      let r ← stringBody source [] (span.after '\x22') cs
      return (.ofAtom (.str r.1) span, r.2)) := fun _ => rfl
  rw [hform, hread, List.reverse_nil, List.nil_append, String.ofList_toList]
  rfl

theorem patternBody_quote (taken : List Char) (span : Span) (tail : List Char) :
    patternBody source taken span ('\x22' :: tail)
      = .ok (String.ofList taken.reverse, ⟨tail, span.after '\x22'⟩) := by
  cases tail <;> rfl

/-- A pattern is read as it stands, up to its quote. -/
theorem patternBody_append (source : Option String) {cs : List Char} (hcs : isPatternText cs = true)
    (taken : List Char) (span : Span) (tail : List Char) :
    ∃ span', patternBody source taken span (cs ++ '\x22' :: tail)
      = .ok (String.ofList (taken.reverse ++ cs), ⟨tail, span'⟩) := by
  induction cs using isPatternText.induct generalizing taken span with
  | case1 => exact ⟨_, by simpa using patternBody_quote taken span tail⟩
  | case2 c =>
    simp only [isPatternText, Bool.and_eq_true, bne_iff_ne] at hcs
    refine ⟨(span.after c).after '\x22', ?_⟩
    rw [List.singleton_append, patternBody, if_neg (by simpa using hcs.1), if_neg (by simpa using hcs.2),
      patternBody_quote, List.reverse_cons]
  | case3 c e cs hslash ih =>
    rw [isPatternText, if_pos hslash] at hcs
    obtain rfl : c = '\\' := by simpa using hslash
    obtain ⟨span', ih⟩ := ih hcs (e :: '\\' :: taken) ((span.after '\\').after e)
    refine ⟨span', ?_⟩
    rw [List.cons_append, List.cons_append, patternBody, if_neg (by decide), if_pos (by decide), ih]
    simp
  | case4 c e cs hslash ih =>
    rw [isPatternText, if_neg hslash, Bool.and_eq_true, bne_iff_ne] at hcs
    obtain ⟨span', ih⟩ := ih hcs.2 (c :: taken) (span.after c)
    refine ⟨span', ?_⟩
    rw [List.cons_append, List.cons_append, patternBody, if_neg (by simpa using hcs.1), if_neg hslash]
    rw [List.cons_append] at ih
    rw [ih]
    simp

theorem readsBack_regex {s : String} {i : Info} (h : isPatternText s.toList = true) :
    ReadsBack source (.atom (.regex s) i) := by
  have htext : (toText (.atom (.regex s) i)).toList = '#' :: '\x22' :: (s.toList ++ ['\x22']) := by
    simp [toText, Atom.toText]
  refine ⟨⟨'#', _, htext, rfl⟩, ?_⟩
  intro fuel tail span hfuel _
  rw [htext] at hfuel ⊢
  obtain ⟨fuel, rfl⟩ : ∃ n, fuel = n + 1 := ⟨fuel - 1, by simp at hfuel; omega⟩
  obtain ⟨span', hread⟩ := patternBody_append source h [] ((span.after '#').after '\x22') tail
  refine ⟨.ofAtom (.regex s) span, span', ?_, by simp [ofAtom, sameShape, Atom.same]⟩
  rw [List.cons_append, List.cons_append, List.append_assoc, List.singleton_append]
  have hform : ∀ cs, form source (fuel + 1) ⟨'#' :: '\x22' :: cs, span⟩ = (do
      let r ← patternBody source [] ((span.after '#').after '\x22') cs
      return (.ofAtom (.regex r.1) span, r.2)) := fun _ => rfl
  rw [hform, hread, List.reverse_nil, List.nil_append, String.ofList_toList]
  rfl

theorem readsBack_atom {a : Atom} {i : Info} (h : a.Legible) : ReadsBack source (.atom a i) := by
  cases a with
  | nil => exact readsBack_constant (.inl rfl)
  | bool b => cases b with
    | true => exact readsBack_constant (.inr (.inl rfl))
    | false => exact readsBack_constant (.inr (.inr rfl))
  | char c => exact readsBack_char
  | int n =>
    have htext : (Atom.int n).toText.toList = Double.intText n.toInt := String.toList_ofList
    exact readsBack_number (htext ▸ fun _ => Double.isNumeral_intText) (htext ▸ startsLikeNumber_intText _)
      (htext ▸ number?_intText n) (by simp [Atom.same])
  | float x =>
    obtain ⟨hfinite, y, hy, hyx⟩ := h
    have htext : x.toText = String.ofList (x.finiteText Double.sourceFormat) := by
      rw [Double.isFinite, decide_eq_true_eq] at hfinite
      simp [Double.toText, Double.isNaN, Double.isInfinite, Nat.not_lt_of_lt hfinite, Nat.ne_of_lt hfinite]
    have hchars : (Atom.float x).toText.toList = x.finiteText Double.sourceFormat := by
      rw [Atom.toText, htext, String.toList_ofList]
    refine readsBack_number (b := .float y) (hchars ▸ fun _ => isNumeral_finiteText)
      (hchars ▸ startsLikeNumber_finiteText x) ?_ hyx
    rw [hchars, number?_finiteText, ← htext, hy]
    rfl
  | str s => exact readsBack_str h
  | regex s => exact readsBack_regex h.wellSpelled
  | keyword k => exact readsBack_keyword h.wellSpelled
  | symbol s => exact readsBack_symbol h.wellSpelled

/-! ### Collections -/

/-- Items in a row, a space between two of them. -/
def written : List Datum → List Char
  | [] => []
  | [d] => d.toText.toList
  | d :: ds => d.toText.toList ++ ' ' :: written ds

theorem toList_intercalate_toTexts (ds : List Datum) :
    (" ".intercalate (toTexts ds)).toList = written ds := by
  fun_induction written ds with
  | case1 => rfl
  | case2 d => simp [toTexts]
  | case3 d ds hds ih =>
    obtain ⟨e, ds, rfl⟩ := List.exists_cons_of_ne_nil hds
    rw [← ih]
    simp [toTexts]

/-- The keys and values of a map in a row. -/
def flatten : List (Datum × Datum) → List Datum
  | [] => []
  | (k, v) :: es => k :: v :: flatten es

theorem written_cons (d : Datum) {ds : List Datum} (h : ds ≠ []) :
    written (d :: ds) = d.toText.toList ++ ' ' :: written ds := by
  obtain ⟨e, ds, rfl⟩ := List.exists_cons_of_ne_nil h
  rfl

theorem toList_intercalate_entryTexts (es : List (Datum × Datum)) :
    (" ".intercalate (entryTexts es)).toList = written (flatten es) := by
  induction es with
  | nil => rfl
  | cons e es ih =>
    cases es with
    | nil => simp [entryTexts, flatten, written]
    | cons e' es =>
      have hne : flatten (e' :: es) ≠ [] := by simp [flatten]
      have htexts : entryTexts (e :: e' :: es)
          = (e.1.toText ++ " " ++ e.2.toText) :: entryTexts (e' :: es) := rfl
      have hflatten : flatten (e :: e' :: es) = e.1 :: e.2 :: flatten (e' :: es) := rfl
      rw [htexts, String.intercalate_cons_of_ne_nil (by simp [entryTexts]), String.toList_append,
        String.toList_append, ih, hflatten, written_cons _ (by simp), written_cons _ hne]
      simp

/-- Ends a collection. -/
def closes (c : Char) : Bool := c == ')' || c == ']' || c == '\x7d'

theorem atToken_closes {c : Char} (h : closes c = true) (cs : List Char) (span : Span) :
    atToken ⟨c :: cs, span⟩ = ⟨c :: cs, span⟩ := by
  simp only [closes, Bool.or_eq_true, beq_iff_eq] at h
  rcases h with (rfl | rfl) | rfl <;> rfl

theorem ends_closes {c : Char} (h : closes c = true) (cs : List Char) : Ends (c :: cs) := by
  simp only [closes, Bool.or_eq_true, beq_iff_eq] at h
  rcases h with (rfl | rfl) | rfl <;> exact ends_cons rfl cs

/-- A closing delimiter ends the sequence. -/
theorem sequence_closes {close : Char} (h : closes close = true) (fuel : Nat) (taken : List Datum) (span : Span)
    (tail : List Char) :
    sequence source (fuel + 1) close taken ⟨close :: tail, span⟩
      = .ok (taken.reverse, ⟨tail, span.after close⟩) := by
  rw [sequence, atToken_closes h]
  simp [Cursor.advance]

/-- One item of a sequence is read, and the sequence goes on behind it. -/
theorem sequence_item {d : Datum} (hd : ReadsBack source d) {close : Char} (h : closes close = true) (fuel : Nat)
    (taken : List Datum) (span : Span) (tail : List Char) (hfuel : 2 * d.toText.toList.length ≤ fuel)
    (htail : Ends tail) :
    ∃ d' span', sequence source (fuel + 1) close taken ⟨d.toText.toList ++ tail, span⟩
      = sequence source fuel close (d' :: taken) ⟨tail, span'⟩ ∧ d'.sameShape d = true := by
  obtain ⟨d', span', hform, hsame⟩ := hd.form fuel tail span hfuel htail
  obtain ⟨c, cs, hcs, hc⟩ := hd.starts
  refine ⟨d', span', ?_, hsame⟩
  have hne : ¬ (c == close) = true := by
    rintro heq
    rw [beq_iff_eq] at heq
    subst heq
    simp only [closes, Bool.or_eq_true, beq_iff_eq] at h
    rcases h with (rfl | rfl) | rfl <;> cases hc
  rw [hcs, List.cons_append] at hform ⊢
  rw [sequence, atToken_opens hc]
  simp only [if_neg hne, hform]
  rfl

/-- Items in a row are read up to the closing delimiter. -/
theorem sequence_written {close : Char} (h : closes close = true) {ds : List Datum}
    (hds : ∀ d ∈ ds, ReadsBack source d) (fuel : Nat) (taken : List Datum) (span : Span) (tail : List Char)
    (hfuel : 2 * (written ds).length < fuel) :
    ∃ ds' span', sequence source fuel close taken ⟨written ds ++ close :: tail, span⟩
      = .ok (taken.reverse ++ ds', ⟨tail, span'⟩) ∧ sameShapes ds' ds = true := by
  obtain ⟨fuel, rfl⟩ : ∃ n, fuel = n + 1 := ⟨fuel - 1, by omega⟩
  induction ds generalizing fuel taken span with
  | nil => exact ⟨[], _, by simpa [written] using sequence_closes h fuel taken span tail, rfl⟩
  | cons d ds ih =>
    have hd : ReadsBack source d := hds d List.mem_cons_self
    have ih := ih fun d hd => hds d (List.mem_cons_of_mem _ hd)
    obtain ⟨c, cs, hcs, -⟩ := hd.starts
    have hlength : 0 < d.toText.toList.length := by simp [hcs]
    by_cases hne : ds = []
    · -- The last item stands right before the delimiter, …
      subst hne
      rw [written] at hfuel ⊢
      obtain ⟨d', span', hitem, hsame⟩ := sequence_item hd h fuel taken span (close :: tail) (by omega)
        (ends_closes h tail)
      obtain ⟨fuel, rfl⟩ : ∃ n, fuel = n + 1 := ⟨fuel - 1, by omega⟩
      refine ⟨[d'], span'.after close, ?_, by simp [sameShapes, hsame]⟩
      rw [hitem, sequence_closes h, List.reverse_cons]
    · -- … every other one before a space.
      rw [written_cons d hne] at hfuel ⊢
      rw [List.length_append, List.length_cons] at hfuel
      rw [List.append_assoc, List.cons_append]
      obtain ⟨d', span₁, hitem, hsame⟩ := sequence_item hd h fuel taken span
        (' ' :: (written ds ++ close :: tail)) (by omega) (ends_cons rfl _)
      obtain ⟨fuel, rfl⟩ : ∃ n, fuel = n + 1 := ⟨fuel - 1, by omega⟩
      obtain ⟨ds', span', hrest, hsames⟩ := ih (d' :: taken) (span₁.after ' ') fuel (by omega)
      refine ⟨d' :: ds', span', ?_, by simp [sameShapes, hsame, hsames]⟩
      have hspace : ∀ cs, sequence source (fuel + 1) close (d' :: taken) ⟨' ' :: cs, span₁⟩
          = sequence source (fuel + 1) close (d' :: taken) ⟨cs, span₁.after ' '⟩ := fun _ => rfl
      rw [hitem, hspace, hrest, List.reverse_cons, List.append_assoc, List.singleton_append]

/-! ### Maps -/

theorem length_flatten (es : List (Datum × Datum)) : (flatten es).length = 2 * es.length := by
  induction es with
  | nil => rfl
  | cons e es ih =>
    rw [flatten, List.length_cons, List.length_cons, List.length_cons, ih]
    omega

theorem sameShapes_length {ds es : List Datum} (h : sameShapes ds es = true) : ds.length = es.length := by
  induction ds generalizing es with
  | nil => cases es with
    | nil => rfl
    | cons e es => cases h
  | cons d ds ih => cases es with
    | nil => cases h
    | cons e es =>
      rw [sameShapes, Bool.and_eq_true] at h
      rw [List.length_cons, List.length_cons, ih h.2]

/-- Items two by two are the entries they were written from. -/
theorem sameEntries_pairUp {ds : List Datum} {es : List (Datum × Datum)} (h : sameShapes ds (flatten es) = true) :
    sameEntries (pairUp ds) es = true := by
  induction es generalizing ds with
  | nil => cases ds with
    | nil => rfl
    | cons d ds => cases h
  | cons e es ih =>
    match ds, h with
    | [], h => cases h
    | [k], h => simp [flatten, sameShapes] at h
    | k :: v :: ds, h =>
      simp only [flatten, sameShapes, Bool.and_eq_true] at h
      simp [pairUp, sameEntries, h, ih h.2.2]

/-! ### Data -/

/-- A collection is read back when its items are: `opening` stands before them, `close` behind them, and
`make` says what becomes of them. -/
theorem readsBack_collection {d : Datum} (opening : List Char) (close : Char) {items : List Datum}
    (make : Span → List Datum × Cursor → Except Error (Datum × Cursor))
    (hitems : ∀ e ∈ items, ReadsBack source e) (hopening : ∃ c cs, opening = c :: cs ∧ opens c = true)
    (hclose : closes close = true) (htext : d.toText.toList = opening ++ written items ++ [close])
    (hform : ∀ fuel cs span, ∃ span', form source (fuel + 1) ⟨opening ++ cs, span⟩
      = sequence source fuel close [] ⟨cs, span'⟩ >>= make span)
    (hmake : ∀ ds c span, sameShapes ds items = true →
      ∃ d', make span (ds, c) = .ok (d', c) ∧ d'.sameShape d = true) : ReadsBack source d := by
  obtain ⟨ch, chs, rfl, hch⟩ := hopening
  refine ⟨⟨ch, chs ++ written items ++ [close], by simpa using htext, hch⟩, ?_⟩
  intro fuel tail span hfuel _
  simp only [htext, List.length_append, List.length_cons] at hfuel
  obtain ⟨fuel, rfl⟩ : ∃ n, fuel = n + 1 := ⟨fuel - 1, by omega⟩
  obtain ⟨span₁, hform⟩ := hform fuel (written items ++ close :: tail) span
  obtain ⟨ds, span₂, hread, hsame⟩ := sequence_written hclose hitems fuel [] span₁ tail (by omega)
  obtain ⟨d', hd', hshape⟩ := hmake ds ⟨tail, span₂⟩ span hsame
  refine ⟨d', span₂, ?_, hshape⟩
  rw [htext, List.append_assoc, List.append_assoc, List.singleton_append, hform, hread]
  exact hd'

mutual

/-- A datum of legible atoms is read back from its text, in front of any text. -/
theorem readsBack (d : Datum) (h : ∀ a ∈ d.atoms, a.Legible) : ReadsBack source d := by
  cases d with
  | atom a i => exact readsBack_atom (h a (by simp [atoms]))
  | list items i =>
    refine readsBack_collection ['('] ')' (fun span r => .ok (.list r.1 { span }, r.2)) (readsBack_all items h)
      ⟨'(', [], rfl, rfl⟩ rfl ?_ (fun fuel cs span => ⟨_, rfl⟩) ?_
    · simp [toText, ← toList_intercalate_toTexts]
    · exact fun ds c span hsame => ⟨_, rfl, by simpa [sameShape] using hsame⟩
  | vector items i =>
    refine readsBack_collection ['['] ']' (fun span r => .ok (.vector r.1 { span }, r.2)) (readsBack_all items h)
      ⟨'[', [], rfl, rfl⟩ rfl ?_ (fun fuel cs span => ⟨_, rfl⟩) ?_
    · simp [toText, ← toList_intercalate_toTexts]
    · exact fun ds c span hsame => ⟨_, rfl, by simpa [sameShape] using hsame⟩
  | set items i =>
    refine readsBack_collection ['#', '\x7b'] '\x7d' (fun span r => .ok (.set r.1 { span }, r.2))
      (readsBack_all items h) ⟨'#', _, rfl, rfl⟩ rfl ?_ (fun fuel cs span => ⟨_, rfl⟩) ?_
    · simp [toText, ← toList_intercalate_toTexts]
    · exact fun ds c span hsame => ⟨_, rfl, by simpa [sameShape] using hsame⟩
  | map entries i =>
    refine readsBack_collection ['\x7b'] '\x7d' (fun span r =>
        if r.1.length % 2 != 0 then
          .error ((Error.reading "map literal must contain an even number of forms").atSpan span)
        else .ok (.map (pairUp r.1) { span }, r.2)) (readsBack_entries entries h)
      ⟨'\x7b', _, rfl, rfl⟩ rfl ?_ (fun fuel cs span => ⟨_, rfl⟩) ?_
    · simp [toText, ← toList_intercalate_entryTexts]
    · -- The reader counts the forms of a map, and keys and values are as many.
      intro ds c span hsame
      have heven : ds.length % 2 = 0 := by
        rw [sameShapes_length hsame, length_flatten]
        omega
      exact ⟨.map (pairUp ds) { span }, if_neg (by simp [heven]),
        by simpa [sameShape] using sameEntries_pairUp hsame⟩

theorem readsBack_all (ds : List Datum) (h : ∀ a ∈ atomsOfAll ds, a.Legible) : ∀ d ∈ ds, ReadsBack source d := by
  cases ds with
  | nil => nofun
  | cons d ds =>
    simp only [atomsOfAll, List.mem_append] at h
    exact List.forall_mem_cons.mpr
      ⟨readsBack d fun a ha => h a (.inl ha), readsBack_all ds fun a ha => h a (.inr ha)⟩

theorem readsBack_entries (es : List (Datum × Datum)) (h : ∀ a ∈ atomsOfEntries es, a.Legible) :
    ∀ d ∈ flatten es, ReadsBack source d := by
  match es with
  | [] => nofun
  | (k, v) :: es =>
    simp only [atomsOfEntries, List.mem_append] at h
    exact List.forall_mem_cons.mpr ⟨readsBack k fun a ha => h a (.inl (.inl ha)), List.forall_mem_cons.mpr
      ⟨readsBack v fun a ha => h a (.inl (.inr ha)), readsBack_entries es fun a ha => h a (.inr ha)⟩⟩

end

/-- Reading the text of a datum gives one datum, of the same shape. -/
theorem readAll_toText (source : Option String) (d : Datum) (h : ∀ a ∈ d.atoms, a.Legible) :
    ∃ d', readAll source d.toText = .ok [d'] ∧ d'.sameShape d = true := by
  have hd : ReadsBack source d := readsBack d h
  obtain ⟨c, cs, hcs, hc⟩ := hd.starts
  obtain ⟨d', span', hform, hsame⟩ := hd.form (2 * d.toText.toList.length + 2) [] Span.start (by omega) ends_nil
  refine ⟨d', ?_, hsame⟩
  rw [List.append_nil] at hform
  have hlength : d.toText.length = cs.length + 1 := by rw [← String.length_toList, hcs, List.length_cons]
  rw [readAll, hlength, Cursor.ofText, formsAux, hcs, atToken_opens hc]
  rw [hcs] at hform
  simp only [hform, List.isEmpty_cons, Bool.false_eq_true, if_false]
  rfl

/-- A map with a name, a pattern with a quote in it, a string with escapes, a parenthesis as a character, the
least integer and a float. -/
def mixedMap : Datum :=
  .map [(.atom (.keyword "a") {}, .vector [.atom (.symbol "x") {}, .atom (.regex "a\\\"b") {}] {}),
    (.atom (.char '(') {}, .list [.atom (.str "q\n\"!") {}, .set [.atom (.int Int64.minValue) {},
      .atom (.float ⟨0x3FF8000000000000⟩) {}] {}] {})] {}

theorem mixedMap_legible : ∀ a ∈ mixedMap.atoms, a.Legible := by
  have hread : readAll none ":a [x #\"a\\\"b\"]" = .ok [.ofAtom (.keyword "a") ⟨1, 1, 0⟩,
      .vector [.symbol "x" ⟨1, 5, 4⟩, .ofAtom (.regex "a\\\"b") ⟨1, 7, 6⟩] { span := ⟨1, 4, 3⟩ }] := rfl
  have hkeyword : (Atom.keyword "a").Legible := ⟨none, _, _, hread, _, List.mem_cons_self, List.mem_cons_self⟩
  have hsymbol : (Atom.symbol "x").Legible :=
    ⟨none, _, _, hread, _, List.mem_cons_of_mem _ List.mem_cons_self, List.mem_cons_self⟩
  have hregex : (Atom.regex "a\\\"b").Legible :=
    ⟨none, _, _, hread, _, List.mem_cons_of_mem _ List.mem_cons_self, List.mem_cons_of_mem _ List.mem_cons_self⟩
  have hfloat : (Atom.float ⟨0x3FF8000000000000⟩).Legible :=
    ⟨rfl, ⟨0x3FF8000000000000⟩, by decide +kernel, by decide +kernel⟩
  have hstr : (Atom.str "q\n\"!").Legible := by
    have hall : ("q\n\"!".toList.all fun c => decide (Text.escapeChar '\x22' c ≠ Text.escapeCode c.toNat))
        = true := by
      decide +kernel
    exact fun c hc => of_decide_eq_true (List.all_eq_true.mp hall c hc)
  have hatoms : mixedMap.atoms = [.keyword "a", .symbol "x", .regex "a\\\"b", .char '(', .str "q\n\"!",
      .int Int64.minValue, .float ⟨0x3FF8000000000000⟩] := rfl
  rw [hatoms]
  simp only [List.forall_mem_cons]
  exact ⟨hkeyword, hsymbol, hregex, by trivial, hstr, by trivial, hfloat, by simp⟩

theorem readAll_toText_mixedMap :
    ∃ d', readAll none mixedMap.toText = .ok [d'] ∧ d'.sameShape mixedMap = true :=
  readAll_toText none mixedMap mixedMap_legible

end Datum

end LispMachine
