import LispMachine.Datum.Reader
import LispMachine.Datum.Printer
import LispMachine.Symbol
import LispMachine.Proofs.Sequencing

/-! # How names and patterns are spelled

Not every text is the name of a symbol: the reader takes a name apart at blanks and delimiters, and takes
some tokens for numbers or constants.  `Atom.WellSpelled` says which names and patterns are left, and
`wellSpelled_of_readAll` that the reader gives no others, whatever text it reads: a form is read token by
token, so the statement goes by the fuel of the reader, one case for each way a form can start. -/

namespace LispMachine

/-! ### Symbols -/

/-- The symbol that is parsed from a text is written as that text. -/
theorem Symbol.toText_parse (text : String) : (Symbol.parse text).toText = text := by
  have hwhole : text.toList.takeWhile (· != '/') ++ text.toList.dropWhile (· != '/') = text.toList :=
    List.takeWhile_append_dropWhile
  unfold Symbol.parse splitQualified
  simp only
  cases hdrop : text.toList.dropWhile (· != '/') with
  | nil => rfl
  | cons c after =>
    have hslash : c = '/' := by
      have hhead := List.head?_dropWhile_not (· != '/') text.toList
      simpa [hdrop] using hhead
    simp only
    split
    · rfl
    · rw [hdrop, hslash] at hwhole
      simp only [Symbol.toText]
      apply String.toList_inj.mp
      simpa using hwhole

theorem Symbol.parse_injective : Function.Injective Symbol.parse :=
  Function.LeftInverse.injective Symbol.toText_parse

/-! ### Atoms -/

namespace Datum

mutual

/-- The atoms of a datum, in the order of writing. -/
def atoms : Datum → List Atom
  | .atom a _ => [a]
  | .list items _ => atomsOfAll items
  | .vector items _ => atomsOfAll items
  | .set items _ => atomsOfAll items
  | .map entries _ => atomsOfEntries entries

def atomsOfAll : List Datum → List Atom
  | [] => []
  | d :: ds => atoms d ++ atomsOfAll ds

def atomsOfEntries : List (Datum × Datum) → List Atom
  | [] => []
  | (k, v) :: es => atoms k ++ atoms v ++ atomsOfEntries es

end

/-- A text that the reader takes as one token. -/
def isWord (cs : List Char) : Bool := !cs.isEmpty && cs.all isTokenChar

/-- A text that ends no pattern before its own end: every quote is escaped, and no escape is open. -/
def isPatternText : List Char → Bool
  | [] => true
  | [c] => c != '\x22' && c != '\\'
  | c :: e :: cs => if c == '\\' then isPatternText cs else c != '\x22' && isPatternText (e :: cs)

/-- Tokens with a meaning of their own. -/
def constantWords : List String := ["nil", "true", "false"]

/-- A token that is a name and not a number, a constant, a keyword, a character or a dispatch mark. -/
def isName (cs : List Char) : Bool :=
  isWord cs && !constantWords.contains (String.ofList cs) && !startsLikeNumber cs &&
    cs.head?.all fun c => c != '#' && c != '\\' && c != ':'

end Datum

/-- Names are tokens of their kind, and patterns end where they should. -/
def Atom.WellSpelled : Atom → Prop
  | .regex s => Datum.isPatternText s.toList = true
  | .keyword k => Datum.isWord k.toList = true
  | .symbol s => Datum.isName s.toList = true
  | _ => True

namespace Datum

/-- All atoms of the datum are well spelled. -/
def WellSpelled (d : Datum) : Prop := ∀ a ∈ d.atoms, a.WellSpelled

theorem mem_atomsOfAll {a : Atom} {ds : List Datum} : a ∈ atomsOfAll ds ↔ ∃ d ∈ ds, a ∈ d.atoms := by
  induction ds with
  | nil => simp [atomsOfAll]
  | cons d ds ih => simp [atomsOfAll, ih]

theorem atoms_withInfo (i : Info) (d : Datum) : (d.withInfo i).atoms = d.atoms := by
  cases d <;> simp [withInfo, atoms]

theorem atomsOfEntries_pairUp (ds : List Datum) :
    ∀ a ∈ atomsOfEntries (pairUp ds), a ∈ atomsOfAll ds := by
  fun_induction pairUp ds with
  | case1 k v rest ih =>
    intro a ha
    simp only [atomsOfEntries, List.mem_append, atomsOfAll] at ha ⊢
    rcases ha with (ha | ha) | ha
    · exact .inl ha
    · exact .inr (.inl ha)
    · exact .inr (.inr (ih a ha))
  | case2 =>
    intro a ha
    cases ha

/-! ### Tokens -/

theorem isWord_token {c : Cursor} (h : (token c).1.isEmpty = false) : isWord (token c).1 = true := by
  simp only [isWord, h, Bool.not_false, Bool.true_and]
  exact List.all_takeWhile

theorem head?_token {c : Cursor} (h : (token c).1.isEmpty = false) : (token c).1.head? = c.rest.head? := by
  cases hrest : c.rest with
  | nil => simp [token, hrest] at h
  | cons ch cs =>
    cases hch : isTokenChar ch with
    | true => simp [token, hrest, hch]
    | false => simp [token, hrest, hch] at h

theorem wellSpelled_ofAtom {a : Atom} (h : a.WellSpelled) (span : Span) : (ofAtom a span).WellSpelled := by
  simpa [WellSpelled, ofAtom, atoms] using h

theorem wellSpelled_of_number {cs : List Char} {a : Atom} (h : number? cs = some a) : a.WellSpelled := by
  unfold number? at h
  split at h
  · cases h
  · split at h
    · cases h
      trivial
    · split at h
      · obtain ⟨n, -, rfl⟩ := Option.map_eq_some_iff.mp h
        trivial
      · obtain ⟨x, -, rfl⟩ := Option.map_eq_some_iff.mp h
        trivial

variable {source : Option String}

/-- A token that is not a keyword is read as an atom that is well spelled. -/
theorem wellSpelled_plain {c c' : Cursor} {d : Datum} (h : plain source c = .ok (d, c'))
    (hhead : c.rest.head?.all fun ch => ch != '#' && ch != '\\' && ch != ':') : d.WellSpelled := by
  unfold plain at h
  simp only at h
  split at h
  · cases h
  rename_i hempty
  rw [Bool.not_eq_true] at hempty
  split at h
  · cases h
    exact wellSpelled_ofAtom (by trivial) _
  split at h
  · cases h
    exact wellSpelled_ofAtom (by trivial) _
  split at h
  · cases h
    exact wellSpelled_ofAtom (by trivial) _
  split at h
  · rename_i a ha
    cases h
    exact wellSpelled_ofAtom (wellSpelled_of_number ha) _
  split at h
  · cases h
  · rename_i hnil htrue hfalse _ hnumber
    cases h
    refine wellSpelled_ofAtom ?_ _
    simp only [Atom.WellSpelled, String.toList_ofList, isName, isWord_token hempty, head?_token hempty, hhead]
    simp_all [constantWords]

/-! ### Patterns -/

theorem isPatternText_cons {c : Char} (h : c ≠ '\\') (cs : List Char) :
    isPatternText (c :: cs) = (c != '\x22' && isPatternText cs) := by
  cases cs with
  | nil => simp [isPatternText, h]
  | cons e cs => rw [isPatternText, if_neg (by simpa using h)]

/-- What is read as a pattern could be written as one. -/
theorem isPatternText_of_patternBody {taken cs : List Char} {span : Span} {text : String} {c' : Cursor}
    (h : patternBody source taken span cs = .ok (text, c')) :
    ∃ body, text.toList = taken.reverse ++ body ∧ isPatternText body = true := by
  fun_induction patternBody source taken span cs with
  | case1 => cases h
  | case2 =>
    cases h
    exact ⟨[], by simp, rfl⟩
  | case3 => cases h
  | case4 =>
    cases h
    exact ⟨[], by simp, rfl⟩
  | case5 taken span c e cs hquote hslash ih =>
    obtain ⟨body, htext, hbody⟩ := ih h
    refine ⟨c :: e :: body, by simp [htext], ?_⟩
    rw [isPatternText, if_pos hslash, hbody]
  | case6 taken span c e cs hquote hslash ih =>
    obtain ⟨body, htext, hbody⟩ := ih h
    refine ⟨c :: body, by simp [htext], ?_⟩
    rw [isPatternText_cons (by simpa using hslash), hbody]
    simpa using hquote

/-! ### Forms -/

theorem wellSpelled_applyMeta {m d d' : Datum} (h : applyMeta m d = .ok d') (hd : d.WellSpelled) :
    d'.WellSpelled := by
  have hentry : ∀ (d : Datum) (k v : Datum), (applyMetaEntry d k v).atoms = d.atoms := by
    intro d k v
    unfold applyMetaEntry
    split
    · exact atoms_withInfo _ d
    · split
      · exact atoms_withInfo _ d
      · rfl
    · rfl
  have hentries : ∀ (es : List (Datum × Datum)) (d : Datum),
      (es.foldl (fun d e => applyMetaEntry d e.1 e.2) d).atoms = d.atoms := by
    intro es
    induction es with
    | nil => exact fun _ => rfl
    | cons e es ih => exact fun d => (ih _).trans (hentry d e.1 e.2)
  unfold applyMeta at h
  split at h
  · cases h
    simpa [WellSpelled, atoms_withInfo] using hd
  · cases h
    simpa [WellSpelled, atoms_withInfo] using hd
  · cases h
    simpa [WellSpelled, atoms_withInfo] using hd
  · cases h
    simpa [WellSpelled, hentries] using hd
  · cases h

/-- The items read so far, and those of a collection that is done. -/
def AllWellSpelled (ds : List Datum) : Prop := ∀ d ∈ ds, d.WellSpelled

theorem allWellSpelled_nil : AllWellSpelled [] := fun _ hd => absurd hd List.not_mem_nil

theorem AllWellSpelled.atoms {ds : List Datum} (h : AllWellSpelled ds) : ∀ a ∈ atomsOfAll ds, a.WellSpelled := by
  intro a ha
  obtain ⟨d, hd, ha⟩ := mem_atomsOfAll.mp ha
  exact h d hd a ha

theorem AllWellSpelled.entries {ds : List Datum} (h : AllWellSpelled ds) (i : Info) :
    (Datum.map (pairUp ds) i).WellSpelled := fun a ha => h.atoms a (atomsOfEntries_pairUp ds a ha)

theorem wellSpelled_wrapped {head : String} (hhead : isName head.toList = true) (span : Span) {d : Datum}
    (hd : d.WellSpelled) : (wrapped head span d).WellSpelled := by
  intro a ha
  simp only [wrapped, ofList, symbol, ofAtom, Datum.atoms, atomsOfAll, List.append_nil, List.mem_append,
    List.mem_singleton] at ha
  rcases ha with rfl | ha
  · exact hhead
  · exact hd a ha

/-- With this much fuel, the reader gives well-spelled data only. -/
structure ReadsWellSpelled (source : Option String) (fuel : Nat) : Prop where
  form : ∀ {c c' : Cursor} {d : Datum}, form source fuel c = .ok (d, c') → d.WellSpelled
  marked : ∀ {head : String} {span : Span} {c c' : Cursor} {d : Datum}, isName head.toList = true →
    marked source fuel head span c = .ok (d, c') → d.WellSpelled
  sequence : ∀ {close : Char} {taken ds : List Datum} {c c' : Cursor}, AllWellSpelled taken →
    sequence source fuel close taken c = .ok (ds, c') → AllWellSpelled ds

theorem wellSpelled_form {fuel : Nat} (ih : ReadsWellSpelled source fuel) {c c' : Cursor} {d : Datum}
    (h : form source (fuel + 1) c = .ok (d, c')) : d.WellSpelled := by
  rw [Datum.form] at h
  generalize atToken c = c at h
  simp only at h
  split at h
  · cases h
  · exact ih.marked (by decide) h
  · exact ih.marked (by decide) h
  · exact ih.marked (by decide) h
  · exact ih.marked (by decide) h
  · obtain ⟨⟨m, c₁⟩, -, h⟩ := bind_ok h
    obtain ⟨⟨d₁, c₂⟩, hd, h⟩ := bind_ok h
    obtain ⟨d₂, hmeta, h⟩ := bind_ok h
    cases h
    exact wellSpelled_applyMeta hmeta (ih.form hd)
  · obtain ⟨⟨items, c₁⟩, hitems, h⟩ := bind_ok h
    cases h
    exact (ih.sequence allWellSpelled_nil hitems).atoms
  · obtain ⟨⟨items, c₁⟩, hitems, h⟩ := bind_ok h
    cases h
    exact (ih.sequence allWellSpelled_nil hitems).atoms
  · obtain ⟨⟨items, c₁⟩, hitems, h⟩ := bind_ok h
    dsimp only at h
    split at h
    · cases h
    · cases h
      exact (ih.sequence allWellSpelled_nil hitems).entries _
  · split at h
    · obtain ⟨⟨items, c₁⟩, hitems, h⟩ := bind_ok h
      cases h
      exact (ih.sequence allWellSpelled_nil hitems).atoms
    · obtain ⟨⟨text, c₁⟩, htext, h⟩ := bind_ok h
      cases h
      obtain ⟨body, hbody, hpattern⟩ := isPatternText_of_patternBody htext
      refine wellSpelled_ofAtom ?_ _
      rwa [Atom.WellSpelled, hbody]
    · cases h
    · cases h
  · obtain ⟨⟨text, c₁⟩, -, h⟩ := bind_ok h
    cases h
    exact wellSpelled_ofAtom (by trivial) _
  · obtain ⟨⟨ch, c₁⟩, -, h⟩ := bind_ok h
    cases h
    exact wellSpelled_ofAtom (by trivial) _
  · split at h
    · cases h
    · rename_i hempty
      cases h
      refine wellSpelled_ofAtom ?_ _
      rw [Atom.WellSpelled, String.toList_ofList]
      exact isWord_token (by simpa using hempty)
  · split at h
    · cases h
    · refine wellSpelled_plain h ?_
      simp_all

theorem readsWellSpelled (source : Option String) (fuel : Nat) : ReadsWellSpelled source fuel := by
  induction fuel with
  | zero =>
    refine ⟨?_, ?_, ?_⟩
    · intro c c' d h
      cases h
    · intro head span c c' d _ h
      cases h
    · intro close taken ds c c' _ h
      cases h
  | succ fuel ih =>
    refine ⟨wellSpelled_form ih, ?_, ?_⟩
    · intro head span c c' d hhead h
      rw [Datum.marked] at h
      obtain ⟨⟨d₁, c₁⟩, hd, h⟩ := bind_ok h
      cases h
      exact wellSpelled_wrapped hhead span (ih.form hd)
    · intro close taken ds c c' htaken h
      rw [Datum.sequence] at h
      generalize atToken c = c at h
      simp only at h
      split at h
      · cases h
      split at h
      · cases h
        exact fun d hd => htaken d (List.mem_reverse.mp hd)
      · obtain ⟨⟨d₁, c₁⟩, hd, h⟩ := bind_ok h
        exact ih.sequence (List.forall_mem_cons.mpr ⟨ih.form hd, htaken⟩) h

theorem allWellSpelled_formsAux {fuel : Nat} {taken ds : List Datum} {c : Cursor}
    (htaken : AllWellSpelled taken) (h : formsAux source fuel taken c = .ok ds) : AllWellSpelled ds := by
  induction fuel generalizing taken c with
  | zero =>
    cases h
    exact fun d hd => htaken d (List.mem_reverse.mp hd)
  | succ fuel ih =>
    rw [formsAux] at h
    dsimp only at h
    split at h
    · cases h
      exact fun d hd => htaken d (List.mem_reverse.mp hd)
    · obtain ⟨⟨d₁, c₁⟩, hd, h⟩ := bind_ok h
      exact ih (List.forall_mem_cons.mpr ⟨(readsWellSpelled source _).form hd, htaken⟩) h

/-- Whatever the reader reads, names are tokens of their kind and patterns end where they should. -/
theorem wellSpelled_of_readAll {text : String} {ds : List Datum} (h : readAll source text = .ok ds) :
    AllWellSpelled ds := allWellSpelled_formsAux allWellSpelled_nil h

end Datum

end LispMachine
