import LispMachine.Proofs.Datum.Spelling
import LispMachine.Proofs.Emission.View
import LispMachine.Proofs.Template.Filling

/-! # The names in a template

A symbol that ends in `#` is given a name when it is first met in a template, made of its own name and a
number not given out before, and keeps it through the template; any other symbol gets the name it has in the
current namespace.  `Settles` says what meeting symbols makes of the state: the table of names only grows, and
its names stay apart (`Numbered`).  `Reads` says that a filling gives each symbol the name of the table or the
namespace, and a template without unquoted parts, once its symbols are qualified, is the value it is filled to
(`qualifyDatum_settles`). -/

namespace LispMachine

namespace Template

/-! ### Names made from numbers -/

/-- The name made for a symbol from a number. -/
def madeName (x : String) (n : Nat) : String :=
  String.ofList x.toList.dropLast ++ "__" ++ toString n ++ "__auto__"

theorem digits_of_reverse (stem : List Char) (n : Nat) :
    ((stem ++ "__".toList ++ Nat.toDigits 10 n).reverse.takeWhile Char.isDigit).reverse = Nat.toDigits 10 n := by
  have hdigits : ∀ c ∈ (Nat.toDigits 10 n).reverse, c.isDigit = true := by
    intro c hc
    exact Nat.isDigit_of_mem_toDigits (by decide) (by decide) (List.mem_reverse.mp hc)
  rw [List.reverse_append, List.takeWhile_append_of_pos hdigits, List.reverse_append, List.reverse_append]
  simp

/-- A text and a number. -/
def numbered (base : String) (n : Nat) : String := base ++ "__" ++ toString n

theorem toList_numbered (base : String) (n : Nat) :
    (numbered base n).toList = base.toList ++ "__".toList ++ Nat.toDigits 10 n := by
  simp only [numbered, Nat.toString_eq_ofList_toDigits, String.toList_append, String.toList_ofList]

theorem numbered_number {base base' : String} {m n : Nat} (h : numbered base m = numbered base' n) : m = n := by
  have hchars := congrArg String.toList h
  rw [toList_numbered, toList_numbered] at hchars
  have hdigits : Nat.toDigits 10 m = Nat.toDigits 10 n := by
    rw [← digits_of_reverse base.toList m, hchars, digits_of_reverse]
  have hvalue := congrArg (fun cs => Nat.ofDigitChars 10 cs 0) hdigits
  simpa only [Nat.ofDigitChars_toDigits (b := 10) (by decide) (by decide)] using hvalue

/-- The number can be told from the name. -/
theorem madeName_number {x y : String} {m n : Nat} (h : madeName x m = madeName y n) : m = n :=
  numbered_number ((String.append_left_inj _).mp h)

/-- The name a symbol stands for that does not end in `#`. -/
def settledName (w : World) (name : String) : String :=
  if reserved.contains name || Expansion.derivedForms.contains name || isMember name then name
  else fullName w name

/-! ### Tables of names -/

/-- The names of the innermost template. -/
def tableOf (s : FormState) : Table String String := s.templates.headD {}

/-- The names of the table are made from numbers of a range, for different symbols from different ones. -/
structure Numbered (names : Table String String) (low high : Nat) : Prop where
  made : ∀ x a, names.find? x = some a → ∃ n, low < n ∧ n ≤ high ∧ a = madeName x n
  apart : ∀ x y a, names.find? x = some a → names.find? y = some a → x = y

theorem numbered_empty (low : Nat) : Numbered {} low low := ⟨nofun, nofun⟩

theorem Numbered.mono {names : Table String String} {low high high' : Nat} (h : Numbered names low high)
    (hle : high ≤ high') : Numbered names low high' := by
  refine ⟨?_, h.apart⟩
  intro x a hx
  obtain ⟨n, hlow, hhigh, ha⟩ := h.made x a hx
  exact ⟨n, hlow, Nat.le_trans hhigh hle, ha⟩

/-- A name made from the next number is like no other. -/
theorem Numbered.insert {names : Table String String} {low high : Nat} (h : Numbered names low high)
    (hle : low ≤ high) (x : String) : Numbered (names.insert x (madeName x (high + 1))) low (high + 1) := by
  have hnew : ∀ y, names.find? y ≠ some (madeName x (high + 1)) := by
    intro y hy
    obtain ⟨n, -, hn, hmade⟩ := h.made y _ hy
    have := madeName_number hmade
    omega
  refine ⟨?_, ?_⟩
  · intro y a hy
    rw [Table.find?_insert] at hy
    split at hy
    · rename_i hxy
      cases hy
      exact ⟨high + 1, by omega, le_refl _, by rw [hxy]⟩
    · exact (h.mono (Nat.le_succ high)).made y a hy
  · intro y z a hy hz
    rw [Table.find?_insert] at hy hz
    split at hy <;> split at hz
    · rename_i hxy hxz
      rw [← hxy, hxz]
    · cases hy
      exact absurd hz (hnew z)
    · cases hz
      exact absurd hy (hnew y)
    · exact h.apart y z a hy hz

/-! ### Settling names -/

/-- Some symbols have been met: those that end in `#` are in the table, which has kept its names, and nothing
else has changed but the counter and the record of names. -/
structure Settles (names : List String) (s t : FormState) : Prop where
  same : t =
    { s with
      world := { s.world with counter := t.world.counter, given := t.world.given }
      templates := t.templates }
  counter_le : s.world.counter ≤ t.world.counter
  keeps : ∀ x a, (tableOf s).find? x = some a → (tableOf t).find? x = some a
  named : ∀ x ∈ names, isTemporary x = true → ∃ a, (tableOf t).find? x = some a
  numbered : ∀ low ≤ s.world.counter, Numbered (tableOf s) low s.world.counter →
    Numbered (tableOf t) low t.world.counter

/-- The filling gives every symbol its name: what the table says, or else the name it has in the namespace. -/
structure Reads (f : Filling) (s : FormState) : Prop where
  made : ∀ x a, isTemporary x = true → (tableOf s).find? x = some a → f.name x = a
  settled : ∀ x, isTemporary x = false → f.name x = settledName s.world x

section Settles

variable {s t u : FormState} {xs ys : List String} {f : Filling}

theorem Settles.refl (s : FormState) : Settles [] s s :=
  ⟨rfl, le_refl _, fun _ _ h => h, nofun, fun _ _ h => h⟩

theorem Settles.trans (h : Settles xs s t) (h' : Settles ys t u) : Settles (xs ++ ys) s u := by
  refine ⟨?_, Nat.le_trans h.counter_le h'.counter_le, fun x a hx => h'.keeps x a (h.keeps x a hx), ?_, ?_⟩
  · rw [h'.same, h.same]
  · intro x hx hsharp
    rcases List.mem_append.mp hx with hx | hx
    · obtain ⟨a, ha⟩ := h.named x hx hsharp
      exact ⟨a, h'.keeps x a ha⟩
    · exact h'.named x hx hsharp
  · intro low hlow hs
    exact h'.numbered low (Nat.le_trans hlow h.counter_le) (h.numbered low hlow hs)

/-- What reads the names of a state reads those of an earlier one. -/
theorem Settles.reads (h : Settles xs s t) (hf : Reads f t) : Reads f s := by
  refine ⟨fun x a hsharp ha => hf.made x a hsharp (h.keeps x a ha), ?_⟩
  intro x hplain
  rw [hf.settled x hplain, h.same]
  rfl

/-- A name is drawn for every symbol met, and put into the table if the symbol is not there. -/
theorem templateName_run {name made : String} (hrun : templateName name s = .ok made t) :
    t =
        { s with
          world := { s.world with counter := s.world.counter + 1, given := s.world.given.push made }
          templates := t.templates } ∧
      ((tableOf s).find? name = some made ∧ tableOf t = tableOf s ∨
        (tableOf s).find? name = none ∧ made = madeName name (s.world.counter + 1) ∧
          tableOf t = (tableOf s).insert name made) := by
  obtain ⟨n, s₁, h₁, hrun⟩ := State.ok_of_bind hrun
  cases h₁
  obtain ⟨s₁, s₂, h₂, hrun⟩ := State.ok_of_bind hrun
  cases h₂
  cases htemplates : s.templates with
  | nil =>
    simp only [htemplates] at hrun
    cases hrun
  | cons names rest =>
    have htable : tableOf s = names := by rw [tableOf, htemplates, List.headD_cons]
    simp only [htemplates] at hrun
    rw [htable]
    cases hfound : names.find? name with
    | some a =>
      simp only [hfound] at hrun
      cases hrun
      exact ⟨rfl, .inl ⟨rfl, rfl⟩⟩
    | none =>
      simp only [hfound] at hrun
      cases hrun
      exact ⟨rfl, .inr ⟨rfl, rfl, rfl⟩⟩

theorem templateName_settles {name made : String} (hsharp : isTemporary name = true)
    (hrun : templateName name s = .ok made t) :
    Settles [name] s t ∧ ∀ f, Reads f t → made = f.name name := by
  obtain ⟨hsame, hcases⟩ := templateName_run hrun
  have hcounter : t.world.counter = s.world.counter + 1 := by rw [hsame]
  have hentry : (tableOf t).find? name = some made := by
    rcases hcases with ⟨hfound, htable⟩ | ⟨-, -, htable⟩
    · rw [htable, hfound]
    · rw [htable, Table.find?_insert, if_pos rfl]
  have hgiven : t.world.given = s.world.given.push made := by rw [hsame]
  refine ⟨⟨by rw [hcounter, hgiven]; exact hsame, by omega, ?_, ?_, ?_⟩,
    fun f hf => (hf.made name made hsharp hentry).symm⟩
  · intro x a hx
    rcases hcases with ⟨-, htable⟩ | ⟨hnone, -, htable⟩
    · rw [htable, hx]
    · have hne : name ≠ x := by
        rintro rfl
        rw [hnone] at hx
        cases hx
      rw [htable, Table.find?_insert, if_neg hne, hx]
  · intro x hx _
    rw [List.mem_singleton.mp hx]
    exact ⟨made, hentry⟩
  · intro low hlow hnumbered
    rw [hcounter]
    rcases hcases with ⟨-, htable⟩ | ⟨-, hmade, htable⟩
    · rw [htable]
      exact hnumbered.mono (Nat.le_succ _)
    · rw [htable, hmade]
      exact hnumbered.insert hlow name

/-- A symbol that is qualified is met, and gets the name that reading the state gives it. -/
theorem qualify_settles {name made : String} (hrun : qualify name s = .ok made t) :
    Settles [name] s t ∧ ∀ f, Reads f t → made = f.name name := by
  unfold qualify at hrun
  split at hrun
  · rename_i hsharp
    exact templateName_settles hsharp hrun
  · rename_i hplain
    rw [Bool.not_eq_true] at hplain
    have hsettled : t = s ∧ made = settledName s.world name := by
      unfold settledName
      split at hrun <;> cases hrun
      · rename_i hkept
        exact ⟨rfl, (if_pos hkept).symm⟩
      · rename_i hkept
        exact ⟨rfl, (if_neg hkept).symm⟩
    obtain ⟨rfl, rfl⟩ := hsettled
    refine ⟨⟨rfl, Nat.le_refl _, fun _ _ h => h, ?_, fun _ _ h => h⟩, fun f hf => (hf.settled name hplain).symm⟩
    intro x hx hsharp
    rw [List.mem_singleton.mp hx, hplain] at hsharp
    cases hsharp

/-! ### Templates without unquoted parts -/

mutual
/-- A template without unquoted parts is filled to what its qualified form denotes. -/
theorem qualifyDatum_settles [Libraries] (d : Datum) (hd : hasUnquote d = false) {e : Datum} {s t : FormState}
    (hrun : qualifyDatum d s = .ok e t) :
    Settles (symbolsOf d) s t ∧ ∀ f, Reads f t → fill? f d = some (e.toValue, false) := by
  match d with
  | .atom a i =>
    cases a with
    | symbol name =>
      obtain ⟨made, s₁, h₁, hrun⟩ := State.ok_of_bind hrun
      cases hrun
      obtain ⟨hsettles, hreads⟩ := qualify_settles h₁
      refine ⟨hsettles, fun f hf => ?_⟩
      rw [fill?, ← hreads f hf]
      rfl
    | _ =>
      cases hrun
      exact ⟨.refl _, fun f _ => rfl⟩
  | .list items i =>
    rw [hasUnquote, Bool.or_eq_false_iff, Option.isSome_eq_false_iff, Option.isNone_iff_eq_none] at hd
    obtain ⟨es, s₁, h₁, hrun⟩ := State.ok_of_bind hrun
    cases hrun
    obtain ⟨hsettles, hreads⟩ := qualifyData_settles items hd.2 h₁
    refine ⟨by simpa [symbolsOf, hd.1] using hsettles, fun f hf => ?_⟩
    simp [fill?, hd.1, hreads f hf, Datum.toValue]
  | .vector items i =>
    obtain ⟨es, s₁, h₁, hrun⟩ := State.ok_of_bind hrun
    cases hrun
    obtain ⟨hsettles, hreads⟩ := qualifyData_settles items hd h₁
    exact ⟨hsettles, fun f hf => by simp [fill?, hreads f hf, Datum.toValue]⟩
  | .set items i =>
    obtain ⟨es, s₁, h₁, hrun⟩ := State.ok_of_bind hrun
    cases hrun
    obtain ⟨hsettles, hreads⟩ := qualifyData_settles items hd h₁
    exact ⟨hsettles, fun f hf => by simp [fill?, hreads f hf, Datum.toValue]⟩
  | .map entries i =>
    obtain ⟨es, s₁, h₁, hrun⟩ := State.ok_of_bind hrun
    cases hrun
    obtain ⟨hsettles, hreads⟩ := qualifyEntries_settles entries hd h₁
    exact ⟨hsettles, fun f hf => by simp [fill?, hreads f hf, Datum.toValue]⟩

theorem qualifyData_settles [Libraries] (ds : List Datum) (hds : anyUnquote ds = false) {es : List Datum}
    {s t : FormState}
    (hrun : qualifyData ds s = .ok es t) :
    Settles (symbolsOfAll ds) s t ∧ ∀ f, Reads f t → fillItems? f ds = some (Datum.toValues es) := by
  match ds with
  | [] =>
    cases hrun
    exact ⟨.refl _, fun f _ => rfl⟩
  | d :: ds =>
    rw [anyUnquote, Bool.or_eq_false_iff] at hds
    obtain ⟨e, s₁, h₁, hrun⟩ := State.ok_of_bind hrun
    obtain ⟨es', s₂, h₂, hrun⟩ := State.ok_of_bind hrun
    cases hrun
    obtain ⟨hsettles, hreads⟩ := qualifyDatum_settles d hds.1 h₁
    obtain ⟨hsettles', hreads'⟩ := qualifyData_settles ds hds.2 h₂
    refine ⟨hsettles.trans hsettles', fun f hf => ?_⟩
    simp [fillItems?, hreads f (hsettles'.reads hf), hreads' f hf, contribution?, Datum.toValues]

theorem qualifyEntries_settles [Libraries] (entries : List (Datum × Datum)) (hentries : entriesUnquote entries = false)
    {es : List (Datum × Datum)} {s t : FormState} (hrun : qualifyEntries entries s = .ok es t) :
    Settles (symbolsOfEntries entries) s t ∧
      ∀ f, Reads f t → fillEntries? f entries = some (Datum.toEntries es) := by
  match entries with
  | [] =>
    cases hrun
    exact ⟨.refl _, fun f _ => rfl⟩
  | (k, v) :: rest =>
    rw [entriesUnquote, Bool.or_eq_false_iff, Bool.or_eq_false_iff] at hentries
    obtain ⟨k', s₁, h₁, hrun⟩ := State.ok_of_bind hrun
    obtain ⟨v', s₂, h₂, hrun⟩ := State.ok_of_bind hrun
    obtain ⟨es', s₃, h₃, hrun⟩ := State.ok_of_bind hrun
    cases hrun
    obtain ⟨hk, hkreads⟩ := qualifyDatum_settles k hentries.1.1 h₁
    obtain ⟨hv, hvreads⟩ := qualifyDatum_settles v hentries.1.2 h₂
    obtain ⟨hrest, hrestreads⟩ := qualifyEntries_settles rest hentries.2 h₃
    refine ⟨(hk.trans hv).trans hrest, fun f hf => ?_⟩
    have hfv := hrest.reads hf
    simp [fillEntries?, hkreads f (hv.reads hfv), hvreads f hfv, hrestreads f hf, whole?, Datum.toEntries]
end

end Settles

/-! ### New names -/

/-- The symbols of a template that end in `#`. -/
def temporaries (d : Datum) : List String := (symbolsOf d).filter isTemporary

/-- Each symbol of a template that ends in `#` has a name made for it from a number above some bound, and no two
have the same. -/
structure Generated (d : Datum) (low : Nat) (names : String → String) : Prop where
  made : ∀ x ∈ temporaries d, ∃ n, low < n ∧ names x = madeName x n
  apart : ∀ x ∈ temporaries d, ∀ y ∈ temporaries d, names x = names y → x = y

/-- The name of a symbol: a new one, or the one it has in the namespace. -/
def nameIn (w : World) (names : String → String) (x : String) : String :=
  if isTemporary x then names x else settledName w x

/-- Once the symbols of a template are met, starting from an empty table, they have their names. -/
theorem exists_generated {d : Datum} {s t : FormState}
    (h : Settles (symbolsOf d) { s with templates := {} :: s.templates } t) :
    ∃ names, Generated d s.world.counter names ∧ ∀ value, Reads ⟨nameIn s.world names, value⟩ t := by
  have hnumbered := h.numbered s.world.counter (Nat.le_refl _) (numbered_empty _)
  have hfound : ∀ x ∈ temporaries d, ∃ a, (tableOf t).find? x = some a := by
    intro x hx
    rw [temporaries, List.mem_filter] at hx
    exact h.named x hx.1 hx.2
  refine ⟨fun x => ((tableOf t).find? x).getD x, ⟨?_, ?_⟩, fun value => ⟨?_, ?_⟩⟩
  · intro x hx
    obtain ⟨a, ha⟩ := hfound x hx
    obtain ⟨n, hn, -, hmade⟩ := hnumbered.made x a ha
    exact ⟨n, hn, by rw [ha, Option.getD_some, hmade]⟩
  · intro x hx y hy hxy
    obtain ⟨a, ha⟩ := hfound x hx
    obtain ⟨b, hb⟩ := hfound y hy
    simp only [ha, hb, Option.getD_some] at hxy
    exact hnumbered.apart x y a ha (hxy ▸ hb)
  · intro x a hsharp ha
    simp [nameIn, hsharp, ha]
  · intro x hplain
    rw [h.same]
    simp only [nameIn, hplain, Bool.false_eq_true, if_false]
    rfl

end Template

end LispMachine
