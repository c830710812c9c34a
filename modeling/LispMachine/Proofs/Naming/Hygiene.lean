import Mathlib.Data.List.Forall2
import Mathlib.Data.List.Pairwise
import LispMachine.Form.Methods
import LispMachine.Proofs.Template.Naming

/-! # Names that are made up

Names are made up for calls of `gensym`, for temporaries of `and` and `or`, for symbols ending in `#` in templates,
and for the classes of functions, proxies and compiled forms.  All of them are glued from texts that may be
anything and a number of one counter.  A `Run` is any sequence of such events, with templates that are begun and
left in between, and its log tells which name was given for what.

Two entries of the log have the same name just if both are for the same symbol in the same template (`Hygienic`).
What carries this is `Sound`: the names given so far bear numbers up to the counter, and the table of each open
template holds what the log has for this template, no more and no less. -/

namespace LispMachine.Naming

open Form (ClassUse)
open Template (templateName madeName numbered toList_numbered numbered_number)

/-! ### The number in a name -/

/-- The name ends in the number, or in the number and the mark of names made in templates. -/
def Bears (name : String) (n : Nat) : Prop :=
  ∃ base, name = numbered base n ∨ name = numbered base n ++ "__auto__"

/-- A name that ends in a digit does not end in the mark. -/
theorem numbered_ne_marked (base base' : String) (m n : Nat) : numbered base m ≠ numbered base' n ++ "__auto__" := by
  intro h
  obtain ⟨c, hc⟩ : ∃ c, (Nat.toDigits 10 m).getLast? = some c :=
    ⟨_, List.getLast?_eq_some_getLast Nat.toDigits_ne_nil⟩
  have hdigit : c.isDigit = true :=
    Nat.isDigit_of_mem_toDigits (by decide) (by decide) (List.mem_of_getLast? hc)
  have hmark : "__auto__".toList.getLast? = some '_' := by decide
  have hlast := congrArg (fun name => name.toList.getLast?) h
  simp only [toList_numbered, String.toList_append, List.getLast?_append, hc, hmark, Option.some_or,
    Option.some.injEq] at hlast
  rw [hlast] at hdigit
  exact absurd hdigit (by decide)

theorem Bears.number_eq {name : String} {m n : Nat} (h : Bears name m) (h' : Bears name n) : m = n := by
  obtain ⟨base, rfl | rfl⟩ := h <;> obtain ⟨base', heq | heq⟩ := h'
  · exact numbered_number heq
  · exact absurd heq (numbered_ne_marked _ _ _ _)
  · exact absurd heq.symm (numbered_ne_marked _ _ _ _)
  · exact numbered_number ((String.append_left_inj _).mp heq)

/-! ### What names are given for -/

/-- What a name is given for. -/
inductive Purpose where
  /-- A call of `gensym`, or a temporary of `and` or `or`. -/
  | symbol
  /-- A symbol that ends in `#` in a template; templates are numbered as they are begun. -/
  | temporary (template : Nat) (symbol : String)
  | cls (use : ClassUse)
deriving DecidableEq

/-- A name and what it was given for. -/
structure Given where
  purpose : Purpose
  name : String
deriving DecidableEq

/-- Both are for one symbol in one template. -/
def Given.Alike (a b : Given) : Prop := ∃ i x, a.purpose = .temporary i x ∧ b.purpose = .temporary i x

/-- The two have one name just if they are for one symbol in one template. -/
def Given.Proper (a b : Given) : Prop := a.name = b.name ↔ a.Alike b

/-- Names are the same where they are for one symbol in one template, and nowhere else. -/
def Hygienic (log : List Given) : Prop := log.Pairwise Given.Proper

instance : Std.Symm Given.Proper where
  symm a b h := by
    have halike : a.Alike b ↔ b.Alike a := by
      constructor <;> exact fun ⟨i, x, ha, hb⟩ => ⟨i, x, hb, ha⟩
    exact eq_comm.trans (Iff.trans h halike)

theorem bears_stem (use : ClassUse) (space : String) (n : Nat) : Bears (use.stem space ++ toString n) n := by
  cases use with
  | eval => exact ⟨space ++ "$eval", .inl (by simp only [ClassUse.stem, numbered, String.append_assoc]; rfl)⟩
  | fn name => exact ⟨space ++ "$" ++ (name.map munge).getD "fn", .inl rfl⟩
  | proxy => exact ⟨space ++ "$proxy", .inl (by simp only [ClassUse.stem, numbered, String.append_assoc]; rfl)⟩

/-! ### Events -/

/-- A state of the work on forms, with the numbers of the open templates, the innermost first, and how many templates
have been begun. -/
structure Scene where
  state : FormState
  opened : List Nat
  begun : Nat

/-- Each open template has its table. -/
def Scene.Balanced (S : Scene) : Prop := S.opened.length = S.state.templates.length

/-- No number has been drawn, no name put on record, and no table has changed. -/
structure Aside (s t : FormState) : Prop where
  counter : t.world.counter = s.world.counter
  given : t.world.given = s.world.given
  templates : t.templates = s.templates

theorem Aside.refl (s : FormState) : Aside s s := ⟨rfl, rfl, rfl⟩

/-- The name that a generated class is given next. -/
def classNameIn (w : World) (use : ClassUse) : String := use.stem (munge w.current) ++ toString w.nextId.1

/-- One event, and the names given in it. -/
inductive Step : Scene → List Given → Scene → Prop
  /-- Anything that makes up no name. -/
  | aside {s t : FormState} {opened : List Nat} {begun : Nat} (h : Aside s t) :
    Step ⟨s, opened, begun⟩ [] ⟨t, opened, begun⟩
  /-- A name is drawn from the counter. -/
  | symbol (s : FormState) (opened : List Nat) (begun : Nat) (stem : String) :
    Step ⟨s, opened, begun⟩ [⟨.symbol, (s.world.gensym stem).1⟩]
      ⟨{ s with world := (s.world.gensym stem).2 }, opened, begun⟩
  /-- A class is named. -/
  | cls (s : FormState) (opened : List Nat) (begun : Nat) (use : ClassUse) :
    Step ⟨s, opened, begun⟩ [⟨.cls use, classNameIn s.world use⟩]
      ⟨{ s with world := s.world.nextId.2.note (classNameIn s.world use) }, opened, begun⟩
  /-- A template is begun. -/
  | enter (s : FormState) (opened : List Nat) (begun : Nat) :
    Step ⟨s, opened, begun⟩ [] ⟨{ s with templates := {} :: s.templates }, begun :: opened, begun + 1⟩
  /-- A symbol is met in the innermost template. -/
  | occurrence {s t : FormState} {x name : String} {i : Nat} {opened : List Nat} {begun : Nat}
    (h : templateName x s = .ok name t) :
    Step ⟨s, i :: opened, begun⟩ [⟨.temporary i x, name⟩] ⟨t, i :: opened, begun⟩
  /-- A symbol is met outside templates. -/
  | refused {s t : FormState} {x : String} {e : Fault} {opened : List Nat} {begun : Nat}
    (h : templateName x s = .error e t) :
    Step ⟨s, opened, begun⟩ [] ⟨t, opened, begun⟩
  /-- The innermost template is left. -/
  | leave (s : FormState) (i : Nat) (opened : List Nat) (begun : Nat) :
    Step ⟨s, i :: opened, begun⟩ [] ⟨{ s with templates := s.templates.drop 1 }, opened, begun⟩

/-- Any number of events, and all names given in them. -/
inductive Run : Scene → List Given → Scene → Prop
  | refl (S : Scene) : Run S [] S
  | tail {S T U : Scene} {log new : List Given} (h : Run S log T) (hstep : Step T new U) : Run S (log ++ new) U

section Runs

variable {S T U : Scene} {log log' new : List Given}

theorem Run.single (h : Step S log T) : Run S log T := (Run.refl S).tail h

theorem Run.trans (h : Run S log T) (h' : Run T log' U) : Run S (log ++ log') U := by
  induction h' with
  | refl => rwa [List.append_nil]
  | tail _ hstep ih =>
    rw [← List.append_assoc]
    exact ih.tail hstep

end Runs

/-! ### Names in a template -/

section Templates

variable {x name : String} {s t : FormState} {e : Fault}

/-- A symbol that is met draws a number, and has the name in the table or gets a new one; the name is put on record. -/
theorem templateName_ok (hrun : templateName x s = .ok name t) : t.world.counter = s.world.counter + 1 ∧
    t.world.given = s.world.given.push name ∧ ∃ names rest, s.templates = names :: rest ∧
      (names.find? x = some name ∧ t.templates = s.templates ∨
        names.find? x = none ∧ name = madeName x t.world.counter ∧ t.templates = names.insert x name :: rest) := by
  obtain ⟨n, s₁, h₁, hrun⟩ := State.ok_of_bind hrun
  cases h₁
  obtain ⟨s₁, s₂, h₂, hrun⟩ := State.ok_of_bind hrun
  cases h₂
  cases htemplates : s.templates with
  | nil =>
    simp only [htemplates] at hrun
    cases hrun
  | cons names rest =>
    simp only [htemplates] at hrun
    cases hfound : names.find? x with
    | some made =>
      simp only [hfound] at hrun
      cases hrun
      exact ⟨rfl, rfl, names, rest, rfl, .inl ⟨hfound, rfl⟩⟩
    | none =>
      simp only [hfound] at hrun
      cases hrun
      exact ⟨rfl, rfl, names, rest, rfl, .inr ⟨hfound, rfl, rfl⟩⟩

theorem templateName_error (hrun : templateName x s = .error e t) :
    t = { s with world := { s.world with counter := s.world.counter + 1 } } := by
  rcases State.error_of_bind hrun with h₁ | ⟨n, s₁, h₁, hrun⟩
  · cases h₁
  · cases h₁
    rcases State.error_of_bind hrun with h₂ | ⟨s₁, s₂, h₂, hrun⟩
    · cases h₂
    · cases h₂
      cases htemplates : s.templates with
      | nil =>
        simp only [htemplates] at hrun
        cases hrun
        rfl
      | cons names rest =>
        simp only [htemplates] at hrun
        cases hfound : names.find? x <;> simp only [hfound] at hrun <;> cases hrun

end Templates

/-! ### What events preserve -/

/-- The table of a template holds what the log has for it. -/
def Agrees (log : List Given) (i : Nat) (names : Table String String) : Prop :=
  ∀ x a, names.find? x = some a ↔ ⟨.temporary i x, a⟩ ∈ log

/-- What holds of a scene and the names given up to it. -/
structure Sound (S : Scene) (log : List Given) : Prop where
  hygienic : Hygienic log
  numbered : ∀ g ∈ log, ∃ n, n ≤ S.state.world.counter ∧ Bears g.name n
  begun : ∀ g ∈ log, ∀ i x, g.purpose = .temporary i x → i < S.begun
  opened : ∀ i ∈ S.opened, i < S.begun
  nodup : S.opened.Nodup
  tables : List.Forall₂ (Agrees log) S.opened S.state.templates

section Soundness

variable {S T : Scene} {log new : List Given} {g : Given} {s t : FormState} {opened : List Nat} {begun : Nat}

theorem Sound.balanced (h : Sound S log) : S.Balanced := h.tables.length_eq

/-- Tables of other templates are not concerned by new names. -/
theorem tables_append {tables : List (Table String String)} (h : List.Forall₂ (Agrees log) opened tables)
    (hnew : ∀ i ∈ opened, ∀ g ∈ new, ∀ x, g.purpose ≠ .temporary i x) :
    List.Forall₂ (Agrees (log ++ new)) opened tables := by
  induction h with
  | nil => exact .nil
  | @cons i names opened tables hagrees _ ih =>
    refine .cons (fun x a => ?_) (ih fun j hj => hnew j (List.mem_cons_of_mem _ hj))
    rw [hagrees x a, List.mem_append]
    exact ⟨.inl, fun hmem => hmem.resolve_right fun hin => hnew i List.mem_cons_self _ hin x rfl⟩

/-- A name with a number beyond the counter is like no name given before. -/
theorem Sound.fresh (h : Sound S log) {name : String} {n : Nat} (hbears : Bears name n)
    (hn : S.state.world.counter < n) : ∀ a ∈ log, a.name ≠ name := by
  rintro a ha rfl
  obtain ⟨m, hm, hbears'⟩ := h.numbered a ha
  have := hbears.number_eq hbears'
  omega

theorem Hygienic.append_one (h : Hygienic log) (hg : ∀ a ∈ log, a.Proper g) : Hygienic (log ++ [g]) := by
  refine List.pairwise_append.mpr ⟨h, List.pairwise_singleton _ _, fun a ha b hb => ?_⟩
  rw [List.mem_singleton.mp hb]
  exact hg a ha

/-- Nothing that makes up a name matters. -/
theorem Sound.aside (h : Sound ⟨s, opened, begun⟩ log) (hcounter : s.world.counter ≤ t.world.counter)
    (htemplates : t.templates = s.templates) : Sound ⟨t, opened, begun⟩ log where
  hygienic := h.hygienic
  numbered g hg := by
    obtain ⟨n, hn, hbears⟩ := h.numbered g hg
    exact ⟨n, Nat.le_trans hn hcounter, hbears⟩
  begun := h.begun
  opened := h.opened
  nodup := h.nodup
  tables := by
    rw [htemplates]
    exact h.tables

/-- The next number makes a new name outside templates. -/
theorem Sound.draw (h : Sound ⟨s, opened, begun⟩ log) {name : String} {purpose : Purpose}
    (hpurpose : ∀ i x, purpose ≠ .temporary i x) (hbears : Bears name t.world.counter)
    (hcounter : t.world.counter = s.world.counter + 1) (htemplates : t.templates = s.templates) :
    Sound ⟨t, opened, begun⟩ (log ++ [⟨purpose, name⟩]) := by
  have hlt : s.world.counter < t.world.counter := by omega
  have hkept := h.aside (t := t) (Nat.le_of_lt hlt) htemplates
  refine { hkept with hygienic := h.hygienic.append_one fun a ha => ?_, numbered := ?_, begun := ?_, tables := ?_ }
  · refine ⟨fun heq => absurd heq (h.fresh hbears hlt a ha), ?_⟩
    rintro ⟨i, x, -, hx⟩
    exact absurd hx (hpurpose i x)
  · intro g hg
    rcases List.mem_append.mp hg with hg | hg
    · exact hkept.numbered g hg
    · rw [List.mem_singleton.mp hg]
      exact ⟨_, Nat.le_refl _, hbears⟩
  · intro g hg i x hx
    rcases List.mem_append.mp hg with hg | hg
    · exact h.begun g hg i x hx
    · rw [List.mem_singleton.mp hg] at hx
      exact absurd hx (hpurpose i x)
  · refine tables_append hkept.tables fun i _ g hg x => ?_
    rw [List.mem_singleton.mp hg]
    exact hpurpose i x

/-- A symbol that is met again has the name it had. -/
theorem Sound.again (h : Sound ⟨s, opened, begun⟩ log) (hin : g ∈ log) {i : Nat} {x : String}
    (hg : g.purpose = .temporary i x) : Sound ⟨s, opened, begun⟩ (log ++ [g]) := by
  have hmem : ∀ a, a ∈ log ++ [g] ↔ a ∈ log := by
    intro a
    rw [List.mem_append, List.mem_singleton, or_iff_left_iff_imp]
    rintro rfl
    exact hin
  refine { h with
    hygienic := h.hygienic.append_one fun a ha => ?_
    numbered := fun a ha => h.numbered a ((hmem a).mp ha)
    begun := fun a ha => h.begun a ((hmem a).mp ha)
    tables := h.tables.imp fun j names hagrees y a => (hagrees y a).trans (hmem _).symm }
  by_cases heq : a = g
  · rw [heq]
    exact ⟨fun _ => ⟨i, x, hg, hg⟩, fun _ => rfl⟩
  · exact List.Pairwise.forall h.hygienic ha hin heq

/-- A symbol that is met for the first time gets a new name. -/
theorem Sound.first {i : Nat} {names : Table String String} {rest : List (Table String String)} {x : String}
    (h : Sound ⟨s, i :: opened, begun⟩ log) (hs : s.templates = names :: rest) (hnone : names.find? x = none)
    (hcounter : t.world.counter = s.world.counter + 1)
    (ht : t.templates = names.insert x (madeName x t.world.counter) :: rest) :
    Sound ⟨t, i :: opened, begun⟩ (log ++ [⟨.temporary i x, madeName x t.world.counter⟩]) := by
  have hlt : s.world.counter < t.world.counter := by omega
  have hbears : Bears (madeName x t.world.counter) t.world.counter := ⟨_, .inr rfl⟩
  have htables := h.tables
  rw [hs] at htables
  obtain ⟨hagrees, hothers⟩ := List.forall₂_cons.mp htables
  refine ⟨h.hygienic.append_one fun a ha => ⟨fun heq => absurd heq (h.fresh hbears hlt a ha), ?_⟩, ?_, ?_, h.opened,
    h.nodup, ?_⟩
  · rintro ⟨j, y, hj, ⟨⟩⟩
    have hfound := (hagrees x a.name).mpr (by rw [← hj]; exact ha)
    rw [hnone] at hfound
    cases hfound
  · intro g hg
    rcases List.mem_append.mp hg with hg | hg
    · obtain ⟨n, hn, hbears'⟩ := h.numbered g hg
      exact ⟨n, Nat.le_trans hn (Nat.le_of_lt hlt), hbears'⟩
    · rw [List.mem_singleton.mp hg]
      exact ⟨_, Nat.le_refl _, hbears⟩
  · intro g hg j y hy
    rcases List.mem_append.mp hg with hg | hg
    · exact h.begun g hg j y hy
    · rw [List.mem_singleton.mp hg] at hy
      cases hy
      exact h.opened i List.mem_cons_self
  · change List.Forall₂ _ _ t.templates
    rw [ht]
    refine .cons (fun y a => ?_) (tables_append hothers fun j hj g hg y => ?_)
    · rw [Table.find?_insert, List.mem_append, List.mem_singleton, ← hagrees y a]
      split
      · rename_i hxy
        subst hxy
        simp [hnone, eq_comm]
      · rename_i hxy
        simp [Ne.symm hxy]
    · rw [List.mem_singleton.mp hg]
      rintro ⟨⟩
      exact (List.nodup_cons.mp h.nodup).1 hj

/-- The names given in an event are put on record. -/
theorem Step.given (h : Step S new T) :
    T.state.world.given.toList = S.state.world.given.toList ++ new.map Given.name := by
  cases h with
  | aside h => simp [h.given]
  | symbol s opened begun stem => simp [World.gensym, World.note, World.nextId]
  | cls s opened begun use => simp [World.note, World.nextId]
  | enter | leave => simp
  | occurrence h => simp [(templateName_ok h).2.1]
  | refused h =>
    obtain rfl := templateName_error h
    simp

/-- The log of a run has just the names that were put on record in it, in their order. -/
theorem Run.given (h : Run S log T) :
    T.state.world.given.toList = S.state.world.given.toList ++ log.map Given.name := by
  induction h with
  | refl => simp
  | tail _ hstep ih => rw [hstep.given, ih, List.map_append, List.append_assoc]

/-- Every event preserves soundness. -/
theorem Sound.step (h : Sound S log) (hstep : Step S new T) : Sound T (log ++ new) := by
  cases hstep with
  | aside haside =>
    rw [List.append_nil]
    exact h.aside (Nat.le_of_eq haside.counter.symm) haside.templates
  | symbol s opened begun stem => exact h.draw nofun ⟨stem, .inl rfl⟩ rfl rfl
  | cls s opened begun use => exact h.draw nofun (bears_stem use _ _) rfl rfl
  | enter s opened begun =>
    rw [List.append_nil]
    refine { h with begun := ?_, opened := ?_, nodup := ?_, tables := .cons ?_ h.tables }
    · exact fun g hg i x hx => Nat.lt_succ_of_lt (h.begun g hg i x hx)
    · intro i hi
      rcases List.mem_cons.mp hi with rfl | hi
      · exact Nat.lt_succ_self _
      · exact Nat.lt_succ_of_lt (h.opened i hi)
    · exact List.nodup_cons.mpr ⟨fun hin => Nat.lt_irrefl _ (h.opened begun hin), h.nodup⟩
    · exact fun x a => ⟨nofun, fun hin => absurd (h.begun _ hin begun x rfl) (Nat.lt_irrefl _)⟩
  | @occurrence s t x name i opened begun hrun =>
    obtain ⟨hcounter, -, names, rest, hs, ⟨hfound, ht⟩ | ⟨hnone, rfl, ht⟩⟩ := templateName_ok hrun
    · have htables := h.tables
      rw [hs] at htables
      have hin := ((List.forall₂_cons.mp htables).1 x name).mp hfound
      exact (h.aside (by omega) ht).again hin rfl
    · exact h.first hs hnone hcounter ht
  | refused hrun =>
    obtain rfl := templateName_error hrun
    rw [List.append_nil]
    exact h.aside (Nat.le_succ _) rfl
  | leave s i opened begun =>
    rw [List.append_nil]
    have htables : List.Forall₂ (Agrees log) opened (s.templates.drop 1) := by
      cases htemplates : s.templates with
      | nil =>
        have hempty := h.tables
        rw [htemplates] at hempty
        cases hempty
      | cons names rest =>
        have hall := h.tables
        rw [htemplates] at hall
        exact (List.forall₂_cons.mp hall).2
    exact { h with
      opened := fun j hj => h.opened j (List.mem_cons_of_mem _ hj)
      nodup := (List.nodup_cons.mp h.nodup).2
      tables := htables }

/-- What holds of a scene and the names given up to it holds after a run, with the names given in it. -/
theorem Run.sound (hrun : Run S new T) (h : Sound S log) : Sound T (log ++ new) := by
  induction hrun with
  | refl =>
    rw [List.append_nil]
    exact h
  | tail _ hstep ih =>
    rw [← List.append_assoc]
    exact ih.step hstep

/-- Outside templates, nothing has to hold of names given before. -/
theorem Run.sound_start {s : FormState} {begun : Nat} (hrun : Run ⟨s, [], begun⟩ log T) (hs : s.templates = []) :
    Sound T log :=
  hrun.sound ⟨.nil, nofun, nofun, nofun, .nil, by rw [hs]; exact .nil⟩

end Soundness

end LispMachine.Naming
