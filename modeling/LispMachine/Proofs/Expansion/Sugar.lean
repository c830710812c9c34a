import LispMachine.Form.Expansion
import LispMachine.Libraries.Standard
import LispMachine.Proofs.Datum.Shape
import LispMachine.Proofs.Emission.View

/-! # Expansion without expanders comes to an end

Where no name stands for an expander, a form is rewritten only for its head: a derived form, or a shorthand for a
member of a class.  The form may get larger by a step, and threading brings any form into head position.  What a
step does not do is to leave the number of shorthands as it was and give a form that can be rewritten once more:
either there are fewer of them, or the new head is that of a special form (`expandOnce_run`).  So there are no more
steps than shorthands, and where expansion stops nothing is left to rewrite (`expand_within_shorthands`). -/

namespace LispMachine.Expansion

open Datum Emission

/-! ### Shorthands -/

/-- The head of a derived form, or a shorthand for a member of a class: `.m`, `C.`, or `C/m` for a class `C`. -/
def isShorthand (w : World) (name : String) : Bool :=
  derivedForms.contains name || (memberName? name).isSome || (constructedName? name).isSome ||
    ((splitQualified name).1.bind w.resolveClass?).isSome

/-- A symbol that is a shorthand. -/
def isShorthandAtom (w : World) : Atom → Bool
  | .symbol name => isShorthand w name
  | _ => false

/-- How often shorthands are written in a datum. -/
def shorthands (w : World) (d : Datum) : Nat := d.atoms.countP (isShorthandAtom w)

def shorthandsOfAll (w : World) (ds : List Datum) : Nat := (atomsOfAll ds).countP (isShorthandAtom w)

section Counting

variable (w : World) (d : Datum) (ds : List Datum)

@[simp] theorem shorthands_list (i : Info) : shorthands w (.list ds i) = shorthandsOfAll w ds := by
  rw [shorthands, atoms, shorthandsOfAll]

@[simp] theorem shorthandsOfAll_nil : shorthandsOfAll w [] = 0 := rfl

@[simp] theorem shorthandsOfAll_cons : shorthandsOfAll w (d :: ds) = shorthands w d + shorthandsOfAll w ds := by
  rw [shorthandsOfAll, atomsOfAll, List.countP_append, shorthands, shorthandsOfAll]

@[simp] theorem shorthandsOfAll_append (ds' : List Datum) :
    shorthandsOfAll w (ds ++ ds') = shorthandsOfAll w ds + shorthandsOfAll w ds' := by
  induction ds with
  | nil => simp
  | cons d ds ih => simp [ih, Nat.add_assoc]

theorem shorthands_symbol {w : World} {name : String} (h : isShorthand w name = true) (i : Info) :
    shorthands w (.atom (.symbol name) i) = 1 := by
  simp [shorthands, atoms, isShorthandAtom, h]

/-- Data of one shape have the same shorthands. -/
theorem shorthands_of_sameShape {d e : Datum} (h : d.sameShape e = true) : shorthands w d = shorthands w e := by
  have hatoms {xs ys : List Atom} (h : SameAtoms xs ys) :
      xs.countP (isShorthandAtom w) = ys.countP (isShorthandAtom w) := by
    induction h with
    | nil => rfl
    | @cons a b xs ys hab _ ih =>
      have hsame : isShorthandAtom w a = isShorthandAtom w b := by
        rcases Atom.eq_of_same hab with rfl | ⟨x, y, rfl, rfl, -⟩ <;> rfl
      rw [List.countP_cons, List.countP_cons, hsame, ih]
  exact hatoms (forall₂_atoms d e h)

end Counting

/-- A form that is not rewritten for its head, whatever the classes are. -/
def Settled (d : Datum) : Prop := ∀ name, d.head? = some name → ∀ w, isShorthand w name = false

/-- The heads that rewriting gives. -/
def settledHeads : List String := ["if", "let", "def", ".", "new"]

theorem settled_formOf {head : String} (hhead : head ∈ settledHeads) (args : List Datum) (span : Span) :
    Settled (formOf head args span) := by
  intro name hname w
  have hname' : head = name := Option.some.inj hname
  subst hname'
  have hplain : head ∉ derivedForms ∧ (memberName? head).isSome = false ∧
      (constructedName? head).isSome = false ∧ (splitQualified head).1 = none := by
    simp only [settledHeads, List.mem_cons, List.not_mem_nil, or_false] at hhead
    rcases hhead with rfl | rfl | rfl | rfl | rfl <;> decide +kernel
  simp [isShorthand, hplain.1, hplain.2.1, hplain.2.2.1, hplain.2.2.2]

theorem settled_atom (a : Atom) (span : Span) : Settled (.ofAtom a span) := fun _ hname => by cases hname

theorem isShorthand_derived {head : String} (h : head ∈ derivedForms) (w : World) : isShorthand w head = true := by
  simp [isShorthand, h]

/-! ### Rewriting -/

/-- An error about how a form is written. -/
def IsReading (e : Error) : Prop := ∃ message, e.cause = .failure .reading message

theorem isReading_readingError (d : Datum) (message : String) : IsReading (d.readingError message) :=
  ⟨message, rfl⟩

section Rules

variable {head : String} {args : List Datum} {d e : Datum}

/-- What a rule gives is settled, or the rule complains about how the form is written. -/
inductive Settles : Except Error Datum → Prop where
  | ok {e : Datum} (h : Settled e) : Settles (.ok e)
  | error {e : Error} (h : IsReading e) : Settles (.error e)

theorem settles_whenForm (head : String) (args : List Datum) (d : Datum) : Settles (whenForm head args d) := by
  unfold whenForm
  split
  · exact .error (isReading_readingError ..)
  · dsimp only
    split
    · exact .ok (settled_formOf (by decide) _ _)
    · exact .ok (settled_formOf (by decide) _ _)

theorem settles_ifNotForm (args : List Datum) (d : Datum) : Settles (ifNotForm args d) := by
  unfold ifNotForm
  split
  · exact .ok (settled_formOf (by decide) _ _)
  · exact .ok (settled_formOf (by decide) _ _)
  · exact .error (isReading_readingError ..)

theorem settles_condForm (args : List Datum) (d : Datum) : Settles (condForm args d) := by
  unfold condForm
  split
  · unfold condClauses
    split
    · exact .ok (settled_formOf (by decide) _ _)
    · exact .ok (settled_atom _ _)
  · exact .error (isReading_readingError ..)

theorem settles_defnForm (isPrivate : Bool) (args : List Datum) (d : Datum) :
    Settles (defnForm isPrivate args d) := by
  unfold defnForm
  split
  · exact .error (isReading_readingError ..)
  · split
    · exact .error (isReading_readingError ..)
    · split
      · exact .error (isReading_readingError ..)
      · exact .ok (settled_formOf (by decide) _ _)

/-- A form goes into a step with all that is written in either. -/
theorem shorthands_threadStep (w : World) (last : Bool) (acc step : Datum) :
    shorthands w (threadStep last acc step) = shorthands w acc + shorthands w step := by
  unfold threadStep
  split
  · rename_i head args hitems
    cases step with
    | list items i =>
      obtain rfl := Option.some.inj hitems
      cases last <;> simp [ofList] <;> omega
    | _ => cases hitems
  · simp [ofList]
    omega

theorem shorthands_thread (w : World) (last : Bool) (init : Datum) (steps : List Datum) :
    shorthands w (steps.foldl (threadStep last) init) = shorthands w init + shorthandsOfAll w steps := by
  induction steps generalizing init with
  | nil => simp
  | cons step steps ih =>
    rw [List.foldl_cons, ih, shorthands_threadStep, shorthandsOfAll_cons, Nat.add_assoc]

/-- Threading gives all that is written behind its head. -/
theorem threadForm_run (last : Bool) (args : List Datum) (d : Datum) :
    match threadForm last args d with
    | .ok e => ∀ w, shorthands w e = shorthandsOfAll w args
    | .error e => IsReading e := by
  unfold threadForm
  split
  · rename_i e heq
    split at heq
    · cases heq
    · rename_i init steps
      cases heq
      intro w
      rw [shorthands_thread, shorthandsOfAll_cons]
  · rename_i e heq
    split at heq
    · cases heq
      exact isReading_readingError ..
    · cases heq

/-- Shorthands for members become special forms. -/
theorem memberForm_run (w : World) (head : String) (args : List Datum) (d : Datum) :
    match memberForm w head args d with
    | .ok (some e) => isShorthand w head = true ∧ Settled e
    | .ok none => True
    | .error e => IsReading e := by
  unfold memberForm
  cases hmember : memberName? head with
  | some member =>
    cases args with
    | nil => exact isReading_readingError ..
    | cons target rest => exact ⟨by simp [isShorthand, hmember], settled_formOf (by decide) _ _⟩
  | none =>
    cases hconstructed : constructedName? head with
    | some cls => exact ⟨by simp [isShorthand, hconstructed], settled_formOf (by decide) _ _⟩
    | none =>
      cases hsplit : splitQualified head with
      | mk qualifier member =>
        cases qualifier with
        | none => trivial
        | some q =>
          cases hclass : w.resolveClass? q with
          | some c =>
            simp only [hclass, Option.isSome_some, if_true]
            exact ⟨by simp [isShorthand, hsplit, hclass], settled_formOf (by decide) _ _⟩
          | none =>
            simp only [hclass, Option.isSome_none, Bool.false_eq_true, if_false]

end Rules

/-! ### Steps -/

/-- A state in which no name stands for an expander. -/
def NoExpanders (s : FormState) : Prop :=
  ∀ name v, s.scopes.lookup s.world name s.methods.length = .ok (some (.var v)) →
    (s.world.flagsOf v).isExpander = false

/-- The same state, but for names that have been given out. -/
def Renumbered (s t : FormState) : Prop :=
  ∃ n given, t = { s with world := { s.world with counter := n, given := given } }

theorem Renumbered.refl (s : FormState) : Renumbered s s := ⟨s.world.counter, s.world.given, rfl⟩

theorem NoExpanders.renumbered {s t : FormState} (hs : NoExpanders s) (h : Renumbered s t) : NoExpanders t := by
  obtain ⟨n, given, rfl⟩ := h
  exact hs

/-- What one step makes of a form: nothing, a form with fewer shorthands, a settled form, or an error of the
form or of a name.  A form is rewritten for its head only. -/
inductive Outcome (s : FormState) (d : Datum) : EStateM.Result Fault FormState (Option Datum) → Prop where
  | stays : Outcome s d (.ok none s)
  | fewer {next : Datum} {head : String} (hhead : d.head? = some head) (h : isShorthand s.world head = true)
      (hnext : shorthands s.world next < shorthands s.world d) : Outcome s d (.ok (some next) s)
  | settles {next : Datum} {t : FormState} {head : String} (hhead : d.head? = some head)
      (h : isShorthand s.world head = true) (hnext : Settled next) (ht : Renumbered s t) :
      Outcome s d (.ok (some next) t)
  | fails {e : Error} (h : e.span = none ∨ IsReading e) : Outcome s d (.error (.error e) s)

section Steps

variable {s t : FormState} {d : Datum} {head : String}

theorem list_of_head? (h : d.head? = some head) : ∃ j args i, d = .list (.atom (.symbol head) j :: args) i := by
  cases d with
  | list items i =>
    cases items with
    | nil => cases h
    | cons first args =>
      have hfirst : first.symbol? = some head := h
      unfold symbol? at hfirst
      split at hfirst
      · obtain rfl := Option.some.inj hfirst
        exact ⟨_, args, i, rfl⟩
      · cases hfirst
  | _ => cases h

/-- The head of a form that is rewritten counts. -/
theorem shorthands_headed (h : isShorthand s.world head = true) (j : Info) (args : List Datum) (i : Info) :
    shorthands s.world (.list (.atom (.symbol head) j :: args) i) = 1 + shorthandsOfAll s.world args := by
  rw [shorthands_list, shorthandsOfAll_cons, shorthands_symbol h]

/-- A rule that gives a settled form. -/
theorem outcome_settles {r : Except Error Datum} (hr : Settles r) (hhead : d.head? = some head)
    (h : isShorthand s.world head = true) :
    Outcome s d ((do return some (← FormM.ofExcept r) : FormM (Option Datum)) s) := by
  cases hr with
  | ok hnext => exact .settles hhead h hnext (.refl s)
  | error herror => exact .fails (.inr herror)

theorem gensym_run (stem : String) (s : FormState) : ∃ name t, gensym stem s = .ok name t ∧ Renumbered s t :=
  ⟨_, _, rfl, _, _, rfl⟩

section Headed

variable {args : List Datum} {i j : Info}

/-- A junction of one argument is that argument; of more, a binding of the first. -/
theorem outcome_junction (h : isShorthand s.world head = true) (op : String) (a : Atom)
    (hd : d = .list (.atom (.symbol head) j :: args) i) :
    Outcome s d ((do return some (← junction op (.ofAtom a d.span) args d) : FormM (Option Datum)) s) := by
  have hhead : d.head? = some head := by rw [hd]; rfl
  match args, hd with
  | [], _ => exact .settles hhead h (settled_atom a _) (.refl s)
  | [only], hd =>
    refine .fewer hhead h ?_
    rw [hd, shorthands_headed h, shorthandsOfAll_cons, shorthandsOfAll_nil]
    omega
  | first :: second :: rest, _ =>
    obtain ⟨name, t, hname, ht⟩ := gensym_run op s
    have hjoined : junction op (.ofAtom a d.span) (first :: second :: rest) d s
        = .ok (shortCircuit op name first (second :: rest) d.span) t := State.bind_of_ok hname
    rw [State.bind_of_ok hjoined]
    exact .settles hhead h (settled_formOf (by decide) _ _) ht

/-- Threading leaves out its own head. -/
theorem outcome_thread (h : isShorthand s.world head = true) (last : Bool)
    (hd : d = .list (.atom (.symbol head) j :: args) i) :
    Outcome s d ((do return some (← FormM.ofExcept (threadForm last args d)) : FormM (Option Datum)) s) := by
  have hhead : d.head? = some head := by rw [hd]; rfl
  have hrun := threadForm_run last args d
  cases hform : threadForm last args d with
  | ok e =>
    rw [hform] at hrun
    refine .fewer hhead h ?_
    rw [hrun s.world, hd, shorthands_headed h]
    omega
  | error e =>
    rw [hform] at hrun
    exact .fails (.inr hrun)

theorem outcome_member (hhead : d.head? = some head) (args : List Datum) :
    Outcome s d ((do FormM.ofExcept (memberForm (← FormM.world) head args d) : FormM (Option Datum)) s) := by
  have hrun := memberForm_run s.world head args d
  change Outcome s d (FormM.ofExcept (memberForm s.world head args d) s)
  split at hrun
  · rename_i e heq
    rw [heq]
    exact .settles hhead hrun.1 hrun.2 (.refl s)
  · rename_i heq
    rw [heq]
    exact .stays
  · rename_i e heq
    rw [heq]
    exact .fails (.inr hrun)

/-- A derived form, by its head, in the order in which heads are tried. -/
theorem derive?_run (hd : d = .list (.atom (.symbol head) j :: args) i) : Outcome s d (derive? d s) := by
  have hhead : d.head? = some head := by rw [hd]; rfl
  have hderived {name : String} (hname : name ∈ derivedForms) (heq : head = name) :
      isShorthand s.world head = true := isShorthand_derived (heq ▸ hname) _
  have hlist : d.list? = some (.atom (.symbol head) j :: args) := by rw [hd]; rfl
  rw [derive?, hlist]
  dsimp only [symbol?]
  by_cases hwhen : head = "when" ∨ head = "when-not"
  · rw [if_pos hwhen]
    refine outcome_settles (settles_whenForm ..) hhead ?_
    rcases hwhen with heq | heq <;> exact hderived (by decide) heq
  rw [if_neg hwhen]
  by_cases hnot : head = "if-not"
  · rw [if_pos hnot]
    exact outcome_settles (settles_ifNotForm ..) hhead (hderived (by decide) hnot)
  rw [if_neg hnot]
  by_cases hcond : head = "cond"
  · rw [if_pos hcond]
    exact outcome_settles (settles_condForm ..) hhead (hderived (by decide) hcond)
  rw [if_neg hcond]
  by_cases hand : head = "and"
  · rw [if_pos hand]
    exact outcome_junction (hderived (by decide) hand) "and" (.bool true) hd
  rw [if_neg hand]
  by_cases hor : head = "or"
  · rw [if_pos hor]
    exact outcome_junction (hderived (by decide) hor) "or" .nil hd
  rw [if_neg hor]
  by_cases hthread : head = "->" ∨ head = "->>"
  · rw [if_pos hthread]
    refine outcome_thread ?_ _ hd
    rcases hthread with heq | heq <;> exact hderived (by decide) heq
  rw [if_neg hthread]
  by_cases hdefn : head = "defn" ∨ head = "defn-"
  · rw [if_pos hdefn]
    refine outcome_settles (settles_defnForm ..) hhead ?_
    rcases hdefn with heq | heq <;> exact hderived (by decide) heq
  rw [if_neg hdefn]
  by_cases hcomment : head = "comment"
  · rw [if_pos hcomment]
    exact .settles hhead (hderived (by decide) hcomment) (settled_atom .nil _) (.refl s)
  rw [if_neg hcomment]
  exact outcome_member hhead args

end Headed

theorem lookup_error {scopes : Scopes} {w : World} {name : String} {level : Nat} {e : Error}
    (h : scopes.lookup w name level = .error e) : e.span = none := by
  unfold Scopes.lookup at h
  split at h
  · cases h
  · rename_i q simple _
    have hqualifier : scopes.qualifier w q level = .error e := by
      cases hq : scopes.qualifier w q level with
      | error e' =>
        rw [hq] at h
        cases h
        rfl
      | ok qualifier =>
        rw [hq] at h
        cases qualifier <;> cases h
    unfold Scopes.qualifier at hqualifier
    split at hqualifier
    · cases hqualifier
    · split at hqualifier
      · cases hqualifier
      · split at hqualifier
        · cases hqualifier
        · split at hqualifier <;> cases hqualifier
          rfl

/-- One step where no name stands for an expander. -/
theorem expandOnce_run [Libraries] (call : Caller) (d : Datum) (hs : NoExpanders s) : Outcome s d
    (expandOnce call d s) := by
  unfold expandOnce
  cases hhead : d.head? with
  | none => exact .stays
  | some head =>
    have hlookup : FormM.lookup head s
        = FormM.ofExcept (s.scopes.lookup s.world head s.methods.length) s := rfl
    dsimp only
    cases hfound : s.scopes.lookup s.world head s.methods.length with
    | error e =>
      rw [hfound] at hlookup
      rw [State.bind_of_error hlookup]
      exact .fails (.inl (lookup_error hfound))
    | ok found =>
      rw [hfound] at hlookup
      rw [State.bind_of_ok hlookup]
      match found with
      | none =>
        obtain ⟨j, args, i, hd⟩ := list_of_head? hhead
        exact derive?_run hd
      | some (.var v) =>
        have hplain := hs head v hfound
        have hworld : FormM.world s = .ok s.world s := rfl
        dsimp only
        rw [State.bind_of_ok hworld, hplain]
        exact .stays
      | some (.local ..) => exact .stays
      | some (.nameSpace ..) => exact .stays
      | some (.cls ..) => exact .stays
      | some (.staticField ..) => exact .stays

/-- A settled form stays as it is. -/
theorem expandOnce_settled [Libraries] (call : Caller) (hd : Settled d) (hs : NoExpanders s) :
    expandOnce call d s = .ok none s ∨
      ∃ e, (e.span = none ∨ IsReading e) ∧ expandOnce call d s = .error (.error e) s := by
  generalize hr : expandOnce call d s = r
  cases hr ▸ expandOnce_run call d hs with
  | stays => exact .inl rfl
  | fewer hhead h _ => exact absurd h (by simp [hd _ hhead])
  | settles hhead h _ _ => exact absurd h (by simp [hd _ hhead])
  | fails h => exact .inr ⟨_, h, rfl⟩

end Steps

/-! ### Runs -/

/-- The error of a form whose expansion takes too many steps. -/
def endless (d : Datum) : Error :=
  d.compileError ("macro expansion of " ++ d.toText ++ " does not terminate")

theorem endless_not_outcome (d : Datum) : ¬((endless d).span = none ∨ IsReading (endless d)) := by
  rintro (hspan | ⟨message, hreading⟩)
  · cases hspan
  · cases hreading

section Runs

variable {s t : FormState} {d : Datum}

theorem not_sameShape_of_fewer {w : World} {next : Datum} (h : shorthands w next < shorthands w d) :
    next.sameShape d = false := by
  rw [Bool.eq_false_iff]
  intro hsame
  rw [shorthands_of_sameShape w hsame] at h
  exact Nat.lt_irrefl _ h

theorem not_sameShape_of_settled {w : World} {next : Datum} {head : String} (hhead : d.head? = some head)
    (h : isShorthand w head = true) (hnext : Settled next) : next.sameShape d = false := by
  rw [Bool.eq_false_iff]
  intro hsame
  rw [hnext head (head?_of_sameShape hsame hhead) w] at h
  cases h

/-- What is left of an expansion takes no more steps than there are shorthands, stops where nothing is left to
rewrite, and runs out of steps only if there are at least as many shorthands. -/
theorem expandWithin_run [Libraries] (call : Caller) (origin d : Datum) (hs : NoExpanders s) (left steps : Nat) :
    (∀ r n t, expandWithin call origin left steps d s = .ok (r, n) t →
      n ≤ steps + shorthands s.world d ∧ expandOnce call r t = .ok none t) ∧
    (∀ t, expandWithin call origin left steps d s = .error (.error (endless origin)) t →
      left ≤ shorthands s.world d) := by
  induction left generalizing steps d s with
  | zero => exact ⟨fun r n t hrun => (by cases hrun), fun t _ => Nat.zero_le _⟩
  | succ left ih =>
    generalize hr : expandOnce call d s = result
    cases hr ▸ expandOnce_run call d hs with
    | stays =>
      have hrun : expandWithin call origin (left + 1) steps d s = .ok (d, steps) s := State.bind_of_ok hr
      rw [hrun]
      refine ⟨fun r n t heq => ?_, fun t heq => by cases heq⟩
      cases heq
      exact ⟨Nat.le_add_right _ _, hr⟩
    | @fewer next head hhead h hfewer =>
      have hrun : expandWithin call origin (left + 1) steps d s
          = expandWithin call origin left (steps + 1) next s := by
        rw [expandWithin, State.bind_of_ok hr]
        simp only [not_sameShape_of_fewer hfewer, Bool.false_eq_true, if_false]
      rw [hrun]
      obtain ⟨hends, hendless⟩ := ih next hs (steps + 1)
      refine ⟨fun r n t heq => ?_, fun t heq => ?_⟩
      · obtain ⟨hn, hr⟩ := hends r n t heq
        exact ⟨by omega, hr⟩
      · have hleft := hendless t heq
        omega
    | @settles next t' head hhead h hnext ht =>
      obtain ⟨j, args, i, hd⟩ := list_of_head? hhead
      have hcount : shorthands s.world d = 1 + shorthandsOfAll s.world args := by rw [hd, shorthands_headed h]
      have hrun : expandWithin call origin (left + 1) steps d s
          = expandWithin call origin left (steps + 1) next t' := by
        rw [expandWithin, State.bind_of_ok hr]
        simp only [not_sameShape_of_settled hhead h hnext, Bool.false_eq_true, if_false]
      rw [hrun]
      cases left with
      | zero => exact ⟨fun r n t heq => (by cases heq), fun t _ => by omega⟩
      | succ left =>
        rcases expandOnce_settled call hnext (hs.renumbered ht) with hnone | ⟨e, he, hfails⟩
        · have hend : expandWithin call origin (left + 1) (steps + 1) next t' = .ok (next, steps + 1) t' :=
            State.bind_of_ok hnone
          rw [hend]
          refine ⟨fun r n t heq => ?_, fun t heq => by cases heq⟩
          cases heq
          exact ⟨by omega, hnone⟩
        · have hend : expandWithin call origin (left + 1) (steps + 1) next t' = .error (.error e) t' :=
            State.bind_of_error hfails
          rw [hend]
          refine ⟨fun r n t heq => (by cases heq), fun t heq => ?_⟩
          cases heq
          exact absurd he (endless_not_outcome origin)
    | fails h =>
      have hrun : expandWithin call origin (left + 1) steps d s = .error (.error _) s := State.bind_of_error hr
      rw [hrun]
      refine ⟨fun r n t heq => (by cases heq), fun t heq => ?_⟩
      cases heq
      exact absurd h (endless_not_outcome origin)

end Runs

/-- Where no name stands for an expander, the expansion of a form takes at most as many steps as shorthands are
written in it.  With no more of them than there may be steps it is never given up, and what it comes to is not
rewritten any further. -/
theorem expand_within_shorthands [Libraries] (call : Caller) (d : Datum) (s : FormState) (hs : NoExpanders s) :
    (∀ r n t, expand call d s = .ok (r, n) t →
      n ≤ shorthands s.world d ∧ expandOnce call r t = .ok none t) ∧
    (shorthands s.world d ≤ 1024 → ∀ t, expand call d s ≠ .error (.error (endless d)) t) := by
  obtain ⟨hends, hendless⟩ := expandWithin_run call d d hs (maxSteps + 1) 0
  refine ⟨fun r n t hrun => ?_, fun hfew t hrun => ?_⟩
  · obtain ⟨hn, hr⟩ := hends r n t hrun
    exact ⟨by omega, hr⟩
  · have hmany := hendless t hrun
    have hmax : maxSteps = 1024 := rfl
    omega

/-- A namespace with one var, `f`. -/
def oneVar : FormState := { world := ({ current := Names.coreSpace } : World).defineCore "f" (.int 1) }

theorem noExpanders_oneVar : NoExpanders oneVar := by
  have hplain : oneVar.world.vars.all (fun c => !c.flags.isExpander) = true := by decide +kernel
  intro name v _
  rw [World.flagsOf, World.cell?]
  cases hcell : oneVar.world.vars[v.id]? with
  | none => rfl
  | some cell =>
    have hcell := Array.all_eq_true'.mp hplain cell (Array.mem_of_getElem? hcell)
    simpa using hcell

/-- The form `(-> x (->> f))`. -/
def threadedTwice : Datum := formOf "->" [.symbol "x" {}, formOf "->>" [.symbol "f" {}] {}] {}

/-- The inner threading form comes to the head and is rewritten next: two shorthands, two steps. -/
theorem threadedTwice_within : NoExpanders oneVar ∧ shorthands oneVar.world threadedTwice = 2 ∧
    ∃ r t, expand (Machine.call 0) threadedTwice oneVar = .ok (r, 2) t ∧ r.toText = "(f x)" ∧
      expandOnce (Machine.call 0) r t = .ok none t := by
  have hcount : shorthands oneVar.world threadedTwice = 2 := by decide +kernel
  have hrun : (State.answer? (expand (Machine.call 0) threadedTwice oneVar)).any
      (fun q => q.1.2 == 2 && q.1.1.toText == "(f x)") = true := by decide +kernel
  obtain ⟨⟨r, n⟩, t, hexpand, hend⟩ := State.exists_answer hrun
  simp only [Bool.and_eq_true, beq_iff_eq] at hend
  obtain ⟨rfl, htext⟩ := hend
  have hfixed := (expand_within_shorthands _ _ _ noExpanders_oneVar).1 r 2 t hexpand
  exact ⟨noExpanders_oneVar, hcount, r, t, hexpand, htext, hfixed.2⟩

end LispMachine.Expansion
