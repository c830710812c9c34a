import LispMachine.Proofs.Naming.Outcomes

/-! # Names in a whole session

A session evaluates and compiles texts, calls what they define and loads classes, in one world.  Between top-level forms
no template is open, and what a session does is one run (`exists_run_session`), in which all registrations of classes
are in one book (`records_session`).  The names of the run are just those that the world has on record (`Run.given`).
Two of them are the same where they are for one symbol in one template, and nowhere else (`names_hygienic`). -/

namespace LispMachine.Naming

open Form Relation
open Machine (worldAfter)

/-- Between top-level forms, when some templates have been begun and left. -/
def outset (w : World) (begun : Nat) : Scene := ⟨{ world := w }, [], begun⟩

theorem outset_balanced (w : World) (begun : Nat) : (outset w begun).Balanced := rfl

/-- The action is a run, from outside templates to outside templates, and all registrations are in the book. -/
structure Logged {α : Type} (a : Action α) : Prop where
  runs : ∀ w begun, ∃ log begun', Run (outset w begun) log (outset (worldAfter (a w)) begun')
  records : ∀ w : World, w.Records (worldAfter (a w))

/-! ### Actions in sequence -/

section Actions

variable {α β : Type} {a : Action α}

theorem logged_runs (ha : Machine.Runs a) : Logged a where
  runs w begun := by
    obtain ⟨log, hrun⟩ := exists_run_course { world := w } [] begun (ha w)
    exact ⟨log, begun, hrun⟩
  records w := World.records_course (ha w)

theorem logged_fail (e : Error) : Logged (Action.fail e : Action α) := logged_runs (Machine.runs_fail e)

theorem Logged.bind {f : α → Action β} (ha : Logged a) (hf : ∀ x, Logged (f x)) : Logged (a >>= f) where
  runs w begun := by
    obtain ⟨log, begun', hrun⟩ := ha.runs w begun
    rw [State.bind_eq]
    cases hresult : a w with
    | error e w' =>
      rw [hresult] at hrun
      exact ⟨log, begun', hrun⟩
    | ok x w' =>
      rw [hresult] at hrun
      obtain ⟨log', begun'', hrun'⟩ := (hf x).runs w' begun'
      exact ⟨log ++ log', begun'', hrun.trans hrun'⟩
  records w := by
    have hfirst := ha.records w
    rw [State.bind_eq]
    cases hresult : a w with
    | error e w' =>
      rw [hresult] at hfirst
      exact hfirst
    | ok x w' =>
      rw [hresult] at hfirst
      exact hfirst.trans ((hf x).records w')

theorem worldAfter_inNamedSource (a : Action α) (w : World) :
    worldAfter (Session.inNamedSource a w) = worldAfter (a w) := by
  unfold Session.inNamedSource
  match a w with
  | .ok _ _ => rfl
  | .error (.error _) _ => rfl
  | .error .outOfFuel _ => rfl

theorem logged_inNamedSource (ha : Logged a) : Logged (Session.inNamedSource a) where
  runs w begun := by
    rw [worldAfter_inNamedSource]
    exact ha.runs w begun
  records w := by
    rw [worldAfter_inNamedSource]
    exact ha.records w

theorem logged_inSequence {run : Datum → Action Value} (hrun : ∀ d, Logged (run d)) (forms : List Datum) :
    Logged (Session.inSequence run forms) := by
  unfold Session.inSequence
  generalize Value.nil = v
  induction forms generalizing v with
  | nil => exact logged_runs (Machine.runs_pure v)
  | cons d forms ih =>
    rw [List.foldlM_cons]
    exact (hrun d).bind ih

theorem logged_runText {run : Datum → Action Value} (hrun : ∀ d, Logged (run d)) (text : String) :
    Logged (Session.runText run text) :=
  (logged_runs Machine.runs_get).bind fun _ => (logged_runs (Machine.runs_ofExcept _)).bind fun forms =>
    logged_inSequence (fun d => logged_inNamedSource (hrun d)) forms

end Actions

/-! ### Top-level forms -/

section Forms

theorem worldAfter_onTopLevel {α : Type} (m : FormM α) (w : World) :
    worldAfter (Session.onTopLevel m w) = (stateAfter (m { world := w })).world := by
  unfold Session.onTopLevel
  cases m { world := w } <;> rfl

/-- Work on a top-level form begins and ends outside templates. -/
theorem logged_onTopLevel {α : Type} {m : FormM α} (hm : Work m) : Logged (Session.onTopLevel m) where
  runs w begun := by
    obtain ⟨log, begun', hrun⟩ := hm.leads (outset w begun) (outset_balanced w begun)
    have hlength : 0 = (stateAfter (m { world := w })).templates.length :=
      hrun.balanced (outset_balanced w begun)
    have htemplates := List.length_eq_zero_iff.mp hlength.symm
    rw [worldAfter_onTopLevel]
    exact ⟨_, begun', hrun.tail (.aside ⟨rfl, rfl, htemplates.symm⟩)⟩
  records w := by
    rw [worldAfter_onTopLevel]
    exact hm.records { world := w }

theorem logged_evaluateTop [Libraries] (fuel : Nat) (d : Datum) : Logged (Session.evaluateTop fuel d) :=
  logged_onTopLevel ((working_handlers fuel).evaluate d)

theorem logged_expand [Libraries] (fuel : Nat) (d : Datum) :
    Logged (Session.onTopLevel (Expansion.expand (Machine.call fuel) d)) :=
  logged_onTopLevel (work_expand (Machine.call_course fuel) d)

theorem work_block? (d : Datum) : Work (Session.block? d) := by
  unfold Session.block?
  split
  · split
    · exact work_pure _
    · refine (work_lookup _).bind fun r => ?_
      split
      · refine work_world.bind fun w => ?_
        split <;> exact work_pure _
      · exact work_pure _
  · exact work_pure _

variable {h : Handlers} (hh : Working h)

include hh

theorem work_buildTop (d : Datum) : Work (Session.buildTop h d) :=
  (Work.cls .eval).bind fun _ => (work_newFile _ _).bind fun _ => (work_buildClass hh _ _ _ _).bind fun _ => work_pure _

theorem work_blockOrClass [Libraries] (d : Datum) : Work (Session.blockOrClass h d) := by
  refine (work_expand hh.call d).bind fun (expansion, _) => (work_block? expansion).bind fun forms => ?_
  split
  · exact work_pure _
  · exact ((work_buildTop hh expansion).bind fun _ => work_loadClass _).bind fun _ => work_pure _

omit hh in
theorem logged_compileTop [Libraries] (fuel : Nat) (d : Datum) : Logged (Session.compileTop fuel d) := by
  induction fuel generalizing d with
  | zero => exact logged_runs (Machine.runs_throw _)
  | succ fuel ih =>
    have hh := working_handlers fuel
    refine (logged_onTopLevel (work_blockOrClass hh d)).bind fun r => ?_
    cases r with
    | inl forms => exact logged_inSequence ih forms
    | inr cls =>
      change Logged (Session.runClass _ cls)
      unfold Session.runClass
      split
      · exact logged_runs (hh.call _)
      · exact logged_fail _

end Forms

/-! ### Sessions -/

/-- One thing that is done in a session, well or not. -/
inductive Activity [Libraries] (w : World) : World → Prop
  | evaluate (text : String) : Activity w (worldAfter (Session.evalText text w))
  | compile (text : String) : Activity w (worldAfter (Session.compileText text w))
  | expand (fuel : Nat) (d : Datum) :
    Activity w (worldAfter (Session.onTopLevel (Expansion.expand (Machine.call fuel) d) w))
  | call (fuel : Nat) (q : Request) : Activity w (worldAfter (Machine.call fuel q w))
  | load (bytes : List UInt8) : Activity w (worldAfter (Machine.defineImage bytes w))
  | change {w' : World} (h : Machine.Change w w') : Activity w w'

/-- What is done in a session once, from outside templates. -/
theorem exists_run_activity [Libraries] {w w' : World} (h : Activity w w') (begun : Nat) :
    ∃ log begun', Run (outset w begun) log (outset w' begun') := by
  cases h with
  | evaluate text => exact (logged_runText (logged_evaluateTop Machine.plenty) text).runs w begun
  | compile text => exact (logged_runText (logged_compileTop Machine.plenty) text).runs w begun
  | expand fuel d => exact (logged_expand fuel d).runs w begun
  | call fuel q => exact (logged_runs (Machine.call_course fuel q)).runs w begun
  | load bytes =>
    have hload := nameless_defineImage bytes w
    exact ⟨[], begun, .single (.aside ⟨hload.counter, hload.given, rfl⟩)⟩
  | change h =>
    obtain ⟨log, hrun⟩ := exists_run_course { world := w } [] begun (.single h)
    exact ⟨log, begun, hrun⟩

/-- What is done in a session is one run. -/
theorem exists_run_session [Libraries] {w w' : World} (h : ReflTransGen Activity w w') (begun : Nat) :
    ∃ log begun', Run (outset w begun) log (outset w' begun') := by
  induction h with
  | refl => exact ⟨[], begun, .refl _⟩
  | tail _ hactivity ih =>
    obtain ⟨log, begun', hrun⟩ := ih
    obtain ⟨log', begun'', hrun'⟩ := exists_run_activity hactivity begun'
    exact ⟨log ++ log', begun'', hrun.trans hrun'⟩

theorem records_activity [Libraries] {w w' : World} (h : Activity w w') : w.Records w' := by
  cases h with
  | evaluate text => exact (logged_runText (logged_evaluateTop Machine.plenty) text).records w
  | compile text => exact (logged_runText (logged_compileTop Machine.plenty) text).records w
  | expand fuel d => exact (logged_expand fuel d).records w
  | call fuel q => exact World.records_course (Machine.call_course fuel q w)
  | load bytes => exact World.records_defineImage bytes w
  | change h => exact World.records_change h

/-- All registrations in a session are in one book. -/
theorem records_session [Libraries] {w w' : World} (h : ReflTransGen Activity w w') : w.Records w' := by
  induction h with
  | refl => exact .refl w
  | tail _ hactivity ih => exact ih.trans (records_activity hactivity)

/-- There is a run to the state, after which the same templates are open, and its log has just the names that were put
on record from here on. -/
def Scene.Recalls (S : Scene) (t : FormState) : Prop :=
  ∃ log begun, Run S log ⟨t, S.opened, begun⟩ ∧
    t.world.given.toList = S.state.world.given.toList ++ log.map Given.name

theorem Scene.Leads.recalls {S : Scene} {t : FormState} (h : S.Leads t) : S.Recalls t := by
  obtain ⟨log, begun, hrun⟩ := h
  exact ⟨log, begun, hrun, hrun.given⟩

/-- What may come next at some point, each in a run from there. -/
structure Continues [Libraries] (S : Scene) : Prop where
  /-- Something gives a name, which is the first in the log. -/
  produces : ∀ g t, Produces S g t → ∃ log begun, Run S (g :: log) ⟨t, S.opened, begun⟩
  /-- A template is evaluated, and filled in with names that are in the log. -/
  fillsEvaluated : ∀ fuel d template v t, Template.theTemplate d = .ok template →
    Template.evaluate (handlers fuel) d S.state = .ok v t →
    ∃ name log begun, Run S log ⟨t, S.opened, begun⟩ ∧
      (∀ x ∈ Template.temporaries template, ⟨.temporary S.begun x, name x⟩ ∈ log) ∧ Fills name template (v, false)
  /-- A template is compiled, and what its plan gives is filled in with names that are in the log. -/
  fillsCompiled : ∀ fuel d template u t, Template.theTemplate d = .ok template →
    Template.compile (handlers fuel) d S.state = .ok u t →
    ∃ name p s log begun, Run S log ⟨t, S.opened, begun⟩ ∧
      Template.plan template { S.state with templates := {} :: S.state.templates } = .ok (p, false) s ∧
      (∀ x ∈ Template.temporaries template, ⟨.temporary S.begun x, name x⟩ ∈ log) ∧
      ∀ value v, Template.Gives value p v → Fills name template (v, false)
  /-- A form is evaluated or compiled, well or not; all names that are given in it are in the log. -/
  evaluates : ∀ fuel d, S.Recalls (stateAfter ((handlers fuel).evaluate d S.state))
  compiles : ∀ fuel d, S.Recalls (stateAfter ((handlers fuel).compile d S.state))
  /-- Between top-level forms, the session goes on; all names that are given in it are in the log. -/
  goesOn : ∀ w begun w', S = outset w begun → ReflTransGen Activity w w' →
    ∃ log begun', Run S log (outset w' begun') ∧ w'.given.toList = w.given.toList ++ log.map Given.name

/-- Names given in a session, up to any point of it, are the same where they are for one symbol in one template, and
nowhere else; the log has just the names that were put on record.  Whatever comes next at that point goes on with the
run, and with the names that are seen in its outcome: whatever gives a name, templates that are evaluated or compiled,
other forms, and further texts. -/
theorem names_hygienic [Libraries] {w : World} {begun : Nat} {log : List Given} {S : Scene}
    (hrun : Run (outset w begun) log S) :
    Hygienic log ∧ S.state.world.given.toList = w.given.toList ++ log.map Given.name ∧ Continues S := by
  have hsound := hrun.sound_start rfl
  have hbalanced := hsound.balanced
  refine ⟨hsound.hygienic, hrun.given, ?_, ?_, ?_, ?_, ?_, ?_⟩
  · exact fun g t h => h.run hbalanced
  · exact fun fuel d template v t hd h => evaluate_meets (working_handlers fuel) hsound hd h
  · exact fun fuel d template u t hd h => compile_meets (working_handlers fuel) hsound hd h
  · exact fun fuel d => (((working_handlers fuel).evaluate d).leads S hbalanced).recalls
  · exact fun fuel d => (((working_handlers fuel).compile d).leads S hbalanced).recalls
  · rintro w₀ k w' rfl h
    obtain ⟨log, k', hnext⟩ := exists_run_session h k
    exact ⟨log, k', hnext, hnext.given⟩

/-- Two names are drawn for the same stem, and `x#` is met in two places of one template. -/
theorem names_hygienic_template :
    let log : List Given := [⟨.symbol, "t__1"⟩, ⟨.symbol, "t__2"⟩, ⟨.temporary 0 "x#", "x__3__auto__"⟩,
      ⟨.temporary 0 "x#", "x__3__auto__"⟩]
    let w : World := { counter := 4, given := #["t__1", "t__2", "x__3__auto__", "x__3__auto__"] }
    Run (outset {} 0) log (outset w 1) ∧ Hygienic log ∧ w.given.toList = log.map Given.name ∧
      Continues (outset w 1) := by
  have hdrawn := (Run.single (.symbol { world := {} } [] 0 "t")).tail (.symbol _ [] 0 "t")
  have hopened := hdrawn.tail (.enter _ [] 0)
  have hmet := (hopened.tail (.occurrence (x := "x#") rfl)).tail (.occurrence (x := "x#") rfl)
  have hleft := hmet.tail (.leave _ 0 [] 1)
  intro log w
  have hrun : Run (outset {} 0) log (outset w 1) := hleft
  exact ⟨hrun, names_hygienic hrun⟩

end LispMachine.Naming
