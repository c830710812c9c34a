import LispMachine.Libraries.Standard
import LispMachine.Proofs.Context.CompiledClasses

/-! # Evaluating puts its surroundings back

An interpreted `try` goes on in the state that an error deep inside its body has left behind, so evaluation
has to close what it opens on the way out of an error as well.  The one thing that a form may leave behind is
the signal of a `recur`, and only for the loop around it: a loop takes the signal before it ends, arguments
are not in tail position, and no `recur` is accepted across a `try`. -/

namespace LispMachine.Keeping

open Form

variable {α : Type} {b n failed : Bool} {g : Signal} {s t u : FormState}

/-- Work in which no `recur` is left. -/
theorem Keeps.andThen {β : Type} {x : FormM α} {f : α → FormM β} (hx : Keeps b n .quiet x)
    (hf : ∀ a, Keeps b n .quiet (f a)) : Keeps b n .quiet (x >>= f) :=
  hx.bind (g := .quiet) hf

/-! ### Ends of a `try` -/

/-- Taking up a signal that a `recur` has left. -/
theorem Signal.Allows.settled (h : Signal.turning.Allows s failed t) (hsettled : Settled t u) :
    Signal.turning.Allows s failed u := by
  rcases h with h | h
  · exact .inl (h.trans hsettled)
  · rcases hsettled with hsame | ⟨-, hnone⟩
    · exact .inr (h.congr ⟨rfl, rfl, rfl, rfl⟩ hsame)
    · cases hs : s.recurSignal with
      | none => exact .inl (.inl (by rw [hnone, hs]))
      | some values => exact .inl (.inr ⟨by rw [hs]; rfl, hnone⟩)

/-- A failure and what is done about it, one after the other. -/
theorem Signal.Allows.catching (h : Signal.turning.Allows s true t) (h' : Signal.turning.Allows t failed u)
    (halike : Alike t s) : Signal.turning.Allows s failed u := by
  rcases h' with hsettled | hrecurs
  · refine Signal.Allows.settled (h.imp_right fun hrecurs => ?_) hsettled
    -- A state in which failing work leaves a signal behind is not nested as in a program.
    obtain ⟨values, target, rest, hvalues, htail, hloops, harity, hnested⟩ := hrecurs
    exact ⟨values, target, rest, hvalues, htail, hloops, harity, fun hs => nomatch (hnested hs).2⟩
  · exact .inr (hrecurs.congr halike rfl)

/-- What is done about a failure runs in the state the failure has left. -/
theorem keeps_catching {x : FormM α} {f : Except Error α → FormM α} (hx : Keeps b n .turning x)
    (hok : ∀ a, f (.ok a) = pure a) (hf : ∀ e, Keeps b n .turning (f (.error e))) :
    Keeps b n .turning (attempt x >>= f) := by
  intro s
  have hends := hx s
  rw [State.bind_eq, attempt]
  match x s, hends with
  | .ok a t, hkept =>
    dsimp only
    rw [hok]
    exact hkept
  | .error (.error e) t, hkept =>
    refine (hf e t).mono fun failed u hkept' => ⟨hkept'.context.trans hkept.context, ?_⟩
    exact hkept.signal.catching hkept'.signal (.of_context hkept.context.symm)
  | .error .outOfFuel _, _ => trivial

/-- Where loops and `try` forms nest as in a program, no `recur` gets out of a `try`. -/
theorem Signal.Allows.tried (h : Signal.turning.Allows { s with tryDepth := s.tryDepth + 1 } failed t)
    (hsignal : u.recurSignal = t.recurSignal) (failed' : Bool) : Signal.turning.Allows s failed' u := by
  rcases h with h | ⟨values, target, rest, hvalues, htail, hloops, harity, hnested⟩
  · refine .inl ?_
    unfold Settled at h ⊢
    rwa [hsignal]
  · refine .inr ⟨values, target, rest, hsignal.trans hvalues, htail, hloops, harity, fun hs => ?_⟩
    have hinside : target.tryDepth ≤ s.tryDepth := hs.2 target rest hloops
    have hbeyond : target.tryDepth = s.tryDepth + 1 :=
      (hnested ⟨hs.1, fun target' rest' hloops' => Nat.le_succ_of_le (hs.2 target' rest' hloops')⟩).1
    omega

/-- Work inside one more interpreted `try`, then more work outside, then the outcome. -/
theorem keeps_tried {β : Type} {x : FormM α} {after : FormM β} (hx : Keeps b n .turning x)
    (hafter : Keeps b n .quiet after) :
    Keeps b n .turning (do
      modify fun s => { s with tryDepth := s.tryDepth + 1 }
      let outcome ← attempt x
      modify fun s => { s with tryDepth := s.tryDepth - 1 }
      let _ ← after
      FormM.ofExcept outcome) := by
  intro s
  have hrest : ∀ failed t (outcome : Except Error α),
      Kept b n .turning { s with tryDepth := s.tryDepth + 1 } failed t →
      Ends (Kept b n .turning s)
        ((after >>= fun _ => FormM.ofExcept outcome) { t with tryDepth := t.tryDepth - 1 }) := by
    intro failed t outcome hkept
    have hdepth : t.tryDepth = s.tryDepth + 1 := congrArg Context.tryDepth hkept.context
    have hcontext : { t with tryDepth := t.tryDepth - 1 }.context.upTo b n = s.context.upTo b n := by
      have hleft := congrArg (fun context => { context with tryDepth := s.tryDepth }) hkept.context
      refine Eq.trans ?_ hleft
      simp only [Context.upTo, FormState.context, hdepth, Nat.add_sub_cancel]
    have hquiet : Keeps b n .quiet (after >>= fun _ => FormM.ofExcept outcome) :=
      hafter.bind fun _ => keeps_ofExcept outcome
    refine (hquiet _).mono fun failed' u hkept' => ⟨hkept'.context.trans hcontext, ?_⟩
    exact (hkept.signal.tried rfl failed').settled hkept'.signal
  have hends := hx { s with tryDepth := s.tryDepth + 1 }
  rw [State.bind_of_ok (State.modify_eq _ s), State.bind_eq, attempt]
  cases hrun : x { s with tryDepth := s.tryDepth + 1 } with
  | ok a t =>
    rw [hrun] at hends
    exact hrest false t (.ok a) hends
  | error fault t =>
    rw [hrun] at hends
    cases fault with
    | error e => exact hrest true t (.error e) hends
    | outOfFuel => trivial

/-! ### Forms in sequence -/

section Forms

theorem keeps_evaluateName (name : String) : Keeps b n g (evaluateName name) := by
  refine (keeps_resolve name).bind fun r => ?_
  split
  · split
    · exact keeps_pure _
    · exact keeps_fail _
  · exact keeps_world.bind fun _ => (keeps_ofExcept _).bind fun _ => keeps_ofExcept _
  · exact keeps_pure _
  · exact keeps_pure _
  · split
    · exact keeps_pure _
    · exact keeps_fail _

theorem keeps_evaluateSymbol (d : Datum) : Keeps b n g (evaluateSymbol d) := by
  unfold evaluateSymbol
  split
  · exact keeps_evaluateName _
  · exact keeps_fail _

theorem keeps_checkHint (l : LocalInit) : Keeps b n g (checkHint l) := by
  unfold checkHint
  split
  · exact keeps_pure _
  · refine (keeps_resolveHint _).bind fun hinted => ?_
    split
    · exact (keeps_hintApplies _ _ _ _).bind fun _ => keeps_pure _
    · exact keeps_pure _

theorem keeps_captureValues (captures : List Capture) : Keeps b n g (captureValues captures) :=
  keeps_mapM fun _ => keeps_evaluateName _

variable {h : Handlers} (he : ∀ d, Keeps false false .turning (h.evaluate d))

include he

theorem keeps_evaluate (d : Datum) : Keeps b n .turning (h.evaluate d) := (he d).upTo

theorem keeps_evaluateAside (d : Datum) : Keeps b n .quiet (FormM.withTail false (h.evaluate d)) :=
  keeps_withTail_false (keeps_evaluate he d).still

theorem keeps_evaluateBody (body : List Datum) : Keeps b n .turning (evaluateBody h body) := by
  induction body with
  | nil => exact keeps_pure _
  | cons d rest ih =>
    cases rest with
    | nil => exact keeps_evaluate he d
    | cons _ _ => exact (keeps_evaluateAside he d).bind fun _ => ih

theorem keeps_evaluateEach (args : List Datum) : Keeps b n .still (evaluateEach h args) := by
  induction args with
  | nil => exact keeps_pure _
  | cons d rest ih =>
    exact (keeps_evaluate he d).still.bind fun _ => ih.bind (g := .still) fun _ => keeps_pure _

theorem keeps_evaluateArgs (args : List Datum) : Keeps b n .quiet (evaluateArgs h args) :=
  keeps_withTail_false (keeps_evaluateEach he args)

theorem keeps_evaluateCollection (d : Datum) : Keeps b n .quiet (evaluateCollection h d) := by
  unfold evaluateCollection
  split
  · exact keeps_fail _
  · exact (keeps_evaluateArgs he _).andThen fun _ => keeps_ofExcept _

/-! ### Branches and locals -/

theorem keeps_evaluateIf (d : Datum) : Keeps b n .turning (evaluateIf h d) := by
  refine (keeps_ofExcept _).bind fun (test, whenTrue, whenFalse) => ?_
  refine (keeps_evaluateAside he _).bind fun v => keeps_ite (keeps_evaluate he _) ?_
  split
  · exact keeps_evaluate he _
  · exact keeps_pure _

theorem keeps_evaluateCase [Libraries] (d : Datum) : Keeps b n .turning (evaluateCase h d) := by
  refine (keeps_ofExcept _).bind fun (subject, clauses) => (keeps_evaluateAside he _).bind fun v => ?_
  dsimp only
  split
  · exact keeps_evaluate he _
  · exact keeps_world.bind fun _ => (keeps_lift _).bind fun _ => keeps_fail _

theorem keeps_evaluateLocal (l : LocalInit) : Keeps true n .quiet (evaluateLocal h l) :=
  (keeps_evaluateAside he _).andThen fun _ => keeps_bindName _

theorem keeps_evaluateLet (d : Datum) : Keeps b n .turning (evaluateLet h d) := by
  refine (keeps_ofExcept _).bind fun (locals, body) => keeps_withScope _ ?_
  refine (keeps_forM fun l => ?_).bind fun _ => keeps_evaluateBody he _
  exact (keeps_checkHint l).andThen fun _ => keeps_evaluateLocal he l

end Forms

/-! ### Loops -/

section Loops

theorem keeps_takeSignal : Keeps b n .free takeSignal := fun _ => ⟨rfl, trivial⟩

/-- The bindings of a loop get new values in every round. -/
theorem keeps_evaluateRounds {body : FormM Value} (hbody : Keeps true n g body) (rounds : Nat) :
    Keeps true n .free (evaluateRounds body rounds) := by
  induction rounds with
  | zero => exact keeps_outOfFuel
  | succ rounds ih =>
    refine (keeps_withTail_free true hbody).bind fun v => keeps_takeSignal.bind fun signal => ?_
    cases signal with
    | none => exact keeps_pure _
    | some values =>
      have hrebind : Keeps true n .free (do
          let scopes ← FormM.ofExcept ((← get).scopes.rebindTop values)
          modify fun s => { s with scopes }) := by
        refine keeps_changeScopes (fun scopes => scopes.rebindTop values) fun scopes scopes' hscopes => ?_
        dsimp only [Scopes.rebindTop] at hscopes
        split at hscopes
        · cases hscopes
        · rename_i f rest hframes
          split at hscopes
          · cases hscopes
          · cases hscopes
            rw [hframes]
            rfl
      have hnext := hrebind.bind (g := .free) fun _ => ih
      simpa only [bind_assoc] using hnext

/-- A loop ends with no signal. -/
theorem keeps_cleared {x : FormM α} (hx : Keeps b n .free x) :
    Keeps b n .quiet (x.andFinally fun s => { s with recurSignal := none }) := by
  refine keeps_enclosed id (fun _ t => { t with recurSignal := none }) (fun _ => rfl) (fun _ => hx) ?_
  intro s failed t hkept
  refine ⟨hkept.context, ?_⟩
  cases hs : s.recurSignal with
  | none => exact .inl hs.symm
  | some values => exact .inr ⟨by rw [hs]; rfl, rfl⟩

/-- A `recur` is accepted in tail position, for the loop around it and not across a `try`. -/
theorem recurTarget_ok {d : Datum} {k : Nat} {target : LoopTarget} (hrun : recurTarget d k s = .ok target t) :
    t = s ∧ s.tail = true ∧ (∃ rest, s.loops = target :: rest) ∧ target.arity = k ∧
      (s.methods = [] → target.tryDepth = s.tryDepth) := by
  unfold recurTarget at hrun
  rw [State.bind_of_ok (State.get_eq s)] at hrun
  cases hloops : s.loops with
  | nil =>
    rw [hloops] at hrun
    cases hrun
  | cons target' rest =>
    rw [hloops] at hrun
    dsimp only at hrun
    split at hrun
    · cases hrun
    · rename_i htail
      split at hrun
      · cases hrun
      · rename_i harity
        obtain ⟨depth, s₁, hdepth, hrun⟩ := State.ok_of_bind hrun
        split at hrun
        · cases hrun
        · rename_i hsame
          cases hrun
          cases hdepth
          refine ⟨rfl, by simpa using htail, ⟨rest, rfl⟩, Decidable.not_not.mp harity, fun hmethods => ?_⟩
          simpa [hmethods] using hsame

theorem length_evaluateEach {h : Handlers} {args : List Datum} {values : List Value}
    (hrun : evaluateEach h args s = .ok values t) : values.length = args.length := by
  induction args generalizing s values with
  | nil =>
    cases hrun
    rfl
  | cons d rest ih =>
    obtain ⟨v, s₁, -, hrun⟩ := State.ok_of_bind hrun
    obtain ⟨vs, s₂, hrest, hrun⟩ := State.ok_of_bind hrun
    cases hrun
    rw [List.length_cons, List.length_cons, ih hrest]

theorem length_evaluateArgs {h : Handlers} {args : List Datum} {values : List Value}
    (hrun : evaluateArgs h args s = .ok values t) : values.length = args.length := by
  change (evaluateEach h args).andFinally (fun t => { t with tail := s.tail }) { s with tail := false }
    = _ at hrun
  unfold FormM.andFinally at hrun
  split at hrun
  · rename_i hvalues
    cases hrun
    exact length_evaluateEach hvalues
  · cases hrun

variable {h : Handlers} (he : ∀ d, Keeps false false .turning (h.evaluate d))

include he

theorem keeps_evaluateLoop (d : Datum) : Keeps b n .quiet (evaluateLoop h d) := by
  refine (keeps_ofExcept _).andThen fun (locals, body) => keeps_withScope _ ?_
  refine (keeps_forM fun l => keeps_evaluateLocal he l).andThen fun _ => ?_
  refine keeps_tryDepth.andThen fun depth => keeps_cleared ?_
  exact keeps_withLoop_free _ (keeps_evaluateRounds (keeps_evaluateBody he _) _)

/-- A `recur` leaves its values for the loop around it. -/
theorem keeps_evaluateRecur (d : Datum) : Keeps b n .turning (evaluateRecur h d) := by
  intro s
  unfold evaluateRecur
  cases htarget : recurTarget d (argsOf d).length s with
  | error e t =>
    rw [State.bind_of_error htarget]
    exact (keeps_recurTarget d _).passed htarget
  | ok target s' =>
    rw [State.bind_of_ok htarget]
    obtain ⟨rfl, htail, ⟨rest, hloops⟩, harity, hdepth⟩ := recurTarget_ok htarget
    cases hargs : evaluateArgs h (argsOf d) s' with
    | error e t =>
      rw [State.bind_of_error hargs]
      exact (Keeps.of_before (g := .turning) (keeps_evaluateArgs he _)).passed hargs
    | ok values t =>
      rw [State.bind_of_ok hargs]
      refine ⟨((keeps_evaluateArgs he _).ok hargs).context,
        .inr ⟨values, target, rest, rfl, htail, hloops, ?_, ?_⟩⟩
      · rw [harity, length_evaluateArgs hargs]
      · exact fun hs => ⟨hdepth hs.1, rfl⟩

end Loops

/-! ### Exceptions -/

section Exceptions

variable {h : Handlers} (he : ∀ d, Keeps false false .turning (h.evaluate d))

include he

theorem keeps_evaluateThrow (d : Datum) : Keeps b n .quiet (evaluateThrow h d) := by
  refine (keeps_ofExcept _).andThen fun value => ?_
  refine (keeps_evaluateAside he value).andThen fun v => ?_
  split
  · exact keeps_fail _
  · exact keeps_fail _

theorem keeps_evaluateProtected (parts : TryParts) : Keeps b n .turning (evaluateProtected h parts) := by
  refine keeps_catching (keeps_evaluateBody he _) (fun _ => rfl) fun e => ?_
  refine keeps_ite ?_ (keeps_fail _)
  refine (keeps_lift _).bind fun exception => keeps_registry.bind fun r => ?_
  split
  · exact keeps_fail _
  · exact keeps_withScope _ ((keeps_bindName _).bind fun _ => keeps_evaluateBody he _)

theorem keeps_evaluateTry (d : Datum) : Keeps b n .turning (evaluateTry h d) := by
  refine keeps_world.bind fun w => (keeps_ofExcept _).bind fun parts => ?_
  cases hfinally : parts.finally? with
  | none =>
    have htried := keeps_tried (keeps_evaluateProtected (b := b) (n := n) he parts) (keeps_pure ())
    exact htried
  | some body =>
    exact keeps_tried (keeps_evaluateProtected he parts)
      (keeps_withTail_false (keeps_evaluateBody he body).still)

end Exceptions

/-! ### Templates -/

section Templates

mutual

theorem keeps_evaluateElement [Libraries] {h : Handlers} (he : ∀ d, Keeps false false .turning (h.evaluate d)) :
    ∀ d : Datum, Keeps b true .quiet (Template.evaluateElement h d)
  | .atom a i => by
    cases a with
    | symbol name => exact (keeps_qualify name).andThen fun _ => keeps_pure _
    | _ => exact keeps_pure _
  | .list items i => by
    unfold Template.evaluateElement
    split
    · exact (keeps_evaluateAside he _).andThen fun _ => keeps_pure _
    · exact (keeps_evaluateItems he items).andThen fun _ => keeps_pure _
  | .vector items _ => (keeps_evaluateItems he items).andThen fun _ => keeps_pure _
  | .set items _ => (keeps_evaluateItems he items).andThen fun _ => keeps_pure _
  | .map entries _ => (keeps_evaluateEntries he _ entries).andThen fun _ => keeps_pure _

theorem keeps_evaluateItems [Libraries] {h : Handlers} (he : ∀ d, Keeps false false .turning (h.evaluate d)) :
    ∀ ds : List Datum, Keeps b true .quiet (Template.evaluateItems h ds)
  | [] => keeps_pure _
  | d :: ds => by
    refine (keeps_evaluateElement he d).andThen fun (v, splice) => ?_
    have hrest : ∀ vs, Keeps b true .quiet (do return vs ++ (← Template.evaluateItems h ds)) :=
      fun vs => (keeps_evaluateItems he ds).andThen fun _ => keeps_pure _
    refine keeps_ite ?_ (hrest _)
    split
    · exact hrest _
    · exact (keeps_fail _).bind fun vs => hrest vs

theorem keeps_evaluateEntries [Libraries] {h : Handlers} (he : ∀ d, Keeps false false .turning (h.evaluate d))
    (misplaced : Error) :
    ∀ es : List (Datum × Datum), Keeps b true .quiet (Template.evaluateEntries h misplaced es)
  | [] => keeps_pure _
  | (k, v) :: es => by
    refine (keeps_evaluateElement he k).andThen fun (key, keySplice) => ?_
    refine (keeps_evaluateElement he v).andThen fun (value, valueSplice) => ?_
    have hrest : Keeps b true .quiet
        (do return (key, value) :: (← Template.evaluateEntries h misplaced es)) :=
      (keeps_evaluateEntries he misplaced es).andThen fun _ => keeps_pure _
    exact keeps_ite ((keeps_fail _).bind fun _ => hrest) hrest

end

theorem keeps_evaluateTemplate [Libraries] {h : Handlers} (he : ∀ d, Keeps false false .turning (h.evaluate d))
    (d : Datum) : Keeps b n .quiet (Template.evaluate h d) := by
  refine (keeps_ofExcept _).andThen fun template => keeps_withNames ?_
  refine (keeps_evaluateElement he template).andThen fun (v, splice) => ?_
  exact keeps_ite ((keeps_fail _).bind fun _ => keeps_pure _) (keeps_pure _)

end Templates

/-! ### Functions, types and definitions -/

section Definitions

theorem keeps_evaluateProtocol [Libraries] (d : Datum) : Keeps b n g (evaluateProtocol d) :=
  (keeps_defineProtocol d).bind fun _ => keeps_pure _

theorem keeps_evaluateInSpace (d : Datum) : Keeps b n g (evaluateInSpace d) :=
  (keeps_ofExcept _).bind fun _ => (keeps_lift _).bind fun _ => keeps_pure _

theorem keeps_evaluateImport (d : Datum) : Keeps b n g (evaluateImport d) := by
  refine (keeps_importAll _).bind fun names => ?_
  split <;> exact keeps_pure _

theorem keeps_evaluateSpaceForm (d : Datum) : Keeps b n g (evaluateSpaceForm d) :=
  (keeps_ofExcept _).bind fun form => (keeps_enterForm d form).bind fun _ => keeps_pure _

variable {h : Handlers} (hc : ∀ d, Keeps false false .fixed (h.compile d))
  (he : ∀ d, Keeps false false .turning (h.evaluate d))

section Classes

include hc

theorem keeps_interpretedFn [Libraries] (d : Datum) : Keeps b n g (interpretedFn h d) := by
  refine keeps_world.bind fun w => keeps_get.bind fun s => keeps_get.bind fun s' => ?_
  split
  · exact keeps_pure _
  · refine (keeps_defineFn hc d).bind fun (cls, captures) => ?_
    refine Keeps.bind (keeps_modify ?_ ?_) fun _ => keeps_pure _
    · exact fun _ => rfl
    · exact fun _ => rfl

theorem keeps_evaluateFn [Libraries] (d : Datum) : Keeps b n g (evaluateFn h d) :=
  (keeps_interpretedFn hc d).bind fun _ => (keeps_captureValues _).bind fun _ => keeps_lift _

theorem keeps_evaluateType [Libraries] (d : Datum) : Keeps b n g (evaluateType h d) :=
  (keeps_defineType hc d).bind fun _ => keeps_pure _

include he

theorem keeps_evaluateProxy [Libraries] (d : Datum) : Keeps b n .quiet (evaluateProxy h d) := by
  refine (keeps_defineProxy hc d).andThen fun p => ?_
  refine (keeps_evaluateArgs he _).andThen fun values => ?_
  exact keeps_registry.bind fun _ => (keeps_captureValues _).bind fun _ => keeps_lift _

end Classes

include he

theorem keeps_evaluateDef (d : Datum) : Keeps b n .quiet (evaluateDef h d) := by
  refine (keeps_ofExcept _).andThen fun p => ?_
  refine (keeps_internTarget _ _).andThen fun v => ?_
  have hrest : ∀ value, Keeps b n .quiet (do
      FormM.lift (modify fun w => w.define v value (.ofFlags p.target.flags))
      return Value.var v) :=
    fun value => (keeps_lift _).bind fun _ => keeps_pure _
  split
  · exact ((keeps_evaluateAside he _).map (g := .quiet) some).bind fun value => hrest value
  · exact hrest none

theorem keeps_evaluateSet (d : Datum) : Keeps b n .quiet (evaluateSet h d) := by
  refine (keeps_ofExcept _).andThen fun (target, name, value) => ?_
  refine (keeps_resolve name).bind fun r => ?_
  split
  · refine keeps_world.bind fun w => (keeps_ofExcept _).bind fun _ => ?_
    refine (keeps_evaluateAside he value).andThen fun result => ?_
    exact (keeps_lift _).bind fun _ => keeps_pure _
  · exact keeps_fail _

/-! ### Members -/

theorem keeps_evaluateNew (d : Datum) : Keeps b n .quiet (evaluateNew h d) :=
  (keeps_newParts d).andThen fun (_, _) =>
    (keeps_evaluateArgs he _).andThen fun _ => keeps_lift _

theorem keeps_evaluateStaticMember (d : Datum) (c : ClassInfo) (m : Member) :
    Keeps b n .quiet (evaluateStaticMember h d c m) := by
  refine keeps_registry.andThen fun r => ?_
  split
  · split
    · exact keeps_pure _
    · exact keeps_fail _
  · exact keeps_fail _
  · exact (keeps_evaluateArgs he _).andThen fun _ => keeps_lift _

theorem keeps_evaluateInstanceMember (m : Member) : Keeps b n .quiet (evaluateInstanceMember h m) := by
  refine (keeps_evaluateAside he _).andThen fun receiver => ?_
  split
  · split
    · exact keeps_lift _
    · exact keeps_fail _
  · exact (keeps_evaluateArgs he _).andThen fun _ => keeps_lift _

theorem keeps_evaluateDot (d : Datum) : Keeps b n .quiet (evaluateDot h d) := by
  refine (keeps_ofExcept _).andThen fun m => (keeps_staticTarget? _).bind fun target => ?_
  split
  · exact keeps_evaluateStaticMember he d _ m
  · exact keeps_evaluateInstanceMember he m

theorem keeps_evaluateInstanceTest (d : Datum) : Keeps b n .quiet (evaluateInstanceTest h d) := by
  refine (keeps_instanceTestParts d).andThen fun (c, value) => ?_
  refine (keeps_evaluateAside he value).andThen fun v => ?_
  exact keeps_registry.bind fun _ => keeps_pure _

end Definitions

/-! ### All forms -/

section AllForms

variable {h : Handlers} (hc : ∀ d, Keeps false false .fixed (h.compile d))
  (he : ∀ d, Keeps false false .turning (h.evaluate d))

include hc he

theorem keeps_evaluateSpecial [Libraries] (f : SpecialForm) (d : Datum) : Keeps b n .turning
    (evaluateSpecial h f d) := by
  cases f with
  | quote => exact (keeps_ofExcept _).bind fun _ => keeps_pure _
  | syntaxQuote => exact .of_before (keeps_evaluateTemplate he d)
  | unquote => exact keeps_fail _
  | unquoteSplicing => exact keeps_fail _
  | ifForm => exact keeps_evaluateIf he d
  | doForm => exact keeps_evaluateBody he _
  | letForm => exact keeps_evaluateLet he d
  | loopForm => exact .of_before (keeps_evaluateLoop he d)
  | recurForm => exact keeps_evaluateRecur he d
  | caseForm => exact keeps_evaluateCase he d
  | throwForm => exact .of_before (keeps_evaluateThrow he d)
  | tryForm => exact keeps_evaluateTry he d
  | fnForm => exact keeps_evaluateFn hc d
  | typeForm => exact keeps_evaluateType hc d
  | protocolForm => exact keeps_evaluateProtocol d
  | proxyForm => exact .of_before (keeps_evaluateProxy hc he d)
  | newForm => exact .of_before (keeps_evaluateNew he d)
  | dotForm => exact .of_before (keeps_evaluateDot he d)
  | instanceForm => exact .of_before (keeps_evaluateInstanceTest he d)
  | defForm => exact .of_before (keeps_evaluateDef he d)
  | defMacro => exact (keeps_ofExcept _).bind fun _ => keeps_evaluate he _
  | setForm => exact .of_before (keeps_evaluateSet he d)
  | varForm => exact (keeps_namedVar d).bind fun _ => keeps_pure _
  | nsForm => exact keeps_evaluateSpaceForm d
  | inNsForm => exact keeps_evaluateInSpace d
  | importForm => exact keeps_evaluateImport d

theorem keeps_evaluateCall [Libraries] (head : Datum) (args : List Datum) (d : Datum) :
    Keeps b n .turning (evaluateCall h head args d) := by
  refine (keeps_expand _ d).bind fun (expansion, _) => keeps_ite (keeps_evaluate he _) ?_
  refine (keeps_calleeOf head).bind fun callee => ?_
  split
  · exact keeps_evaluateSpecial hc he _ d
  · refine keeps_world.bind fun w => (keeps_ofExcept _).bind fun _ => (keeps_ofExcept _).bind fun callee => ?_
    exact (keeps_evaluateArgs he args).bind fun _ => keeps_lift _
  · refine (keeps_evaluateAside he head).bind fun callee => ?_
    exact (keeps_evaluateArgs he args).bind fun _ => keeps_lift _

/-- Evaluating a form puts back its surroundings if evaluating and compiling its parts does. -/
theorem keeps_evaluateForm [Libraries] (d : Datum) : Keeps b n .turning (evaluateForm h d) := by
  refine Keeps.atSpan ?_ _
  split
  · exact keeps_evaluateSymbol _
  · exact keeps_pure _
  · exact keeps_pure _
  · exact keeps_evaluateCall hc he _ _ _
  · exact .of_before (keeps_evaluateCollection he _)

end AllForms

/-! ### All depths -/

theorem keeps_handlers [Libraries] (fuel : Nat) :
    (∀ d, Keeps false false .fixed ((handlers fuel).compile d)) ∧
      ∀ d, Keeps false false .turning ((handlers fuel).evaluate d) := by
  induction fuel with
  | zero => exact ⟨fun _ => keeps_outOfFuel, fun _ => keeps_outOfFuel⟩
  | succ fuel ih => exact ⟨keeps_compileForm ih.1, keeps_evaluateForm ih.1 ih.2⟩

section Pending

end Pending

end LispMachine.Keeping
