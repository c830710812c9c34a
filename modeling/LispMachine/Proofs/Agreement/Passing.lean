import LispMachine.Session
import LispMachine.Proofs.Agreement.Proxies
import LispMachine.Proofs.Emission.Finally
import LispMachine.Proofs.Machine.Conversions

/-! # Errors on their way through `finally`

While `finally` runs, an interpreted `try` keeps the error that got out of its body, and raises it again behind.
Compiled code keeps the exception of the error in a local, and throws that.  So the two let through the same error
just if it throws a value; any other error leaves compiled code as an exception object that is thrown
(`error_behind_finally`). -/

namespace LispMachine.Machine

/-! ### The exception of an error -/

section Exceptions

variable {call : Caller} {e : Error} {exception : Value} {w w' : World}

/-- The exception of an error that throws no value is an object. -/
theorem exceptionOf_failure {kind : ErrorKind} {message : String} (hcause : e.cause = .failure kind message)
    (h : exceptionOf call e w = .ok exception w') : ∃ o, exception = .object o := by
  have hmade : ∀ cls, makeException call cls message w = .ok exception w' → ∃ o, exception = .object o := by
    intro cls hmade
    obtain ⟨_, _, _, -, -, -, hobject, -⟩ := newInstance_ok hmade
    exact ⟨_, hobject⟩
  rw [exceptionOf, hcause] at h
  cases kind with
  | linkage | arity | runtime => exact hmade _ h
  | _ => cases h

theorem exceptionOf_thrown {v : Value} (hcause : e.cause = .thrown v) (h : exceptionOf call e w = .ok exception w') :
    exception = v := by
  rw [exceptionOf, hcause] at h
  cases h
  rfl

/-- Throwing the exception of an error once more raises the same as the error just if that throws a value. -/
theorem rethrown_cause_iff (h : exceptionOf call e w = .ok exception w') :
    (rethrown exception).cause = e.cause ↔ ∃ v, e.cause = .thrown v ∧ v.isNil = false := by
  cases hcause : e.cause with
  | failure kind message =>
    obtain ⟨o, rfl⟩ := exceptionOf_failure hcause h
    refine ⟨fun heq => ?_, nofun⟩
    cases heq
  | thrown v =>
    obtain rfl := exceptionOf_thrown hcause h
    cases hnil : exception.isNil with
    | false => exact ⟨fun _ => ⟨_, rfl, hnil⟩, fun _ => by rw [rethrown, hnil]; rfl⟩
    | true =>
      refine ⟨fun heq => ?_, ?_⟩
      · rw [rethrown, if_pos hnil] at heq
        cases heq
      · rintro ⟨_, heq, hnot⟩
        cases heq
        rw [hnil] at hnot
        cases hnot

end Exceptions

/-! ### Compiled code -/

/-- An error leaves a range of code: an instruction fails with it, and no handler in force there leads back. -/
structure GetsOut [Libraries] (call : Caller) (body : Body) (first last : Nat) (e : Error) (s : Running) : Prop where
  fails : ∃ i t, body.code.instructions[s.frame.pc]? = some i ∧ step call body i s = .error (.error e) t
  out : ∀ handler ∈ body.code.handlers, handler.covers s.frame.pc = true →
    ¬(first ≤ handler.target ∧ handler.target < last)

/-- The method at the start of the copy of `finally` for a pending exception: it is kept in its slot. -/
def TryLayout.keeping (L : TryLayout) (s : Running) (exception : Value) : Running :=
  (s.handled (L.body.handler L.pending none L.depth) exception).stored L.held exception
    (s.frame.stack.drop (s.frame.stack.length - L.depth))

section Code

variable {call : Caller} {body : Body} {L : TryLayout} {kept : List Nat} {own : List Handler} {first last : Nat}
  {ends : Bool} {s t u w : Running} {path front copy : List Nat} {e : Error} {exception : Value}

theorem goesOn_store [Libraries] {slot : Nat} {v : Value} {rest : List Value}
    (hi : body.code.instructions[s.frame.pc]? = some (.store slot .any)) (hstack : s.frame.stack = v :: rest) :
    GoesOn call body s (s.stored slot v rest) := by
  have hslots : s.frame.stack = [v] ++ rest := hstack
  exact .next hi (step_store rfl hslots)

/-- What gets to the end of a stretch shows that control gets there. -/
theorem Stretch.ends_of_inside [Libraries] (h : Stretch body.code kept own first last ends)
    (hi : Inside call body own first last s path t) (hs : Reaches first last ends s.frame.pc)
    (ht : t.frame.pc = last) : ends = true := by
  induction hi with
  | refl s =>
    rcases hs.2 with hlt | ⟨-, hends⟩
    · omega
    · exact hends
  | goes hs' hgoes _ ih => exact ih (h.goesOn hs' hgoes).1 ht
  | handled _ _ _ hown _ ih => exact ih (h.handlers _ hown).2.2 ht

/-- An error that gets out of the body, and that no clause takes, is pending: its exception is put into the slot for
it. -/
theorem TryLayout.Laid.keeps [Libraries] (hl : L.Laid body.code) (hfails : Fails call body L.body s front e exception u)
    (hnone : (L.clauses.find? fun c => u.world.registry.instanceOf exception c.1) = none) :
    Travels call body s (front ++ [L.pending]) (L.keeping u exception) := by
  obtain ⟨h⟩ := hfails
  have hown := h.escapes
  rw [Running.handler?, h.raises.pinned.1] at hown
  have htaken : u.handler? body.code exception = some (L.body.handler L.pending none L.depth) := by
    rw [Running.handler?, h.raises.pinned.1,
      hl.body_handler ⟨h.inside.1, Part.lt_last_of_stored h.inside.2⟩ hown, hnone]
  have hraised := h.stays.travels.trans (.move (h.raises.move htaken) (.refl _))
  exact hraised.trans (.move (.goes (goesOn_store hl.hold rfl)) (.refl _))

/-- Once `finally` has come to its end for a pending exception, the exception is thrown and leaves the form. -/
theorem TryLayout.Laid.rethrows [Libraries] (hl : L.Laid body.code) (hheld : L.held < s.frame.locals.size)
    (hfails : Fails call body L.body s front e exception u)
    (hnone : (L.clauses.find? fun c => u.world.registry.instanceOf exception c.1) = none)
    (hcopy : Inside call body L.copyOwn (L.pending + 1) L.copied (L.keeping u exception) copy w)
    (hw : w.frame.pc = L.copied) :
    ∃ t, Travels call body s (front ++ L.pending :: (copy ++ [L.copied])) t ∧ t.world = w.world ∧
      GetsOut call body L.entry L.exit (rethrown exception) t := by
  have hthrough : L.through = true := hl.copy.ends_of_inside hcopy hl.copy.enters hw
  obtain ⟨hload, hthrow⟩ := hl.rethrow hthrough
  have hstays := hl.copy.stays hcopy
  have hkept : w.frame.locals[L.held]? = some exception := by
    rw [hstays.kept _ (List.mem_singleton_self _)]
    exact Array.getElem?_setIfInBounds_self_of_lt (hfails.size ▸ hheld)
  rw [← hw] at hload
  have hloaded : GoesOn call body w (w.withStack (exception :: w.frame.stack)).next :=
    .next hload (step_load hkept .any)
  have hpc : (w.withStack (exception :: w.frame.stack)).next.frame.pc = L.copied + 1 := congrArg (· + 1) hw
  refine ⟨(w.withStack (exception :: w.frame.stack)).next, ?_, rfl, ⟨_, _, hpc ▸ hthrow, step_throwTop rfl⟩,
    fun handler hmem hcovers => ?_⟩
  · have hrun := ((hl.keeps hfails hnone).trans hstays.travels).trans (.move (.goes hloaded) (.refl _))
    simpa [hw] using hrun
  · have hle := hl.copy.enters.le
    rcases hl.pending_handler (by omega) hmem hcovers with hown | hlater
    · have hrange := hl.copy.handlers handler hown
      have hcovered := covers_iff.mp hcovers
      omega
    · exact hl.later handler hlater

end Code

end LispMachine.Machine

namespace LispMachine.Agreement

open Form Emission Machine

/-! ### Interpreted forms -/

/-- No clause takes an error that got out of a body; if there are clauses, its exception has been made to see. -/
inductive Unclaimed (h : Handlers) (clauses : List CatchClause) (e : Error) (s : FormState) : FormState → Prop where
  | nobody (hnone : clauses = []) : Unclaimed h clauses e s s
  | others {exception : Value} {t : FormState} (hsome : clauses ≠ [])
      (hmade : FormM.lift (exceptionOf h.call e) s = .ok exception t)
      (hnone : (clauses.find? fun c => t.world.registry.instanceOf exception c.cls) = none) :
      Unclaimed h clauses e s t

section Interpreted

variable {h : Handlers} {s t u w : FormState} {e : Error} {v : Value} {d : Datum} {parts : TryParts}
  {final : List Datum}

theorem evaluateProtected_of_unclaimed (hcatchable : e.isCatchable = true)
    (hbody : evaluateBody h parts.body s = .error (.error e) t) (hun : Unclaimed h parts.catches e t u) :
    evaluateProtected h parts s = .error (.error e) u := by
  have hattempt : attempt (evaluateBody h parts.body) s = .ok (.error e) t := by
    rw [attempt, hbody]
  rw [evaluateProtected, State.bind_of_ok hattempt]
  cases hun with
  | nobody hnone =>
    simp only [hnone, List.isEmpty_nil, Bool.not_true, Bool.and_false, Bool.false_eq_true, ↓reduceIte]
    rfl
  | others hsome hmade hnone =>
    have hclauses : (e.isCatchable && !parts.catches.isEmpty) = true := by simp [hcatchable, hsome]
    have hregistry : FormM.registry u = .ok u.world.registry u := rfl
    simp only [hclauses, ↓reduceIte]
    rw [State.bind_of_ok hmade, State.bind_of_ok hregistry, hnone]
    rfl

/-- An error of the body that no clause takes leaves an interpreted `try` as it is once `finally` has come to its
end. -/
theorem evaluateTry_of_unclaimed (hparts : tryParts s.world d = .ok parts) (hfinal : parts.finally? = some final)
    (hcatchable : e.isCatchable = true)
    (hbody : evaluateBody h parts.body { s with tryDepth := s.tryDepth + 1 } = .error (.error e) t)
    (hun : Unclaimed h parts.catches e t u)
    (hdone : FormM.withTail false (evaluateBody h final) { u with tryDepth := u.tryDepth - 1 } = .ok v w) :
    evaluateTry h d s = .error (.error e) w := by
  have hworld : FormM.world s = .ok s.world s := rfl
  have hsplit : FormM.ofExcept (tryParts s.world d) s = .ok parts s := by rw [hparts]; rfl
  have hattempt : attempt (evaluateProtected h parts) { s with tryDepth := s.tryDepth + 1 } = .ok (.error e) u := by
    rw [attempt, evaluateProtected_of_unclaimed hcatchable hbody hun]
  have hdeeper : (modify fun s => { s with tryDepth := s.tryDepth + 1 } : FormM Unit) s
      = .ok () { s with tryDepth := s.tryDepth + 1 } := rfl
  have hback : (modify fun s => { s with tryDepth := s.tryDepth - 1 } : FormM Unit) u
      = .ok () { u with tryDepth := u.tryDepth - 1 } := rfl
  rw [evaluateTry, State.bind_of_ok hworld, State.bind_of_ok hsplit, State.bind_of_ok hdeeper,
    State.bind_of_ok hattempt, State.bind_of_ok hback, hfinal]
  exact State.bind_of_ok hdone

end Interpreted

/-! ### Both modes -/

/-- An error of the body of a `try` that no clause takes, once `finally` has come to its end.  Compiled code throws the
exception of the error and is left by that; interpreted code is left by the error itself.  So both are left by the
same error just if it throws a value that is not `nil`. -/
theorem error_behind_finally [Libraries] (fuel : Nat) {d : Datum} {parts : TryParts} {s t : FormState} {u : Unit}
    {b : CodeBuffer}
    {body : Body} (hmid : Midway [] (view s)) (hwatched : Watched (view s)) (hlive : (view s).reach ≠ none)
    (hparts : tryParts s.world d = .ok parts) (hfinal : parts.finally?.isSome = true)
    (hrun : compileTry (handlers fuel) d s = .ok u t) (hcode : Finished b body.code)
    (hb : Retains (view s).code (view t).code b) :
    ∃ L, TryCode (handlers fuel) b body.code parts L ∧ L.entry = positionIn b (view s) ∧
      L.exit = positionIn b (view t) ∧
      ∀ (call : Caller) (r r₁ r₂ : Running) (front copy : List Nat) (e : Error) (exception : Value),
        r.frame.pc = L.entry → r.frame.locals.size = body.code.maxLocals →
        Fails call body L.body r front e exception r₁ →
        (L.clauses.find? fun c => r₁.world.registry.instanceOf exception c.1) = none →
        Inside call body L.copyOwn (L.pending + 1) L.copied (L.keeping r₁ exception) copy r₂ →
        r₂.frame.pc = L.copied →
        (∃ r₃, Travels call body r (front ++ L.pending :: (copy ++ [L.copied])) r₃ ∧ r₃.world = r₂.world ∧
          GetsOut call body L.entry L.exit (rethrown exception) r₃) ∧
        ∀ (h : Handlers) (s₀ s₁ s₂ s₃ : FormState) (e' : Error) (parts' : TryParts) (final : List Datum) (v : Value),
          e'.cause = e.cause → tryParts s₀.world d = .ok parts' → parts'.finally? = some final →
          evaluateBody h parts'.body { s₀ with tryDepth := s₀.tryDepth + 1 } = .error (.error e') s₁ →
          Unclaimed h parts'.catches e' s₁ s₂ →
          FormM.withTail false (evaluateBody h final) { s₂ with tryDepth := s₂.tryDepth - 1 } = .ok v s₃ →
          evaluateTry h d s₀ = .error (.error e') s₃ ∧
            ((rethrown exception).cause = e'.cause ↔ ∃ v, e'.cause = .thrown v ∧ v.isNil = false) := by
  obtain ⟨L, hL, hentry, hexit⟩ := compileTry_laid (compiles_handlers fuel) (fun F => respects_handlers F fuel) hmid
    hwatched hlive hparts hfinal hrun hcode hb
  refine ⟨L, hL, hentry, hexit, fun call r r₁ r₂ front copy e exception hpc hsize hfails hnone hcopy hend => ?_⟩
  refine ⟨hL.laid.rethrows (hsize ▸ hL.held) hfails hnone hcopy hend, ?_⟩
  intro h s₀ s₁ s₂ s₃ e' parts' final v hcause hparts' hfinal' hbody hun hdone
  obtain ⟨⟨_, _, hraises, _⟩⟩ := hfails
  have hcatchable : e'.isCatchable = true := by
    rw [Error.isCatchable, hcause]
    exact hraises.catchable
  obtain ⟨i, r', -, -, hmade, -⟩ := hraises.fails
  refine ⟨evaluateTry_of_unclaimed hparts' hfinal' hcatchable hbody hun hdone, ?_⟩
  rw [hcause]
  exact rethrown_cause_iff hmade

/-! ### Single forms -/

section Instances

/-- A world with three of the built-in names, in whose namespace the work is done. -/
def smallWorld : World :=
  ((({ registry := Host.registry, current := Names.coreSpace } : World).defineCore "try" (.special .tryForm)).defineCore
    "throw" (.special .throwForm)).defineCore "/" (.function (.native .div))

/-- A method to compile into, in that world. -/
def smallMethod : FormState := { methodAlone with world := smallWorld }

/-- The form `(try (throw "a") (finally))`. -/
def thrownText : Datum :=
  .ofList [.symbol "try" default, .ofList [.symbol "throw" default, .ofAtom (.str "a") default] default,
    .ofList [.symbol "finally" default] default] default

/-- The code of `thrownText`. -/
def thrownCode : List Instruction :=
  [.const (.str "a"), .throwTop, .store 1 .any, .const .nil, .pop, .load 1 .any, .throwTop, .ret .any]

/-- Whether some code is that of `thrownText`. -/
def isThrowing (code : Code) : Bool :=
  match code.instructions.toList with
  | [.const (.str a), .throwTop, .store 1 .any, .const .nil, .pop, .load 1 .any, .throwTop, .ret .any] =>
    a == "a" && code.handlers == [⟨0, 2, 2, none, 0⟩] && code.maxLocals == 2
  | _ => false

theorem isThrowing_iff {code : Code} (h : isThrowing code = true) :
    code.instructions.toList = thrownCode ∧ code.handlers = [⟨0, 2, 2, none, 0⟩] ∧ code.maxLocals = 2 := by
  unfold isThrowing at h
  split at h
  · rename_i a hcode
    simp only [Bool.and_eq_true, beq_iff_eq] at h
    obtain ⟨⟨rfl, hhandlers⟩, hlocals⟩ := h
    exact ⟨hcode, hhandlers, hlocals⟩
  · cases h

/-- The handler of pending exceptions watches over the body; if it is the only one, there are no clauses. -/
theorem laid_single {L : TryLayout} {code : Code} {handler : Handler} (hl : L.Laid code)
    (hhandlers : code.handlers = [handler]) :
    L.body.handler L.pending none L.depth = handler ∧ L.clauses = [] ∧ L.body.own = [] ∧ L.copyOwn = [] := by
  have hall := hl.handlers.symm.trans hhandlers
  have hmem : L.body.handler L.pending none L.depth ∈ L.earlier ++ (L.handlers ++ L.later) := by
    simp [TryLayout.handlers, TryLayout.parts]
  rw [hall, List.mem_singleton] at hmem
  have hlength := congrArg List.length hall
  simp only [TryLayout.handlers, TryLayout.parts, List.length_append, List.length_map, List.length_cons,
    List.length_nil] at hlength
  refine ⟨hmem, List.eq_nil_of_length_eq_zero ?_, List.eq_nil_of_length_eq_zero ?_,
    List.eq_nil_of_length_eq_zero ?_⟩ <;> omega

/-- Items without holes come to the instructions among them. -/
theorem flat_of_holes_nil (p : Blueprint) {items : List CodeBuffer.Item} (h : holesOf items = []) :
    flat p items = instructionsOf items := by
  induction items with
  | nil => rfl
  | cons item rest ih =>
    cases item with
    | instruction i => exact congrArg (i :: ·) (ih h)
    | label l => exact ih h
    | hole n => cases h

/-- Code that is appended takes as many positions as it has instructions. -/
theorem positionIn_of_adds {v w : View} {code : List Instruction} (h : Adds v w code) (b : CodeBuffer) :
    positionIn b w = positionIn b v + code.length := by
  obtain ⟨items, hitems, hcode, hholes⟩ := h.items
  rw [positionIn, hitems, place_append, flat_of_holes_nil _ hholes, hcode]
  rfl

/-- Nothing is emitted where control does not get. -/
theorem view_emit_dead {i : Instruction} {s t : FormState} {u : Unit} (hrun : FormM.emit i s = .ok u t)
    (hdead : (view s).stack.isUnreachable = true) : view t = view s := by
  rcases emit_run hrun with ⟨-, hview⟩ | ⟨hlive, -⟩
  · exact hview
  · cases hdead.symm.trans hlive

/-- A `finally` without forms takes two instructions, where control gets there. -/
theorem position_finally {h : Handlers} {b : CodeBuffer} {s t : FormState}
    (hrun : compileFinally h (some []) s = .ok () t) :
    positionIn b (view t) = positionIn b (view s) ∨ positionIn b (view t) = positionIn b (view s) + 2 := by
  obtain ⟨⟨⟩, s₁, h₁, hrun⟩ := State.ok_of_bind hrun
  obtain ⟨t₁, ht₁, rfl⟩ := withTail_run h₁
  obtain ⟨top, s₂, h₂, hdrop⟩ := State.ok_of_bind hrun
  obtain ⟨rfl, rfl⟩ := topType_ok h₂
  cases hdead : (view s).stack.isUnreachable with
  | false =>
    have hpushes : Pushes #[] { s with tail := false } t₁ [.const .nil] .any fun _ => True :=
      pushes_constant hdead (fun _ _ _ => trivial) ht₁
    have htop : (view { t₁ with tail := s.tail }).stack.topType? = some .any := hpushes.topType
    rw [htop] at hdrop
    have hpop : FormM.emit .pop { t₁ with tail := s.tail } = .ok () t := hdrop
    have hlive : (view { t₁ with tail := s.tail }).stack.isUnreachable = false := hpushes.live hdead
    obtain ⟨hadds, -⟩ := adds_emit hlive hpop
    exact .inr ((positionIn_of_adds hadds b).trans (congrArg (· + 1) (positionIn_of_adds hpushes.adds b)))
  | true =>
    obtain ⟨⟨⟩, s₃, h₃, hmark⟩ := State.ok_of_bind ht₁
    have hview : view s₃ = view { s with tail := false } := view_emit_dead h₃ hdead
    have hmarked := modifyStack_ok hmark
    have hdead₁ : (view { t₁ with tail := s.tail }).stack.isUnreachable = true := by
      have hmark₁ : (view t₁).stack.isUnreachable = true := by
        rw [hmarked, View.stack_update, isUnreachable_markConstant, hview]
        exact hdead
      exact hmark₁
    have hcode₁ : (view { t₁ with tail := s.tail }).code = (view s).code := by
      have hsame : (view t₁).code = (view s).code := by
        rw [hmarked, hview]
        rfl
      exact hsame
    have hsame : view t = view { t₁ with tail := s.tail } := by
      generalize Option.map Ty.width (view { t₁ with tail := s.tail }).stack.topType? = width at hdrop
      split at hdrop
      · exact view_emit_dead hdrop hdead₁
      · exact view_emit_dead hdrop hdead₁
      · cases hdrop
        rfl
    exact .inl (by rw [positionIn, positionIn, hsame, hcode₁])

/-- The only layout of `thrownText`. -/
theorem thrownText_layout {b : CodeBuffer} {code : Code} {parts : TryParts} {L : TryLayout} {h : Handlers}
    (hlist : code.instructions.toList = thrownCode) (hhandlers : code.handlers = [⟨0, 2, 2, none, 0⟩])
    (hfinal : parts.finally? = some []) (hL : TryCode h b code parts L) :
    L.body.first = 0 ∧ L.body.stored = 2 ∧ L.body.own = [] ∧ L.clauses = [] ∧ L.pending = 2 ∧ L.held = 1 ∧
      L.copied = 5 ∧ L.copyOwn = [] := by
  have hi (n : Nat) : code.instructions[n]? = thrownCode[n]? := by rw [← Array.getElem?_toList, hlist]
  obtain ⟨hhandler, hclauses, hown, hcopyOwn⟩ := laid_single hL.laid hhandlers
  simp only [Part.handler, Handler.mk.injEq] at hhandler
  obtain ⟨hfirst, hlast, hpending, -, -⟩ := hhandler
  have hbody := hL.laid.parts L.body (List.mem_cons_self ..)
  have hstored : L.body.stored = 2 := by
    cases hends : L.body.ends with
    | false => simpa [Part.last, hends] using hlast
    | true =>
      have heq : L.body.stored = 1 := by simpa [Part.last, hends] using hlast
      have hstore := hbody.store hends
      rw [heq, hi] at hstore
      cases hstore
  have hheld : L.held = 1 := by
    have hhold := hL.laid.hold
    rw [hpending, hi] at hhold
    exact (Instruction.store.inj (Option.some.inj hhold)).1.symm
  have hcopied : L.copied = 5 := by
    obtain ⟨s₁, t₁, hrun, -, hstart, hend⟩ := hL.pending
    rw [hfinal] at hrun
    rcases position_finally (b := b) hrun with heq | heq
    · -- control gets through a copy of no instructions, and the exception would have to be loaded at its start
      have hnone : L.copied = L.pending + 1 := by rw [← hend, heq, hstart]
      have hthrough : L.through = true := by
        rcases hL.laid.copy.enters.2 with hlt | ⟨-, hthrough⟩
        · omega
        · exact hthrough
      have hload := (hL.laid.rethrow hthrough).1
      rw [hnone, hpending, hi] at hload
      cases hload
    · rw [← hend, heq, hstart, hpending]
  exact ⟨hfirst, hstored, hown, hclauses, hpending, hheld, hcopied, hcopyOwn⟩

/-- A running method with two locals. -/
def thrownFrame (pc : Nat) (stack : List Value) (held : Value) : Running :=
  ⟨{ pc, stack, locals := #[.nil, held] }, {}⟩

theorem thrownFrame_goesOn [Libraries] {call : Caller} {code : Code} {i : Instruction} {pc : Nat}
    {stack stack' : List Value}
    {held : Value} (hi : code.instructions[pc]? = some i)
    (hs : step call ⟨code, [], 0⟩ i (thrownFrame pc stack held) = .ok .next (thrownFrame pc stack' held)) :
    GoesOn call ⟨code, [], 0⟩ (thrownFrame pc stack held) (thrownFrame (pc + 1) stack' held) := .next hi hs

/-- The body of `thrownText` throws its text. -/
theorem thrownText_fails [Libraries] {code : Code} (hlist : code.instructions.toList = thrownCode) {p : Part}
    (hfirst : p.first = 0)
    (hstored : p.stored = 2) (hown : p.own = []) (call : Caller) :
    Fails call ⟨code, [], 0⟩ p (thrownFrame 0 [] .nil) ([0] ++ [1]) (Error.thrown (.str "a")) (.str "a")
      (thrownFrame 1 [] .nil) := by
  have hi (n : Nat) : code.instructions[n]? = thrownCode[n]? := by rw [← Array.getElem?_toList, hlist]
  have hconst : GoesOn call ⟨code, [], 0⟩ (thrownFrame 0 [] .nil) (thrownFrame 1 [.str "a"] .nil) :=
    thrownFrame_goesOn (hi 0) rfl
  refine .intro (u := thrownFrame 1 [.str "a"] .nil) ⟨?_, ?_, ⟨rfl, _, _, hi 1, rfl, rfl, rfl⟩, ?_⟩
  · refine .move (.goes hconst) ?_ rfl (fun _ h => nomatch h) (.refl _)
    simp [thrownFrame, hfirst, hstored]
  · simp [thrownFrame, hfirst, hstored]
  · rw [hown]
    exact fun _ _ => List.not_mem_nil

/-- `finally` comes to its end for that. -/
theorem thrownText_finally [Libraries] {code : Code} (hlist : code.instructions.toList = thrownCode)
    (own : List Handler)
    (call : Caller) : Inside call ⟨code, [], 0⟩ own 3 5 (thrownFrame 3 [] (.str "a")) [3, 4]
      (thrownFrame 5 [] (.str "a")) := by
  have hi (n : Nat) : code.instructions[n]? = thrownCode[n]? := by rw [← Array.getElem?_toList, hlist]
  have hconst : GoesOn call ⟨code, [], 0⟩ (thrownFrame 3 [] (.str "a")) (thrownFrame 4 [.nil] (.str "a")) :=
    thrownFrame_goesOn (hi 3) rfl
  have hpop : GoesOn call ⟨code, [], 0⟩ (thrownFrame 4 [.nil] (.str "a")) (thrownFrame 5 [] (.str "a")) :=
    thrownFrame_goesOn (hi 4) rfl
  exact .goes (by decide) hconst (.goes (by decide) hpop (.refl _))

/-- What work has failed for. -/
def cause? {σ α : Type} (r : EStateM.Result Fault σ α) : Option Cause :=
  match r with
  | .error (.error e) _ => some e.cause
  | _ => none

theorem exists_cause {σ α : Type} {r : EStateM.Result Fault σ α} {p : Cause → Bool} (h : (cause? r).any p = true) :
    ∃ e s, r = .error (.error e) s ∧ p e.cause = true := by
  unfold cause? at h
  split at h
  case h_1 e s => exact ⟨e, s, rfl, h⟩
  case h_2 => cases h

/-- The text `a` has been thrown. -/
def isThrownText (c : Cause) : Bool :=
  match c with
  | .thrown (.str a) => a == "a"
  | _ => false

theorem isThrownText_iff {c : Cause} : isThrownText c = true ↔ c = .thrown (.str "a") := by
  unfold isThrownText
  split <;> simp_all

/-- The text is thrown by interpreted code too. -/
theorem thrownText_evaluates : ∃ parts e t, tryParts smallWorld thrownText = .ok parts ∧ parts.finally? = some [] ∧
    parts.catches = [] ∧ e.cause = .thrown (.str "a") ∧
    evaluateBody (handlers 4) parts.body { world := smallWorld, tryDepth := 1 } = .error (.error e) t := by
  obtain ⟨e, t, hrun, htext⟩ := exists_cause (r := evaluateBody (handlers 4)
    [.ofList [.symbol "throw" default, .ofAtom (.str "a") default] default] { world := smallWorld, tryDepth := 1 })
    (p := isThrownText) (by decide +kernel)
  exact ⟨_, e, t, rfl, rfl, rfl, isThrownText_iff.mp htext, hrun⟩

theorem thrown_text_passes : ∃ (t t' : FormState) (code : Code) (parts : TryParts) (L : TryLayout) (e : Error),
    compileTry (handlers 4) thrownText smallMethod = .ok () t ∧
      TryCode (handlers 4) ((view t).code.push (.ret .any)) code parts L ∧
      (∀ call, ∃ path r, Travels call ⟨code, [], 0⟩ (thrownFrame 0 [] .nil) path r ∧
        GetsOut call ⟨code, [], 0⟩ L.entry L.exit (Error.thrown (.str "a")) r) ∧
      evaluateTry (handlers 4) thrownText { world := smallWorld } = .error (.error e) t' ∧
      e.cause = .thrown (.str "a") := by
  obtain ⟨⟨⟩, t, hrun, hend⟩ := State.exists_answer (r := compileTry (handlers 4) thrownText smallMethod)
    (p := fun q => match ((view q.2).code.push (.ret .any)).finish 9 with
      | .ok code => isThrowing code
      | .error _ => false) (by decide +kernel)
  dsimp only at hend
  split at hend
  case h_2 => cases hend
  rename_i code hfinish
  obtain ⟨hlist, hhandlers, hlocals⟩ := isThrowing_iff hend
  obtain ⟨parts, e, t₁, hparts, hfinal, hcatches, hcause, hbody⟩ := thrownText_evaluates
  have hvalid : Valid (view smallMethod) := valid_methodAlone
  have hmid : Midway [] (view smallMethod) :=
    ⟨hvalid, by simp [LoopsMade, view, smallMethod, methodAlone], nofun, List.nodup_nil, by simp⟩
  obtain ⟨_, g, -⟩ := compileTry_leaves (compiles_handlers 4) hvalid hrun
  let body : Body := ⟨code, [], 0⟩
  have hcode : Finished ((view t).code.push (.ret .any)) body.code := ⟨g.valid.orderly.push _, 9, hfinish⟩
  obtain ⟨L, hL, hentry, -, hpasses⟩ := error_behind_finally 4 hmid
    (by simp [Watched, view, smallMethod, methodAlone, View.code, View.work]) (by decide) hparts (by rw [hfinal]; rfl)
    hrun hcode ((Retains.refl _ _).push _)
  obtain ⟨hfirst, hstored, hown, hclauses, hpending, hheld, hcopied, -⟩ :=
    thrownText_layout hlist hhandlers hfinal hL
  have hpass : ∀ call, _ := fun call => hpasses call (thrownFrame 0 [] .nil) (thrownFrame 1 [] .nil)
    (thrownFrame 5 [] (.str "a")) ([0] ++ [1]) [3, 4] (Error.thrown (.str "a")) (.str "a") hentry.symm hlocals.symm
    (thrownText_fails hlist hfirst hstored hown call) (by rw [hclauses]; rfl)
    (by
      have hstart : L.keeping (thrownFrame 1 [] .nil) (.str "a") = thrownFrame 3 [] (.str "a") := by
        simp [TryLayout.keeping, Running.handled, Running.stored, Frame.handling, Part.handler, thrownFrame, hpending,
          hheld]
      rw [hstart, hpending, hcopied]
      exact thrownText_finally hlist _ call)
    hcopied.symm
  obtain ⟨hevaluate, -⟩ := (hpass (handlers 4).call).2 (handlers 4) { world := smallWorld } t₁ t₁ _ e parts [] .nil
    hcause hparts hfinal hbody (.nobody hcatches) rfl
  refine ⟨t, _, code, parts, L, e, hrun, hL, fun call => ?_, hevaluate, hcause⟩
  obtain ⟨⟨r, htravels, -, hout⟩, -⟩ := hpass call
  exact ⟨_, r, htravels, hout⟩

/-- A top-level form that is no block is compiled into a class, and that is run. -/
theorem compileTop_of_class [Libraries] {fuel n : Nat} {d e : Datum} {w : World} {s₁ s₂ s₃ s₄ : FormState}
    {file : ClassFile}
    {cls : ClassInfo} (hexpand : Expansion.expand (handlers fuel).call d { world := w } = .ok (e, n) s₁)
    (hblock : Session.block? e s₁ = .ok none s₂) (hfile : Session.buildTop (handlers fuel) e s₂ = .ok file s₃)
    (hload : loadClass file s₃ = .ok cls s₄) :
    Session.compileTop (fuel + 1) d w = Session.runClass (handlers fuel).call cls s₄.world := by
  have hclass : Session.compileClass (handlers fuel) e s₂ = .ok cls s₄ := by
    rw [Session.compileClass, State.bind_of_ok hfile]
    exact hload
  have hall : Session.blockOrClass (handlers fuel) d { world := w } = .ok (.inr cls) s₄ := by
    rw [Session.blockOrClass, State.bind_of_ok hexpand]
    dsimp only
    rw [State.bind_of_ok hblock]
    dsimp only
    rw [State.bind_of_ok hclass]
    rfl
  have htop : Session.onTopLevel (Session.blockOrClass (handlers fuel) d) w = .ok (.inr cls) s₄.world := by
    rw [Session.onTopLevel, hall]
  rw [Session.compileTop, State.bind_of_ok htop]

/-- Likewise with no image in between. -/
theorem compileTop_of_unread [Libraries] {fuel n : Nat} {d e : Datum} {w : World} {s₁ s₂ : FormState}
    {q : ClassInfo × FormState → Bool}
    (hexpand : Expansion.expand (handlers fuel).call d { world := w } = .ok (e, n) s₁)
    (hblock : Session.block? e s₁ = .ok none s₂)
    (hbuild : (State.answer? (Session.buildTop (handlers fuel) e s₂)).any (fun r => isLoadable r.1 &&
      (State.answer? (loadUnread r.1 r.2)).any q) = true) :
    ∃ cls s, Session.compileTop (fuel + 1) d w = Session.runClass (handlers fuel).call cls s.world ∧
      q (cls, s) = true := by
  obtain ⟨file, s₃, hfile, hload⟩ := State.exists_answer hbuild
  obtain ⟨hloadable, hload⟩ := Bool.and_eq_true_iff.mp hload
  obtain ⟨cls, s₄, hcls, hq⟩ := State.exists_answer hload
  rw [← loadClass_eq hloadable] at hcls
  exact ⟨cls, s₄, compileTop_of_class hexpand hblock hfile hcls, hq⟩

/-- The form `(try (/ 1 0) (finally 1))`. -/
def divisionTried : Datum :=
  .ofList [.symbol "try" default,
    .ofList [.symbol "/" default, .ofAtom (.int 1) default, .ofAtom (.int 0) default] default,
    .ofList [.symbol "finally" default, .ofAtom (.int 1) default] default] default

/-- An exception object has been thrown. -/
def isThrownException (c : Cause) : Bool :=
  match c with
  | .thrown (.object o) => o.className == Names.exception
  | _ => false

theorem isThrownException_iff {c : Cause} :
    isThrownException c = true ↔ ∃ o, c = .thrown (.object o) ∧ o.className = Names.exception := by
  unfold isThrownException
  split <;> simp_all

/-- A division by zero has failed. -/
def isDivideByZero (c : Cause) : Bool :=
  match c with
  | .failure .runtime message => message == "Divide by zero"
  | _ => false

theorem isDivideByZero_iff {c : Cause} : isDivideByZero c = true ↔ c = .failure .runtime "Divide by zero" := by
  unfold isDivideByZero
  split <;> simp_all

/-- The form `(try (/ 1 0) (finally 1))` fails with the error of the division where it is interpreted, and with a thrown
exception object where it is compiled. -/
theorem division_leaves_as_object :
    ∃ e e' w w' o, Session.evaluateTop 20 divisionTried smallWorld = .error (.error e) w ∧
      e.cause = .failure .runtime "Divide by zero" ∧
      Session.compileTop 21 divisionTried smallWorld = .error (.error e') w' ∧
      e'.cause = .thrown (.object o) ∧ o.className = Names.exception := by
  obtain ⟨e, w, hevaluate, hcause⟩ := exists_cause
    (r := Session.evaluateTop 20 divisionTried smallWorld) (p := isDivideByZero) (by decide +kernel)
  have hexpand : Expansion.expand (handlers 20).call divisionTried { world := smallWorld }
      = .ok (divisionTried, 0) { world := smallWorld } := rfl
  have hblock : Session.block? divisionTried { world := smallWorld } = .ok none { world := smallWorld } := rfl
  obtain ⟨cls, s, hcompile, hthrown⟩ := compileTop_of_unread hexpand hblock
    (q := fun r => (cause? (Session.runClass (handlers 20).call r.1 r.2.world)).any isThrownException)
    (by decide +kernel)
  obtain ⟨e', w', hrun, hexception⟩ := exists_cause hthrown
  obtain ⟨o, hcause', hname⟩ := isThrownException_iff.mp hexception
  exact ⟨e, e', w, w', o, hevaluate, isDivideByZero_iff.mp hcause, hcompile.trans hrun, hcause', hname⟩

end Instances

end LispMachine.Agreement
