import LispMachine.Proofs.Emission.Exceptions
import LispMachine.Proofs.Emission.Frame

/-! # Forms and their records

The compiler checks the number of records behind every form.  What that check cannot tell is that the code of
the form has not reached below the records it started from: `framed_emitForm` turns one into the other.  The
code of a form has to take nothing from below (`Takes 0 q`), or only with its last instruction (`Closes`).

The forms here are compiled from their parts in order, without branches. -/

namespace LispMachine.Emission

open Form

/-! ### Forms -/

section Framed

variable {α : Type} {p q k : Nat} {v w : View} {base : List StackRecord}

/-- One typed record more on top, unless control does not get here. -/
structure Framed (v w : View) : Prop where
  within : Within v w
  records : w.stack.isUnreachable = true ∨
    ∃ ty isConstant, w.stack.records = .typed ty isConstant :: v.stack.records

/-- Whatever the handlers compile is one record more. -/
def Frames (h : Handlers) : Prop := ∀ d, Always Framed (h.compile d)

theorem isUnreachable_append {stack : TypeStack} (above : List StackRecord)
    (hrecords : stack.records = above ++ base) (hdead : base.contains .unreachable = true) :
    stack.isUnreachable = true := by
  rw [TypeStack.isUnreachable, hrecords]
  simp only [List.contains_eq_mem, decide_eq_true_eq] at hdead ⊢
  exact List.mem_append_right above hdead

theorem Framed.moves (h : Framed v w) : Moves 0 1 v w := by
  refine ⟨h.within, fun base k habove => ?_⟩
  rcases h.records with hdead | ⟨ty, c, hrecords⟩
  · exact .inl hdead
  · rcases habove with hdead | ⟨above, hle, hbase⟩
    · exact .inl (isUnreachable_append [.typed ty c] hrecords hdead)
    · exact .inr ⟨.typed ty c :: above, by simpa using hle, by rw [hrecords, hbase, List.cons_append]⟩

/-- Of two stacks of records one is what is left of the other. -/
def Comparable (xs ys : List StackRecord) : Prop := xs <:+ ys ∨ ys <:+ xs

theorem Comparable.rest {popped rest : List StackRecord} (h : Comparable base (popped ++ rest)) :
    Comparable base rest := by
  have hrest : rest <:+ popped ++ rest := List.suffix_append popped rest
  rcases h with hbase | hbase
  · exact List.suffix_or_suffix_of_suffix hbase hrest
  · exact .inr (hrest.trans hbase)

/-- The records that were there are below those that are there now, or what is there now is one record on
top of some of them. -/
structure Closes (v w : View) : Prop where
  within : Within v w
  dead : v.stack.isUnreachable = true → w.stack.isUnreachable = true
  records : w.stack.isUnreachable = true ∨ v.stack.records <:+ w.stack.records ∨
    ∃ r rest, w.stack.records = r :: rest ∧ rest <:+ v.stack.records

theorem Above.suffix (h : Above base k v) : v.stack.isUnreachable = true ∨ base <:+ v.stack.records := by
  rcases h with hdead | ⟨above, -, hrecords⟩
  · exact .inl hdead
  · exact .inr ⟨above, hrecords.symm⟩

theorem Moves.suffix (h : Moves 0 q v w) :
    w.stack.isUnreachable = true ∨ v.stack.records <:+ w.stack.records :=
  (h.above v.stack.records 0 (.inr ⟨[], by simp, rfl⟩)).suffix

theorem Moves.closes (h : Moves 0 q v w) : Closes v w :=
  ⟨h.within, h.dead, h.suffix.imp_right .inl⟩

/-- One record more than before: then nothing below it has changed. -/
theorem Closes.eq_cons (h : Closes v w) (hlive : w.stack.isUnreachable = false)
    (hsize : w.stack.size = v.stack.size + 1) :
    ∃ ty isConstant, w.stack.records = .typed ty isConstant :: v.stack.records := by
  have hcons : ∃ r, w.stack.records = r :: v.stack.records := by
    unfold TypeStack.size at hsize
    rcases h.records with hdead | ⟨above, habove⟩ | ⟨r, rest, hrest, hbelow⟩
    · rw [hlive] at hdead
      cases hdead
    · rw [← habove, List.length_append] at hsize
      obtain ⟨r, rfl⟩ := List.length_eq_one_iff.1 (show above.length = 1 by omega)
      exact ⟨r, habove.symm⟩
    · rw [hrest, List.length_cons] at hsize
      exact ⟨r, by rw [hrest, hbelow.eq_of_length (by omega)]⟩
  obtain ⟨r, hr⟩ := hcons
  cases r with
  | typed ty c => exact ⟨ty, c, hr⟩
  | unreachable =>
      rw [TypeStack.isUnreachable, hr] at hlive
      simp at hlive

section Last

variable {s t : FormState} {u : Unit} {i : Instruction} {pops : List Ty}

theorem dead_emit (hdead : (view s).stack.isUnreachable = true) (hrun : FormM.emit i s = .ok u t) :
    (view t).stack.isUnreachable = true := by
  rcases emit_run hrun with ⟨-, hview⟩ | ⟨hlive, -⟩
  · rw [hview]
    exact hdead
  · rw [hdead] at hlive
    cases hlive

/-- What is left behind operands is comparable with whatever the whole was. -/
theorem comparable_emit (he : i.effect (view s).sites = .ok (.ops pops none))
    (hbase : Comparable base (view s).stack.records) (hrun : FormM.emit i s = .ok u t) :
    (view t).stack.isUnreachable = true ∨ Comparable base (view t).stack.records := by
  cases hlive : (view s).stack.isUnreachable with
  | true => exact .inl (dead_emit hlive hrun)
  | false =>
      obtain ⟨popped, rest, -, hrecords, hresult⟩ := emit_records he hlive hrun
      rw [hrecords] at hbase
      refine hresult.imp_right fun hresult => ?_
      rw [hresult]
      exact hbase.rest

theorem closed_emit {ty : Ty} (he : i.effect (view s).sites = .ok (.ops pops (some ty)))
    (hbase : Comparable base (view s).stack.records) (hrun : FormM.emit i s = .ok u t) :
    (view t).stack.isUnreachable = true ∨ base <:+ (view t).stack.records ∨
      ∃ r rest, (view t).stack.records = r :: rest ∧ rest <:+ base := by
  cases hlive : (view s).stack.isUnreachable with
  | true => exact .inl (dead_emit hlive hrun)
  | false =>
      obtain ⟨popped, rest, -, hrecords, hresult⟩ := emit_records he hlive hrun
      rw [hrecords] at hbase
      refine hresult.imp_right fun hresult => ?_
      rcases hbase.rest with hrest | hrest
      · left
        rw [hresult]
        exact hrest.trans (List.suffix_append _ rest)
      · exact .inr ⟨.typed ty false, rest, hresult, hrest⟩

end Last

/-- The check behind a form makes sure that it leaves one record. -/
theorem framed_emitForm {d : Datum} {code : FormM Unit} (hcode : Always Closes code) :
    Always Framed (emitForm d code) := by
  intro s u t hne hrun
  obtain ⟨before, s₁, h₁, hrun⟩ := State.ok_of_bind hrun
  obtain ⟨rfl, rfl, -⟩ := stack_ok h₁
  obtain ⟨⟨⟩, s₂, h₂, hrun⟩ := State.ok_of_bind hrun
  obtain ⟨stack, s₃, h₃, hrun⟩ := State.ok_of_bind hrun
  obtain ⟨rfl, rfl, -⟩ := stack_ok h₃
  have hcloses := hcode hne (atSpan_ok h₂)
  split at hrun
  · rename_i hchecked
    cases hrun
    refine ⟨hcloses.within, ?_⟩
    cases hlive : (view t).stack.isUnreachable with
    | true => exact .inl rfl
    | false =>
        rw [hlive, Bool.false_or, decide_eq_true_eq] at hchecked
        exact .inr (hcloses.eq_cons hlive hchecked)
  · cases hrun

/-- The last instruction of a form may reach below the records that were there: the check sees that. -/
theorem closes_emit {i : Instruction} {pops : List Ty} {ty : Ty}
    (he : ∀ sites, i.effect sites = .ok (.ops pops (some ty))) : Always Closes (FormM.emit i) :=
  fun _ _ _ hne hrun => ⟨inside_emit i hne hrun, fun hdead => dead_emit hdead hrun,
    closed_emit (he _) (.inl List.suffix_rfl) hrun⟩

theorem Takes.closes {β : Type} {x : FormM α} {f : α → FormM β} (hx : Takes 0 q x)
    (hf : ∀ a, Always Closes (f a)) : Always Closes (x >>= f) := by
  intro s b t hne hrun
  obtain ⟨a, s₁, h₁, hrun⟩ := State.ok_of_bind hrun
  have hmoves := hx hne h₁
  have hcloses := hf a hmoves.within.1 hrun
  refine ⟨hmoves.within.trans hcloses.within, fun hdead => hcloses.dead (hmoves.dead hdead), ?_⟩
  rcases hmoves.suffix with hdead | hsuffix
  · exact .inl (hcloses.dead hdead)
  · rcases hcloses.records with hdead | hmore | ⟨r, rest, hrecords, hrest⟩
    · exact .inl hdead
    · exact .inr (.inl (hsuffix.trans hmore))
    · rcases List.suffix_or_suffix_of_suffix hsuffix hrest with hbelow | hbelow
      · refine .inr (.inl ?_)
        rw [hrecords]
        exact hbelow.trans (List.suffix_cons r rest)
      · exact .inr (.inr ⟨r, rest, hrecords, hbelow⟩)

theorem framed_of_takes {d : Datum} {code : FormM Unit} (hcode : Takes 0 q code) :
    Always Framed (emitForm d code) :=
  framed_emitForm fun _ _ _ hne hrun => (hcode hne hrun).closes

end Framed

/-! ### Going back to records -/

section Back

variable {α β : Type} {x : FormM α} {f : α → FormM β} {base : List StackRecord} {k q : Nat}

/-- An action behind which the stack is what stands above given records. -/
abbrev BackTo {α : Type} (base : List StackRecord) (x : FormM α) : Prop :=
  Always (fun v w => Within v w ∧ Above base 0 w) x

theorem Inside.backTo (hx : Inside x) (hf : ∀ a, BackTo base (f a)) : BackTo base (x >>= f) := by
  intro s b t hne hrun
  obtain ⟨a, s₁, h₁, hrun⟩ := State.ok_of_bind hrun
  have hwithin := hx hne h₁
  obtain ⟨hwithin', habove⟩ := hf a hwithin.1 hrun
  exact ⟨hwithin.trans hwithin', habove⟩

theorem BackTo.bind (hx : BackTo base x) (hf : ∀ a, Takes 0 q (f a)) : BackTo base (x >>= f) := by
  intro s b t hne hrun
  obtain ⟨a, s₁, h₁, hrun⟩ := State.ok_of_bind hrun
  obtain ⟨hwithin, habove⟩ := hx hne h₁
  have hmoves := hf a hwithin.1 hrun
  exact ⟨hwithin.trans hmoves.within, (hmoves.above base 0 habove).mono (Nat.zero_le _)⟩

theorem backTo_withRecords (base : List StackRecord) :
    BackTo base (FormM.modifyStack fun s => s.withRecords base) := by
  intro s u t hne hrun
  refine ⟨inside_modifyStack _ hne hrun, ?_⟩
  rw [modifyStack_ok hrun]
  exact .inr ⟨[], by simp, rfl⟩

theorem takes_push (ty : Ty) (isConstant : Bool) :
    Takes 0 1 (FormM.modifyStack fun s => s.push ty isConstant) := by
  intro s u t hne hrun
  have hview := modifyStack_ok hrun
  refine Framed.moves ⟨inside_modifyStack _ hne hrun, .inr ⟨ty, isConstant, ?_⟩⟩
  rw [hview]
  rfl

theorem takes_pushUnreachable : Takes 0 q (FormM.modifyStack TypeStack.pushUnreachable) := by
  intro s u t hne hrun
  have hview := modifyStack_ok hrun
  refine .of_dead (inside_modifyStack _ hne hrun) ?_
  rw [hview]
  simp [TypeStack.pushUnreachable, TypeStack.isUnreachable]

theorem backTo_settle (base : List StackRecord) (result : Option Ty) :
    BackTo base (FormM.settle base result) := by
  refine (backTo_withRecords base).bind (q := 0) fun _ => ?_
  refine .ite (takes_pure ()) ?_
  cases result with
  | some ty => exact (takes_push ty false).shift 0 (by omega) (by omega)
  | none => exact takes_pushUnreachable

/-- Whatever is done in between, going back to the records at hand takes none of them. -/
theorem takes_keeping {x : TypeStack → FormM Unit} (hx : ∀ stack, BackTo stack.records (x stack)) :
    Takes k k (FormM.stack >>= x) := by
  intro s u t hne hrun
  obtain ⟨stack, s₁, h₁, hrun⟩ := State.ok_of_bind hrun
  obtain ⟨rfl, rfl, -⟩ := stack_ok h₁
  obtain ⟨hwithin, hback⟩ := hx _ hne hrun
  refine ⟨hwithin, fun base j habove => ?_⟩
  rcases hback with hdead | ⟨above, -, hrecords⟩
  · exact .inl hdead
  · rcases habove with hdead | ⟨above', hle, hbase⟩
    · exact .inl (isUnreachable_append above hrecords hdead)
    · refine .inr ⟨above ++ above', ?_, by rw [hrecords, hbase, List.append_assoc]⟩
      rw [List.length_append]
      omega

end Back

/-! ### Parts in sequence -/

section Parts

variable {h : Handlers}

theorem Frames.takes (hc : Frames h) (d : Datum) : Takes 0 1 (h.compile d) :=
  fun _ _ _ hne hrun => (hc d hne hrun).moves

theorem takes_compileBody (hc : Frames h) (body : List Datum) : Takes 0 1 (compileBody h body) := by
  induction body with
  | nil => exact takes_emitConstant .nil
  | cons d rest ih =>
      cases rest with
      | nil => exact hc.takes d
      | cons d' rest =>
          exact ((hc.takes d).withTail false).bind fun _ => takes_popValue.bind fun _ => ih

theorem takes_compileArgs (hc : Frames h) (args : List Datum) :
    Takes 0 args.length (compileArgs h args) := by
  have hargs : Takes 0 (args.length * 1) (args.forM h.compile) := Takes.forM fun d _ => hc.takes d
  rw [Nat.mul_one] at hargs
  exact hargs.withTail false

theorem takes_compileBoxed (hc : Frames h) (d : Datum) : Takes 0 1 (compileBoxed h d) :=
  ((hc.takes d).withTail false).bind fun _ => takes_boxTop

theorem takes_compileBoxedEach (hc : Frames h) (items : List Datum) :
    Takes 0 items.length (compileBoxedEach h items) := by
  induction items with
  | nil => exact takes_pure ()
  | cons d rest ih =>
      refine (hc.takes d).bind fun _ => takes_boxTop.bind fun _ => ?_
      exact ih.shift 1 (by omega) (by simp)

theorem takes_compileCollection (hc : Frames h) (d : Datum) : Takes 0 1 (compileCollection h d) := by
  unfold compileCollection
  cases hparts : collectionParts? d with
  | none => exact takes_fail _
  | some parts =>
      obtain ⟨kind, items, count⟩ := parts
      refine ((takes_compileBoxedEach hc items).withTail false).bind fun _ => ?_
      have hlength := length_of_collectionParts hparts
      exact (takes_emit _ _ fun _ => rfl).shift 0 (by simp [hlength]) (by simp)

/-- Arguments first, then what is done with them where control gets behind them. -/
theorem takes_behindArgs (hc : Frames h) {args : List Datum} {rest : List Ty → FormM Unit} {k q : Nat}
    (hrest : ∀ tys, tys.length = args.length + k → Takes (args.length + k) q (rest tys)) :
    Takes k q (do
      compileArgs h args
      if ← FormM.isUnreachable then return ()
      rest (← topTypes (args.length + k))) := by
  have hargs : Takes k (args.length + k) (compileArgs h args) :=
    (takes_compileArgs hc args).shift k (by omega) (by omega)
  refine hargs.bind fun _ => Takes.whereLive ?_
  refine (takes_topTypes _).bindWith fun tys s t htys => hrest tys ?_
  exact (topTypes_ok (topTypes_run htys).2).1

theorem takes_compileGlobalCall (hc : Frames h) (d : Datum) (v : VarRef) :
    Takes 0 0 (compileGlobalCall h d v) := by
  refine takes_behindArgs hc (k := 0) fun tys hlength => ?_
  refine (takes_aside aside_world).bind fun w => ?_
  exact (takes_emitSite _ _ _ _).shift 0 (by omega) (by omega)

theorem takes_compileCall (hc : Frames h) (d : Datum) : Takes 0 0 (compileCall h d) := by
  refine takes_behindArgs hc (k := 0) fun tys hlength => ?_
  exact (takes_emitCall _).shift 0 (by simp only [SiteSpec.new]; omega) (by omega)

end Parts

/-! ### Names -/

section Names

variable {p : Nat}

theorem takes_className : Takes p p FormM.className := by
  intro s name t hne hrun
  rw [className_ok hne hrun]
  exact .of_stack (.refl (className_ok hne hrun ▸ hne)) rfl

theorem takes_loadThis : Takes 0 1 loadThis :=
  takes_className.bind fun owner => (takes_load 0 (.cls owner)).bind fun _ => takes_pure _

theorem takes_loadField (field : String) (ty : Ty) : Takes 0 1 (loadField field ty) :=
  takes_loadThis.bind fun _ => takes_emit [.any] (some ty) fun _ => rfl

theorem takes_loadBinding (b : Binding) : Takes 0 1 (loadBinding b) := by
  unfold loadBinding
  split
  · exact takes_load _ _
  · exact takes_load _ _
  · exact takes_loadField _ _
  · exact takes_fail _

theorem takes_capture (name : String) (ty : Ty) : Takes p p (FormM.capture name ty) := by
  intro s r t hne hrun
  rcases capture_ok hne hrun with hview | hview
  · rw [hview]
    exact .of_stack (.refl hne) rfl
  · rw [hview]
    exact .of_stack ⟨hne, rfl⟩ rfl

theorem takes_compileName (name : String) (span : Span) : Takes 0 1 (compileName name span) := by
  refine (takes_aside (aside_resolve name)).bind fun r => ?_
  cases r with
  | «local» scope b =>
      have hcapture : Takes 0 1 (loadCapture b) :=
        (takes_capture b.name b.ty).bind fun r => takes_loadField r.field r.ty
      cases scope with
      | closure => exact hcapture
      | _ => exact takes_loadBinding b
  | var v =>
      refine (takes_aside aside_world).bind fun w => (takes_ofExcept _).bind fun _ => ?_
      exact takes_emitCall { SiteSpec.new (.globalValue v.space v.name) [] .any with span := some span }
  | nameSpace space => exact takes_emitConstant _
  | cls c => exact takes_emitConstant _
  | staticField c f => exact takes_emit [] (some f.ty) fun _ => rfl

theorem takes_compileSymbol (d : Datum) : Takes 0 1 (compileSymbol d) := by
  unfold compileSymbol
  split
  · exact takes_compileName _ _
  · exact takes_fail _

end Names

/-! ### Members -/

section Members

variable {h : Handlers}

theorem length_of_direct_construction {r : Registry} {c : ClassInfo} {argTypes : List Ty} {m : Method}
    (hplan : planConstruction r c argTypes = .direct m) : m.params.length = argTypes.length := by
  have hwidths := congrArg List.length (planConstruction_direct hplan)
  simpa using hwidths

theorem takes_compileNew (hc : Frames h) (d : Datum) : Takes 0 0 (compileNew h d) := by
  refine (takes_aside (aside_newParts d)).bind fun ⟨c, args⟩ => ?_
  refine takes_behindArgs hc (k := 0) fun tys hlength => ?_
  refine (takes_aside aside_registry).bind fun r => ?_
  cases hplan : planConstruction r c tys with
  | direct m =>
      have hparams := length_of_direct_construction hplan
      exact (takes_emit _ _ fun _ => rfl).shift 0 (by omega) (by omega)
  | dynamic => exact (takes_emitSite _ _ _ _).shift 0 (by omega) (by omega)
  | none => exact takes_fail _

theorem takes_compileStaticCall (hc : Frames h) (d : Datum) (c : ClassInfo) (m : Member) :
    Takes 0 0 (compileStaticCall h d c m) := by
  refine (takes_aside aside_registry).bind fun r => ?_
  refine takes_behindArgs hc (k := 0) fun tys hlength => ?_
  refine (takes_aside aside_registry).bind fun r => ?_
  have hsite (ret : Ty) : Takes (m.args.length + 0) 0
      (emitSite (.staticMethod c.name m.name) tys ret d) :=
    (takes_emitSite _ _ _ _).shift 0 (by omega) (by omega)
  split
  · exact hsite _
  · exact hsite _
  · exact (takes_fail (q := m.args.length) _).bind hsite

theorem takes_compileStaticMember (hc : Frames h) (d : Datum) (c : ClassInfo) (m : Member) :
    Takes 0 0 (compileStaticMember h d c m) := by
  refine (takes_aside aside_registry).bind fun r => ?_
  split
  · exact (takes_emit [] _ fun _ => rfl).shift 0 (by simp) (by omega)
  · exact takes_fail _
  · exact takes_compileStaticCall hc d c m

theorem takes_compileInstanceMember (hc : Frames h) (d : Datum) (m : Member) :
    Takes 0 0 (compileInstanceMember h d m) := by
  refine (takes_compileBoxed hc m.target).bind fun _ => takes_topType.bind fun receiver => ?_
  split
  · refine Takes.whereLive ((takes_aside aside_registry).bind fun r => ?_)
    refine (takes_topTypes 1).bindWith fun tys s t htys => ?_
    have hlength := (topTypes_ok (topTypes_run htys).2).1
    exact (takes_emitSite _ _ _ _).shift 0 (by omega) (by omega)
  · refine takes_behindArgs hc (k := 1) fun tys hlength => ?_
    refine (takes_aside aside_registry).bind fun r => ?_
    exact (takes_emitSite _ _ _ _).shift 0 (by omega) (by omega)

theorem takes_compileDot (hc : Frames h) (d : Datum) : Takes 0 0 (compileDot h d) := by
  refine (takes_ofExcept _).bind fun m => (takes_aside (aside_staticTarget m.target)).bind fun c => ?_
  cases c with
  | some c => exact takes_compileStaticMember hc d c m
  | none => exact takes_compileInstanceMember hc d m

theorem takes_compileInstanceTest (hc : Frames h) (d : Datum) : Takes 0 1 (compileInstanceTest h d) := by
  refine (takes_aside (aside_instanceTestParts d)).bind fun ⟨c, value⟩ => ?_
  refine (takes_compileBoxed hc value).bind fun _ => ?_
  exact takes_emit [.any] (some .boolean) fun _ => rfl

end Members

/-! ### Definitions and namespaces -/

section Definitions

variable {h : Handlers}

theorem takes_compileDef (hc : Frames h) (d : Datum) : Takes 0 1 (compileDef h d) := by
  refine (takes_ofExcept _).bind fun p => (takes_aside (aside_internTarget p.target p.name)).bind fun v => ?_
  cases hinit : p.init with
  | some init =>
      refine (takes_compileBoxed hc init).bind fun _ => ?_
      exact takes_emit [.any] (some (.cls Names.var)) fun _ => rfl
  | none => exact takes_emit [] (some (.cls Names.var)) fun _ => rfl

theorem takes_compileVar (d : Datum) : Takes 0 1 (compileVar d) :=
  (takes_aside (aside_namedVar d)).bind fun _ =>
    takes_emit [] (some (.cls Names.var)) fun _ => rfl

theorem takes_importClass (name : String) : Takes 0 1 (FormM.emit (.importClass name)) :=
  takes_emit [] (some (.cls Names.cls)) fun _ => rfl

theorem takes_switchSpace (name : String) : Takes 0 1 (FormM.emit (.switchSpace name)) :=
  takes_emit [] (some (.cls Names.nameSpace)) fun _ => rfl

theorem takes_compileInSpace (d : Datum) : Takes 0 1 (compileInSpace d) :=
  (takes_ofExcept _).bind fun name => (takes_aside (aside_enterSpace name)).bind fun _ =>
    takes_switchSpace name

/-- A class that is imported and dropped again. -/
theorem takes_quietImports (imported : List String) : Takes 0 0 (imported.forM emitQuietImport) := by
  have heach (full : String) : Takes 0 0 (emitQuietImport full) :=
    (takes_importClass full).bind fun _ => takes_popValue
  exact (Takes.forM (q := 0) fun full _ => heach full).shift 0 (by omega) (by omega)

theorem takes_compileSpaceForm (d : Datum) : Takes 0 1 (compileSpaceForm d) := by
  refine (takes_ofExcept _).bind fun form => (takes_aside (aside_enterForm d form)).bind fun imported => ?_
  exact (takes_switchSpace form.name).bind fun _ => (takes_quietImports imported).shift 1 (by omega) (by omega)

theorem takes_emitImports (names : List String) : Takes 0 1 (emitImports names) := by
  induction names with
  | nil => exact takes_emitConstant .nil
  | cons full rest ih =>
      cases rest with
      | nil => exact takes_importClass full
      | cons full' rest => exact (takes_importClass full).bind fun _ => takes_popValue.bind fun _ => ih

theorem takes_compileImport (d : Datum) : Takes 0 1 (compileImport d) :=
  (takes_aside (aside_importAll _)).bind fun names => takes_emitImports names

/-- The value of an assignment is dropped if the field has no type, so that the instruction that stores it
may reach below. -/
theorem closes_compileFieldAssignment (hc : Frames h) (b : Binding) (field : String) (value : Datum) :
    Always Closes (compileFieldAssignment h b field value) := by
  intro s u t hne hrun
  obtain ⟨owner, s₁, h₁, hrun⟩ := State.ok_of_bind hrun
  obtain ⟨⟨⟩, s₂, h₂, hrun⟩ := State.ok_of_bind hrun
  obtain ⟨⟨⟩, s₃, h₃, hrun⟩ := State.ok_of_bind hrun
  obtain ⟨temp, s₄, h₄, hrun⟩ := State.ok_of_bind hrun
  obtain ⟨⟨⟩, s₅, h₅, hrun⟩ := State.ok_of_bind hrun
  obtain ⟨⟨⟩, s₆, h₆, hrun⟩ := State.ok_of_bind hrun
  obtain ⟨⟨⟩, s₇, h₇, hrun⟩ := State.ok_of_bind hrun
  obtain ⟨⟨⟩, s₈, h₈, hrun⟩ := State.ok_of_bind hrun
  have m₁ : Moves 0 1 (view s) (view s₁) := takes_loadThis hne h₁
  have m₂ : Moves 1 2 (view s₁) (view s₂) :=
    (((hc.takes value).withTail false) m₁.within.1 h₂).shift (m := 1) (by omega) (by omega)
  have m₃ : Moves 2 1 (view s₂) (view s₃) :=
    (((takes_coerceAway b.ty).atSpan value.span) m₂.within.1 h₃).shift (m := 1) (by omega) (by omega)
  have m₄ : Moves 1 1 (view s₃) (view s₄) := takes_onCode _ m₃.within.1 h₄
  have m₅ : Moves 1 0 (view s₄) (view s₅) := takes_store temp b.ty m₄.within.1 h₅
  have m₆ : Moves 0 1 (view s₅) (view s₆) := takes_load temp b.ty m₅.within.1 h₆
  have hbefore := ((((m₁.trans m₂).trans m₃).trans m₄).trans m₅).trans m₆
  have w₇ := inside_emit _ hbefore.within.1 h₇
  have w₈ := inside_emit _ w₇.1 h₈
  have w := takes_modifyCode (p := 0) _ w₈.1 hrun
  have hstack : (view t).stack = (view s₈).stack := by
    rw [modifyCode_ok hrun]
    rfl
  refine ⟨((hbefore.within.trans w₇).trans w₈).trans w.within, fun hdead => ?_, ?_⟩
  · rw [hstack]
    exact dead_emit (dead_emit (hbefore.dead hdead) h₇) h₈
  · rw [hstack]
    rcases hbefore.suffix with hdead | hsuffix
    · exact .inl (dead_emit (dead_emit hdead h₇) h₈)
    · rcases comparable_emit rfl (.inl hsuffix) h₇ with hdead | hcomparable
      · exact .inl (dead_emit hdead h₈)
      · exact closed_emit rfl hcomparable h₈

theorem closes_compileSet (hc : Frames h) (d : Datum) : Always Closes (compileSet h d) := by
  intro s u t hne hrun
  obtain ⟨⟨target, name, value⟩, s₁, h₁, hrun⟩ := State.ok_of_bind hrun
  obtain ⟨-, rfl⟩ := ofExcept_ok h₁
  obtain ⟨r, s₂, h₂, hrun⟩ := State.ok_of_bind hrun
  obtain ⟨rfl, -⟩ := resolve_run h₂
  cases r with
  | var v =>
      have hset : Takes 0 1 (do
          FormM.ofExcept (checkAssignable (← FormM.world) v target)
          compileBoxed h value
          FormM.emit (.setVar v.space v.name)) := by
        refine (takes_aside aside_world).bind fun w => (takes_ofExcept _).bind fun _ => ?_
        refine (takes_compileBoxed hc value).bind fun _ => ?_
        exact takes_emit [.any] (some .any) fun _ => rfl
      exact (hset hne hrun).closes
  | «local» scope b =>
      dsimp only at hrun
      split at hrun
      · cases hslot : b.slot with
        | field field =>
            rw [hslot] at hrun
            exact closes_compileFieldAssignment hc b field value hne hrun
        | «local» n =>
            rw [hslot] at hrun
            cases hrun
        | this =>
            rw [hslot] at hrun
            cases hrun
        | none =>
            rw [hslot] at hrun
            cases hrun
      · cases hrun
  | nameSpace space => cases hrun
  | cls c => cases hrun
  | staticField c f => cases hrun

end Definitions

end LispMachine.Emission
