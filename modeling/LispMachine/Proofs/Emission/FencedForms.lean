import LispMachine.Proofs.Emission.Fences
import LispMachine.Proofs.Emission.Verified

/-! # Forms behind a fence

No form gets over a fence that was put up before it (`respects_handlers`): one lemma for each step of emission,
in the order of writing, and an induction on how deep forms nest.  A `recur` is the one step that could: the
check that no `try` is crossed keeps it inside. -/

namespace LispMachine.Emission

open Form

/-! ### Parts in sequence -/

section Parts

variable {F : Fence} {h : Handlers}

/-- Whatever the handlers compile does not get over a fence. -/
def Confines (F : Fence) (h : Handlers) : Prop := ∀ d, Respects F (h.compile d)

theorem respects_compileBody (hc : Confines F h) (body : List Datum) : Respects F (compileBody h body) := by
  induction body with
  | nil => exact respects_emitConstant .nil
  | cons d rest ih =>
    cases rest with
    | nil => exact hc d
    | cons d' rest => exact ((hc d).outOfTail).bind fun _ => respects_popValue.bind fun _ => ih

theorem respects_compileArgs (hc : Confines F h) (args : List Datum) : Respects F (compileArgs h args) :=
  (Respects.forM fun d _ => hc d).outOfTail

theorem respects_compileBoxed (hc : Confines F h) (d : Datum) : Respects F (compileBoxed h d) :=
  ((hc d).outOfTail).bind fun _ => respects_boxTop

theorem respects_compileBoxedEach (hc : Confines F h) (items : List Datum) :
    Respects F (compileBoxedEach h items) := by
  induction items with
  | nil => exact respects_pure ()
  | cons d rest ih => exact (hc d).bind fun _ => respects_boxTop.bind fun _ => ih

theorem respects_compileCollection (hc : Confines F h) (d : Datum) : Respects F (compileCollection h d) := by
  unfold compileCollection
  split
  · exact yields_fail _
  · exact ((respects_compileBoxedEach hc _).outOfTail).bind fun _ => respects_quiet ⟨rfl, nofun, nofun⟩

theorem respects_emitSite (kind : SiteKind) (argTypes : List Ty) (ret : Ty) (d : Datum) :
    Respects F (emitSite kind argTypes ret d) :=
  respects_emitCall _

theorem respects_topTypes (n : Nat) : Respects F (topTypes n) :=
  respects_stack.bind fun _ => respects_ofExcept _

/-- Arguments first, then what is done with them where control gets behind them. -/
theorem respects_behindArgs (hc : Confines F h) {args : List Datum} {n : Nat} {rest : List Ty → FormM Unit}
    (hrest : ∀ tys, Respects F (rest tys)) :
    Respects F (do
      compileArgs h args
      if ← FormM.isUnreachable then return ()
      rest (← topTypes n)) :=
  (respects_compileArgs hc args).bind fun _ => Respects.whereLive ((respects_topTypes n).bind hrest)

theorem respects_compileGlobalCall (hc : Confines F h) (d : Datum) (v : VarRef) :
    Respects F (compileGlobalCall h d v) :=
  respects_behindArgs hc fun _ => (respects_aside aside_world).bind fun _ => respects_emitSite _ _ _ _

theorem respects_compileCall (hc : Confines F h) (d : Datum) : Respects F (compileCall h d) :=
  respects_behindArgs hc fun _ => respects_emitCall _

end Parts

/-! ### Names and members -/

section Names

variable {F : Fence} {h : Handlers}

theorem respects_loadThis : Respects F loadThis :=
  respects_className.bind fun owner =>
    (respects_quiet (i := .load 0 (.cls owner)) ⟨rfl, nofun, nofun⟩).bind fun _ => respects_pure _

theorem respects_loadField (field : String) (ty : Ty) : Respects F (loadField field ty) :=
  respects_loadThis.bind fun _ => respects_quiet ⟨rfl, nofun, nofun⟩

theorem respects_loadBinding (b : Binding) : Respects F (loadBinding b) := by
  unfold loadBinding
  split
  · exact respects_quiet ⟨rfl, nofun, nofun⟩
  · exact respects_quiet ⟨rfl, nofun, nofun⟩
  · exact respects_loadField _ _
  · exact yields_fail _

theorem respects_compileName (name : String) (span : Span) : Respects F (compileName name span) := by
  refine (respects_aside (aside_resolve name)).bind fun r => ?_
  split
  · exact (respects_capture _ _).bind fun _ => respects_loadField _ _
  · exact respects_loadBinding _
  · exact (respects_aside aside_world).bind fun _ => (respects_ofExcept _).bind fun _ => respects_emitCall _
  · exact respects_emitConstant _
  · exact respects_emitConstant _
  · exact respects_quiet ⟨rfl, nofun, nofun⟩

theorem respects_compileSymbol (d : Datum) : Respects F (compileSymbol d) := by
  unfold compileSymbol
  split
  · exact respects_compileName _ _
  · exact yields_fail _

theorem respects_compileNew (hc : Confines F h) (d : Datum) : Respects F (compileNew h d) := by
  refine (respects_aside (aside_newParts d)).bind fun ⟨c, args⟩ => respects_behindArgs hc fun tys => ?_
  refine (respects_aside aside_registry).bind fun r => ?_
  split
  · exact respects_quiet ⟨rfl, nofun, nofun⟩
  · exact respects_emitSite _ _ _ _
  · exact yields_fail _

theorem respects_compileStaticCall (hc : Confines F h) (d : Datum) (c : ClassInfo) (m : Member) :
    Respects F (compileStaticCall h d c m) := by
  refine (respects_aside aside_registry).bind fun r => respects_behindArgs hc fun tys => ?_
  refine (respects_aside aside_registry).bind fun r => ?_
  split
  · exact respects_emitSite _ _ _ _
  · exact respects_emitSite _ _ _ _
  · exact Respects.bind (yields_fail _) fun _ => respects_emitSite _ _ _ _

theorem respects_compileStaticMember (hc : Confines F h) (d : Datum) (c : ClassInfo) (m : Member) :
    Respects F (compileStaticMember h d c m) := by
  refine (respects_aside aside_registry).bind fun r => ?_
  split
  · exact respects_quiet ⟨rfl, nofun, nofun⟩
  · exact yields_fail _
  · exact respects_compileStaticCall hc d c m

theorem respects_compileInstanceMember (hc : Confines F h) (d : Datum) (m : Member) :
    Respects F (compileInstanceMember h d m) := by
  refine (respects_compileBoxed hc m.target).bind fun _ => respects_topType.bind fun receiver => ?_
  split
  · refine Respects.whereLive ((respects_aside aside_registry).bind fun r => ?_)
    exact (respects_topTypes 1).bind fun tys => respects_emitSite _ _ _ _
  · refine respects_behindArgs hc fun tys => ?_
    exact (respects_aside aside_registry).bind fun r => respects_emitSite _ _ _ _

theorem respects_compileDot (hc : Confines F h) (d : Datum) : Respects F (compileDot h d) := by
  refine (respects_ofExcept _).bind fun m => (respects_aside (aside_staticTarget m.target)).bind fun c => ?_
  cases c with
  | some c => exact respects_compileStaticMember hc d c m
  | none => exact respects_compileInstanceMember hc d m

theorem respects_compileInstanceTest (hc : Confines F h) (d : Datum) : Respects F (compileInstanceTest h d) :=
  (respects_aside (aside_instanceTestParts d)).bind fun ⟨_, value⟩ => (respects_compileBoxed hc value).bind fun _ =>
    respects_quiet ⟨rfl, nofun, nofun⟩

end Names

/-! ### Definitions and namespaces -/

section Definitions

variable {F : Fence} {h : Handlers}

theorem respects_compileDef (hc : Confines F h) (d : Datum) : Respects F (compileDef h d) := by
  refine (respects_ofExcept _).bind fun p => (respects_aside (aside_internTarget p.target p.name)).bind fun v => ?_
  have hdefine (init : Bool) : Respects F (FormM.emit (.defVar v.space v.name (.ofFlags p.target.flags) init)) :=
    respects_quiet ⟨rfl, nofun, nofun⟩
  cases p.init with
  | some init => exact (respects_compileBoxed hc init).bind fun _ => hdefine _
  | none => exact (respects_pure _).bind fun _ => hdefine _

theorem respects_compileVar (d : Datum) : Respects F (compileVar d) :=
  (respects_aside (aside_namedVar d)).bind fun _ => respects_quiet ⟨rfl, nofun, nofun⟩

theorem respects_importClass (name : String) : Respects F (FormM.emit (.importClass name)) :=
  respects_quiet ⟨rfl, nofun, nofun⟩

theorem respects_compileInSpace (d : Datum) : Respects F (compileInSpace d) :=
  (respects_ofExcept _).bind fun name => (respects_aside (aside_enterSpace name)).bind fun _ =>
    respects_quiet ⟨rfl, nofun, nofun⟩

theorem respects_compileSpaceForm (d : Datum) : Respects F (compileSpaceForm d) := by
  refine (respects_ofExcept _).bind fun form => (respects_aside (aside_enterForm d form)).bind fun imported => ?_
  refine (respects_quiet (i := .switchSpace form.name) ⟨rfl, nofun, nofun⟩).bind fun _ => ?_
  refine Respects.forM fun full _ => ?_
  exact (respects_importClass full).bind fun _ => respects_popValue

theorem respects_emitImports (names : List String) : Respects F (emitImports names) := by
  induction names with
  | nil => exact respects_emitConstant .nil
  | cons full rest ih =>
    cases rest with
    | nil => exact respects_importClass full
    | cons full' rest =>
      exact (respects_importClass full).bind fun _ => respects_popValue.bind fun _ => ih

theorem respects_compileImport (d : Datum) : Respects F (compileImport d) :=
  (respects_aside (aside_importAll _)).bind fun names => respects_emitImports names

theorem respects_compileFieldAssignment (hc : Confines F h) (b : Binding) (field : String) (value : Datum) :
    Respects F (compileFieldAssignment h b field value) := by
  refine respects_loadThis.bind fun owner => ((hc value).outOfTail).bind fun _ => ?_
  refine ((respects_coerceTop b.ty).atSpan value.span).bind fun _ => yields_allocSlot.bind fun temp htemp => ?_
  refine (respects_emit (.store htemp b.ty)).bind fun _ => ?_
  refine (respects_quiet (i := .load temp b.ty) ⟨rfl, nofun, nofun⟩).bind fun _ => ?_
  refine (respects_quiet (i := .putField owner field b.ty) ⟨rfl, nofun, nofun⟩).bind fun _ => ?_
  refine (respects_quiet (i := .load temp b.ty) ⟨rfl, nofun, nofun⟩).bind fun _ => ?_
  exact respects_freeSlot htemp

theorem respects_compileSet (hc : Confines F h) (d : Datum) : Respects F (compileSet h d) := by
  refine (respects_ofExcept _).bind fun ⟨target, name, value⟩ => (respects_aside (aside_resolve name)).bind fun r => ?_
  split
  · refine (respects_aside aside_world).bind fun w => (respects_ofExcept _).bind fun _ => ?_
    exact (respects_compileBoxed hc value).bind fun _ => respects_quiet ⟨rfl, nofun, nofun⟩
  · refine .ite ?_ (yields_fail _)
    split
    · exact respects_compileFieldAssignment hc _ _ value
    · exact yields_fail _
  · exact yields_fail _

end Definitions

/-! ### Branches -/

section Branches

variable {F : Fence} {h : Handlers}

theorem yields_labelsFor {α : Type} (items : List α) :
    Yields F (fun labels => ∀ l ∈ labels, F.labels ≤ l) (labelsFor items) :=
  .mapM fun _ _ => yields_newLabel

/-- The hole at the end of an arm is behind the fence. -/
theorem yields_closeArm {last : Label} (hlast : F.labels ≤ last) :
    Yields F (fun arm => F.holes ≤ arm.hole) (closeArm last) := by
  refine respects_topType.bind fun ty => ?_
  have hhole : Yields F (F.holes ≤ ·) (FormM.onCode CodeBuffer.hole) := yields_onCode fun _ hc => hc.hole
  exact hhole.bind fun _ hn => (respects_emit (.goto hlast)).bind fun _ => yields_pure hn

theorem respects_fillArm (target : Ty) {arm : Arm} (harm : F.holes ≤ arm.hole) : Respects F (fillArm target arm) := by
  unfold fillArm
  split
  · exact respects_pure ()
  · refine (respects_aside aside_registry).bind fun r => ?_
    refine (yields_ofExcept fun code hcode => (coerce_conversion hcode).quiet).bind fun code hcode => ?_
    exact respects_modifyCode fun _ hc => hc.fill harm fun i hi => (hcode i hi).permits

theorem respects_joinArms {arms : List Arm} (harms : ∀ arm ∈ arms, F.holes ≤ arm.hole) :
    Respects F (joinArms arms) := by
  refine (respects_aside aside_registry).bind fun r => ?_
  dsimp only
  split
  · exact (Respects.forM fun arm harm => respects_fillArm _ (harms arm harm)).bind fun _ => respects_pure _
  · exact respects_pure _

theorem respects_startAt (base : List StackRecord) {l : Label} (hl : F.labels ≤ l) : Respects F (startAt base l) :=
  (respects_modifyStack _).bind fun _ => respects_place hl

theorem respects_emitTest : Respects F emitTest := by
  refine respects_topType.bind fun ty => ?_
  cases ty with
  | none => exact respects_pure ()
  | some ty =>
    refine .ite (respects_pure ()) ((respects_emitAll (toBoxed_conversion ty).quiet).bind fun _ => ?_)
    exact respects_quiet ⟨rfl, nofun, nofun⟩

theorem respects_compileOptional (hc : Confines F h) (d : Option Datum) : Respects F (compileOptional h d) := by
  cases d with
  | some d => exact hc d
  | none => exact respects_emitConstant .nil

theorem respects_compileIf (hc : Confines F h) (d : Datum) : Respects F (compileIf h d) := by
  refine (respects_ofExcept _).bind fun ⟨test, whenTrue, whenFalse⟩ => ?_
  refine ((hc test).outOfTail).bind fun _ => Respects.whereLive (respects_emitTest.bind fun _ => ?_)
  refine yields_newLabel.bind fun otherwise hotherwise => yields_newLabel.bind fun last hlast => ?_
  refine (respects_emit (.ifFalse hotherwise)).bind fun _ => respects_stack.bind fun stack => ?_
  refine (hc whenTrue).bind fun _ => (yields_closeArm hlast).bind fun first hfirst => ?_
  refine (respects_startAt _ hotherwise).bind fun _ => (respects_compileOptional hc whenFalse).bind fun _ => ?_
  refine (yields_closeArm hlast).bind fun second hsecond => (respects_place hlast).bind fun _ => ?_
  exact (respects_joinArms (by simp [hfirst, hsecond])).bind fun joined => respects_settle _ joined

theorem respects_emitKeyTest (base : List StackRecord) (temp : Nat) {dispatch : Label}
    (hdispatch : F.labels ≤ dispatch) (key : CaseKey) : Respects F (emitKeyTest base temp dispatch key) := by
  refine yields_newLabel.bind fun next hnext => ?_
  refine (respects_quiet (i := .load temp .any) ⟨rfl, nofun, nofun⟩).bind fun _ => ?_
  refine (respects_quiet (i := .const key.constant) ⟨rfl, nofun, nofun⟩).bind fun _ => ?_
  refine (respects_emitAll (toBoxed_conversion _).quiet).bind fun _ => ?_
  refine (respects_quiet (i := .equiv) ⟨rfl, nofun, nofun⟩).bind fun _ => ?_
  refine (respects_emit (.ifFalse hnext)).bind fun _ => ?_
  refine (respects_quiet (i := .const _) ⟨rfl, nofun, nofun⟩).bind fun _ => ?_
  exact (respects_emit (.goto hdispatch)).bind fun _ => respects_startAt base hnext

theorem respects_emitBucket (base : List StackRecord) (temp : Nat) {dispatch fallback : Label}
    (hdispatch : F.labels ≤ dispatch) (hfallback : F.labels ≤ fallback) (b : Bucket) {l : Label}
    (hl : F.labels ≤ l) : Respects F (emitBucket base temp dispatch fallback b l) :=
  (respects_startAt base hl).bind fun _ =>
    (Respects.forM fun key _ => respects_emitKeyTest base temp hdispatch key).bind fun _ =>
      respects_emit (.goto hfallback)

theorem respects_emitSwitch (base : List StackRecord) (temp : Nat) {fallback : Label} {branches : List Label}
    (hfallback : F.labels ≤ fallback) (hbranches : ∀ l ∈ branches, F.labels ≤ l) (keys : List CaseKey) :
    Respects F (emitSwitch base temp fallback branches keys) := by
  have htargets {labels : List Label} (hlabels : ∀ l ∈ labels, F.labels ≤ l) :
      ∀ l ∈ labels ++ [fallback], F.labels ≤ l := by
    intro l hl
    rcases List.mem_append.mp hl with hl | hl
    · exact hlabels l hl
    · rwa [List.mem_singleton.mp hl]
  refine .ite (respects_pure ()) ((yields_labelsFor _).bind fun labels hlabels => ?_)
  refine yields_newLabel.bind fun dispatch hdispatch => ?_
  refine (respects_quiet (i := .load temp .any) ⟨rfl, nofun, nofun⟩).bind fun _ => ?_
  refine (respects_quiet (i := .hashCode) ⟨rfl, nofun, nofun⟩).bind fun _ => ?_
  refine (respects_emit (i := .lookupSwitch _ labels fallback)
    ⟨fun l hl => .inl (htargets hlabels l hl), nofun, nofun⟩).bind fun _ => ?_
  refine (Respects.forM fun q hq => respects_emitBucket base temp hdispatch hfallback q.1
    (hlabels q.2 (List.of_mem_zip hq).2)).bind fun _ => ?_
  refine (respects_modifyStack _).bind fun _ => (respects_place hdispatch).bind fun _ => ?_
  exact respects_emit (i := .tableSwitch 0 branches fallback) ⟨fun l hl => .inl (htargets hbranches l hl), nofun, nofun⟩

theorem respects_compileFallback (hc : Confines F h) (temp : Nat) (span : Span) (fallback : Option Datum) :
    Respects F (compileFallback h temp span fallback) := by
  cases fallback with
  | some d => exact hc d
  | none =>
    refine (respects_emitConstant _).bind fun _ => ?_
    refine (respects_quiet (i := .load temp .any) ⟨rfl, nofun, nofun⟩).bind fun _ => ?_
    refine (respects_emitCall _).bind fun _ => ?_
    refine (respects_quiet (i := .newInstance _ _) ⟨rfl, nofun, nofun⟩).bind fun _ => ?_
    exact respects_quiet ⟨rfl, nofun, nofun⟩

theorem respects_compileCase [Libraries] (hc : Confines F h) (d : Datum) : Respects F (compileCase h d) := by
  refine (respects_ofExcept _).bind fun ⟨subject, clauses⟩ => ?_
  refine ((hc subject).outOfTail).bind fun _ => Respects.whereLive (respects_boxTop.bind fun _ => ?_)
  refine yields_allocSlot.bind fun temp htemp => (respects_emit (.store htemp .any)).bind fun _ => ?_
  refine respects_stack.bind fun stack => yields_newLabel.bind fun fallback hfallback => ?_
  refine yields_newLabel.bind fun last hlast => (yields_labelsFor _).bind fun branches hbranches => ?_
  refine (respects_emitSwitch _ temp hfallback hbranches clauses.keys).bind fun _ => ?_
  have hbranch (q : Datum × Label) (hq : F.labels ≤ q.2) :
      Yields F (fun arm => F.holes ≤ arm.hole) (compileBranch h stack.records last q.1 q.2) :=
    (respects_startAt _ hq).bind fun _ => (hc q.1).bind fun _ => yields_closeArm hlast
  refine (Yields.mapM fun q hq => hbranch q (hbranches q.2 (List.of_mem_zip hq).2)).bind fun arms harms => ?_
  refine (respects_startAt _ hfallback).bind fun _ => ?_
  refine (respects_compileFallback hc temp d.span clauses.fallback).bind fun _ => ?_
  refine (yields_closeArm hlast).bind fun arm harm => (respects_place hlast).bind fun _ => ?_
  refine (respects_freeSlot htemp).bind fun _ => ?_
  have hall : ∀ arm' ∈ arms ++ [arm], F.holes ≤ arm'.hole :=
    List.forall_mem_append.2 ⟨harms, List.forall_mem_singleton.2 harm⟩
  exact (respects_joinArms hall).bind fun joined => respects_settle _ joined

end Branches

/-! ### Locals and loops -/

section Locals

variable {α β : Type} {F : Fence} {Q : β → Prop} {h : Handlers} {x : FormM α}

theorem respects_localType (l : LocalInit) : Respects F (localType l) := by
  refine respects_topType.bind fun ty => ?_
  split
  · exact respects_pure _
  · exact respects_aside (aside_resolveHint _)
  · exact respects_pure _
  · refine (respects_aside (aside_resolveHint _)).bind fun hinted => ?_
    refine (respects_aside (aside_hintApplies _ _ _ _)).bind fun applies => ?_
    exact .ite ((respects_coerceTop hinted).bind fun _ => respects_pure _) (respects_pure _)

/-- A new local is in a slot that was free. -/
theorem yields_storeLocal (ty : Ty) : Yields F (· ∉ F.kept) (storeLocal ty) :=
  yields_allocSlot.bind fun _ hslot => (respects_emit (.store hslot ty)).bind fun _ => yields_pure hslot

theorem respects_describe (l : PlacedLocal) (last : Label) : Respects F (describe l last) :=
  respects_modifyCode fun _ hc => hc.describeLocal _ _ _ _ _

theorem respects_bindLocal {slot : Nat} (hslot : slot ∉ F.kept) (name : String) (ty : Ty) :
    Respects F (FormM.bindName (.inSlot name ty slot)) := by
  refine respects_bindName fun slot' hslot' heq => hslot ?_
  rw [Slot.local.inj heq]
  exact hslot'

theorem respects_compileLocal (hc : Confines F h) (l : LocalInit) : Respects F (compileLocal h l) := by
  refine ((hc l.init).outOfTail).bind fun _ => (respects_localType l).bind fun ty => ?_
  refine (yields_storeLocal ty).bind fun slot hslot => yields_here.respects.bind fun first => ?_
  exact (respects_bindLocal hslot l.name ty).bind fun _ => respects_pure _

theorem respects_compileLet (hc : Confines F h) (d : Datum) : Respects F (compileLet h d) := by
  refine (respects_ofExcept _).bind fun ⟨locals, body⟩ => Respects.withScope ?_ _
  refine (Yields.mapM fun l _ => respects_compileLocal hc l).respects.bind fun placed => ?_
  refine (respects_compileBody hc body).bind fun _ => yields_here.respects.bind fun last => ?_
  exact Respects.forM fun l _ => respects_describe l last

/-- A loop that is entered here, and what follows it. -/
theorem Respects.looped {head : Label} {slots : List (Nat × Ty)} {f : α → FormM β} (hx : Respects F x)
    (hhead : F.labels ≤ head) (hslots : ∀ q ∈ slots, q.1 ∉ F.kept) (hf : ∀ a, Yields F Q (f a)) :
    Yields F Q (do
      let d ← FormM.tryDepth
      let a ← withLoop (.compiled head slots d) (FormM.withTail true x)
      f a) := by
  intro s b t hs hrun
  obtain ⟨d, s₁, h₁, hrun⟩ := State.ok_of_bind hrun
  obtain ⟨rfl, hd⟩ := tryDepth_ok hs.working h₁
  obtain ⟨a, s₁, h₁, hrun⟩ := State.ok_of_bind hrun
  have hloop := heeds_withLoop hx hhead hslots hs hd h₁
  obtain ⟨hb, hrest⟩ := hf a hloop.fenced hrun
  exact ⟨hb, hloop.trans hrest⟩

theorem yields_compileLoopLocal (hc : Confines F h) (l : LocalInit) :
    Yields F (fun placed => placed.2 ∉ F.kept) (compileLoopLocal h l) := by
  refine (respects_compileBoxed hc l.init).bind fun _ => (yields_storeLocal .any).bind fun slot hslot => ?_
  exact (respects_bindLocal hslot l.name .any).bind fun _ => yields_pure hslot

theorem respects_compileLoop (hc : Confines F h) (d : Datum) : Respects F (compileLoop h d) := by
  refine (respects_ofExcept _).bind fun ⟨locals, body⟩ => Respects.withScope ?_ _
  refine (Yields.mapM fun l _ => yields_compileLoopLocal hc l).bind fun placed hplaced => ?_
  refine yields_here.bind fun head hhead => ?_
  have hslots : ∀ q ∈ placed.map fun l => (l.2, Ty.any), q.1 ∉ F.kept := by
    intro q hq
    obtain ⟨l, hl, rfl⟩ := List.mem_map.mp hq
    exact hplaced l hl
  refine (respects_compileBody hc body).looped hhead hslots fun _ => ?_
  refine yields_here.respects.bind fun last => Respects.forM fun l _ => ?_
  exact respects_describe ⟨l.1, l.2, .any, head⟩ last

/-- The loop that a `recur` goes back to was entered behind the fence, or it may be gone back to over it: all between
them is in tail position, and no `try` is. -/
theorem yields_recurTarget (d : Datum) (n : Nat) :
    Yields F (fun target => ∀ head slots depth, target = .compiled head slots depth →
      F.Leads head ∧ ∀ q ∈ slots, q.1 ∉ F.kept) (recurTarget d n) := by
  intro s target t hs hrun
  obtain ⟨rfl, htail, -, ⟨rest, hloops⟩, hdepth⟩ := recurTarget_ok hrun
  refine ⟨fun head slots depth htarget => ?_, .refl hs⟩
  subst htarget
  exact (hs.loop head slots depth rest hloops).2 htail (hdepth hs.working)

theorem respects_compileRecurArg (hc : Confines F h) (arg : Datum) (ty : Ty) :
    Respects F (compileRecurArg h arg ty) :=
  (hc arg).bind fun _ => .ite respects_boxTop (respects_coerceTop ty)

theorem respects_compileRecur (hc : Confines F h) (d : Datum) : Respects F (compileRecur h d) := by
  refine (yields_recurTarget d _).bind fun target htarget => ?_
  cases target with
  | evaluated arity depth => exact yields_fail _
  | compiled head slots depth =>
    obtain ⟨hhead, hslots⟩ := htarget head slots depth rfl
    refine ((Respects.forM fun q _ => respects_compileRecurArg hc q.1 q.2.2).outOfTail).bind fun _ => ?_
    refine (Respects.forM fun q hq => ?_).bind fun _ => respects_emit (.leave hhead)
    exact respects_emit (.store (hslots q (List.mem_reverse.mp hq)) q.2)

end Locals

/-! ### Exceptions -/

section Exceptions

variable {F : Fence} {h : Handlers} {frame : TryFrame}

theorem respects_compileThrow (hc : Confines F h) (d : Datum) : Respects F (compileThrow h d) :=
  (respects_ofExcept _).bind fun value => (respects_compileBoxed hc value).bind fun _ =>
    respects_quiet ⟨rfl, nofun, nofun⟩

theorem respects_compileFinally (hc : Confines F h) (body : Option (List Datum)) :
    Respects F (compileFinally h body) := by
  cases body with
  | none => exact respects_pure ()
  | some body => exact ((respects_compileBody hc body).outOfTail).bind fun _ => respects_popValue

theorem respects_storeResult (hresult : ¬F.Spares frame.result) : Respects F (storeResult frame) :=
  respects_boxTop.bind fun _ => respects_emit (.rewrite hresult .any)

theorem respects_leaveTry (hc : Confines F h) (hafter : F.Leads frame.after) : Respects F (leaveTry h frame) := by
  refine respects_isUnreachable.bind fun dead => .ite (respects_pure _) ?_
  refine (respects_compileFinally hc frame.finally?).bind fun _ => ?_
  exact (respects_emit (.leave hafter)).bind fun _ => respects_pure _

theorem respects_startHandler (ty : Ty) {l : Label} (hl : F.labels ≤ l) : Respects F (startHandler frame ty l) :=
  (respects_modifyStack _).bind fun _ => respects_place hl

theorem respects_clauseValue (hc : Confines F h) (c : CatchClause) : Respects F (clauseValue h c) := by
  refine (yields_storeLocal _).bind fun slot hslot => yields_here.respects.bind fun first => ?_
  exact (respects_bindLocal hslot _ _).bind fun _ => (respects_compileBody hc c.body).bind fun _ => respects_boxTop

theorem respects_storedClause (hc : Confines F h) (hresult : ¬F.Spares frame.result) (c : CatchClause) :
    Respects F (storedClause h frame c) := by
  refine (yields_storeLocal _).bind fun slot hslot => yields_here.respects.bind fun first => ?_
  refine (respects_bindLocal hslot _ _).bind fun _ => (respects_compileBody hc c.body).bind fun _ => ?_
  refine (respects_storeResult hresult).bind fun _ => yields_here.respects.bind fun last => ?_
  exact (respects_describe _ last).bind fun _ => respects_pure _

theorem respects_compileCatch (hc : Confines F h) (hresult : ¬F.Spares frame.result)
    (hafter : F.Leads frame.after) (range : Label × Label) (c : CatchClause) :
    Respects F (compileCatch h frame range c) := by
  refine yields_newLabel.bind fun handler hhandler => ?_
  refine (respects_modifyCode fun _ hc => hc.addHandler _ _ hhandler _ _).bind fun _ => ?_
  refine (respects_startHandler _ hhandler).bind fun _ => ?_
  refine Respects.bind ((respects_storedClause hc hresult c).withScope .methodLet) fun last => ?_
  exact (respects_leaveTry hc hafter).bind fun through => respects_pure _

theorem respects_compilePending (hc : Confines F h) (ranges : List (Label × Label)) :
    Respects F (compilePending h frame ranges) := by
  refine .ite ?_ (respects_pure ())
  refine yields_newLabel.bind fun handler hhandler => ?_
  refine (Respects.forM fun r _ => respects_modifyCode fun _ hc => hc.addHandler _ _ hhandler _ _).bind fun _ => ?_
  refine (respects_startHandler .any hhandler).bind fun _ => (yields_storeLocal .any).bind fun pending hpending => ?_
  refine (respects_compileFinally hc frame.finally?).bind fun _ => ?_
  refine (respects_quiet (i := .load pending .any) ⟨rfl, nofun, nofun⟩).bind fun _ => ?_
  exact (respects_quiet (i := .throwTop) ⟨rfl, nofun, nofun⟩).bind fun _ => respects_freeSlot hpending

theorem respects_compileRegions (hc : Confines F h) (hresult : ¬F.Spares frame.result)
    (hafter : F.Leads frame.after) (parts : TryParts) : Respects F (compileRegions h parts frame) := by
  refine yields_here.respects.bind fun first => (respects_compileBody hc parts.body).bind fun _ => ?_
  refine (respects_storeResult hresult).bind fun _ => yields_here.respects.bind fun last => ?_
  refine (respects_leaveTry hc hafter).bind fun through => ?_
  refine (Yields.mapM fun c _ => respects_compileCatch hc hresult hafter (first, last) c).respects.bind fun caught => ?_
  exact (respects_compilePending hc _).bind fun _ => respects_pure _

theorem respects_compileTry (hc : Confines F h) (d : Datum) : Respects F (compileTry h d) := by
  refine (respects_aside aside_world).bind fun w => (respects_ofExcept _).bind fun parts => Respects.whereLive ?_
  refine respects_stack.bind fun stack => yields_allocSlot.bind fun result hresult => ?_
  refine yields_newLabel.bind fun after hafter => ?_
  let frame : TryFrame := ⟨stack.records, stack.depth, result, after, parts.finally?⟩
  have hregions : Respects F (compileRegions h parts frame) :=
    respects_compileRegions hc (fun hs => hresult hs.1) (.inl hafter) parts
  refine hregions.withinTry.bind fun reachable => ?_
  refine (respects_modifyStack _).bind fun _ => ?_
  cases reachable with
  | true =>
    refine (respects_place hafter).bind fun _ => ?_
    refine (respects_quiet (i := .load result .any) ⟨rfl, nofun, nofun⟩).bind fun _ => ?_
    exact respects_freeSlot hresult
  | false => exact (respects_modifyStack _).bind fun _ => respects_freeSlot hresult

end Exceptions

/-! ### Classes and templates -/

section Classes

variable {α : Type} {F : Fence} {h : Handlers} {x : FormM α}

/-- What leaves the view alone wherever scopes belong to open methods. -/
theorem respects_beside (hx : ∀ s a t, Levelled (view s) → x s = .ok a t → view t = view s) : Respects F x := by
  intro s a t hs hrun
  rw [hx s a t hs.levels hrun]
  exact ⟨trivial, .refl hs⟩

theorem respects_loadCaptures (captures : List Capture) (span : Span) : Respects F (loadCaptures captures span) :=
  (Respects.forM fun r _ => respects_compileName r.name span).outOfTail

theorem respects_compileFn [Libraries] (hb : Compiles h) (d : Datum) : Respects F (compileFn h d) := by
  have hdefined : Respects F (defineFn h d) := by
    refine Respects.bind (respects_beside fun s built t hlevels hrun => ?_) fun built =>
      (respects_aside (aside_loadClass built.1)).bind fun cls => respects_pure _
    exact (buildFn_ok hb hlevels hrun).1
  refine hdefined.bind fun ⟨cls, captures⟩ => (respects_loadCaptures captures d.span).bind fun _ => ?_
  exact respects_quiet ⟨rfl, nofun, nofun⟩

theorem respects_compileType [Libraries] (hb : Compiles h) (d : Datum) : Respects F (compileType h d) :=
  (respects_beside fun _ _ _ hlevels hrun => defineType_ok hb hlevels hrun).bind fun cls =>
    respects_importClass cls.name

theorem respects_compileProtocol [Libraries] (d : Datum) : Respects F (compileProtocol d) :=
  (respects_aside (aside_defineProtocol d)).bind fun cls => respects_importClass cls.name

theorem respects_compileFixedArgs (hc : Confines F h) (args : List (Datum × Ty)) :
    Respects F (compileFixedArgs h args) :=
  .forM fun q _ => (hc q.1).bind fun _ => (respects_coerceTop q.2).atSpan q.1.span

theorem respects_packSuperTail (m : Method) (fixed tail : Nat) : Respects F (packSuperTail m fixed tail) := by
  refine Respects.whereLive (respects_stack.bind fun stack => (respects_ofExcept _).bind fun types => ?_)
  refine (respects_aside aside_registry).bind fun r => ?_
  split
  · exact respects_coerceTop _
  · exact respects_quiet ⟨rfl, nofun, nofun⟩

theorem respects_compileSuperArgs (hc : Confines F h) (m : Method) (args : List Datum) :
    Respects F (compileSuperArgs h m args) := by
  refine Respects.outOfTail ?_
  split
  · split
    · exact yields_fail _
    · refine (respects_compileFixedArgs hc _).bind fun _ => (respects_compileBoxedEach hc _).bind fun _ => ?_
      exact respects_packSuperTail m _ _
  · exact respects_compileFixedArgs hc _

theorem respects_compileProxy [Libraries] (hb : Compiles h) (hc : Confines F h) (d : Datum) : Respects F
    (compileProxy h d) := by
  have hdefined : Respects F (defineProxy h d) := by
    refine Respects.bind (respects_beside fun s built t hlevels hrun => ?_) fun built =>
      (respects_aside (aside_loadClass built.1)).bind fun cls => respects_pure _
    exact (buildProxy_ok hb hlevels hrun).1
  refine hdefined.bind fun p => (respects_compileSuperArgs hc _ _).bind fun _ => ?_
  exact (respects_loadCaptures p.captures d.span).bind fun _ => respects_quiet ⟨rfl, nofun, nofun⟩

end Classes

section Templates

open Template

variable {F : Fence} {h : Handlers}

theorem respects_emitForm (d : Datum) {code : FormM Unit} (hcode : Respects F code) : Respects F (emitForm d code) := by
  refine respects_stack.bind fun before => (hcode.atSpan d.span).bind fun _ => respects_stack.bind fun stack => ?_
  exact .ite (respects_pure ()) (yields_fail _)

mutual

theorem respects_emitPlan (hc : Confines F h) : ∀ (p : Plan) (d : Datum), Respects F (emitPlan h d p)
  | .constant c, d => by
    rw [emitPlan]
    exact respects_emitForm d (respects_emitConstant c)
  | .compute inner, d => by
    rw [emitPlan]
    exact respects_emitForm d (hc inner)
  | .build kind items count, d => by
    rw [emitPlan]
    refine respects_emitForm d (((respects_emitPlans hc items).outOfTail).bind fun _ => ?_)
    exact .ite (respects_quiet (i := .buildSpliced _ _) ⟨rfl, nofun, nofun⟩)
      (respects_quiet (i := .makeCollection _ _) ⟨rfl, nofun, nofun⟩)

theorem respects_emitPlans (hc : Confines F h) : ∀ items, Respects F (emitPlans h items)
  | [] => by
    rw [emitPlans]
    exact respects_pure ()
  | (d, p, splice) :: rest => by
    rw [emitPlans]
    exact (respects_emitPlan hc p d).bind fun _ => respects_boxTop.bind fun _ => respects_emitPlans hc rest

end

theorem respects_compileTemplate (hc : Confines F h) (d : Datum) : Respects F (Template.compile h d) := by
  refine (respects_ofExcept _).bind fun template => ?_
  intro s u t hs hrun
  obtain ⟨s₁, t₁, hs₁, hrun, ht₁⟩ := withNames_ok hrun
  rw [← hs₁] at hs ⊢
  rw [ht₁]
  refine (?_ : Respects F _) hs hrun
  refine (respects_aside (aside_plan template)).bind fun q => ?_
  obtain ⟨p, splice⟩ := q
  have hplan := respects_emitPlan hc p template
  cases splice with
  | true => exact Respects.bind (yields_fail _) fun _ => hplan
  | false => exact hplan

end Templates

/-! ### All forms -/

section All

variable {F : Fence} {h : Handlers}

theorem respects_compileSpecial [Libraries] (hb : Compiles h) (hc : Confines F h) (f : SpecialForm) (d : Datum) :
    Respects F (compileSpecial h f d) := by
  cases f with
  | quote => exact (respects_ofExcept _).bind fun c => respects_emitConstant c
  | syntaxQuote => exact respects_compileTemplate hc d
  | unquote => exact yields_fail _
  | unquoteSplicing => exact yields_fail _
  | ifForm => exact respects_compileIf hc d
  | doForm => exact respects_compileBody hc _
  | letForm => exact respects_compileLet hc d
  | loopForm => exact respects_compileLoop hc d
  | recurForm => exact respects_compileRecur hc d
  | caseForm => exact respects_compileCase hc d
  | throwForm => exact respects_compileThrow hc d
  | tryForm => exact respects_compileTry hc d
  | fnForm => exact respects_compileFn hb d
  | typeForm => exact respects_compileType hb d
  | protocolForm => exact respects_compileProtocol d
  | proxyForm => exact respects_compileProxy hb hc d
  | newForm => exact respects_compileNew hc d
  | dotForm => exact respects_compileDot hc d
  | instanceForm => exact respects_compileInstanceTest hc d
  | defForm => exact respects_compileDef hc d
  | defMacro => exact (respects_ofExcept _).bind fun e => hc e
  | setForm => exact respects_compileSet hc d
  | varForm => exact respects_compileVar d
  | nsForm => exact respects_compileSpaceForm d
  | inNsForm => exact respects_compileInSpace d
  | importForm => exact respects_compileImport d

theorem respects_emitAnalysed [Libraries] (hb : Compiles h) (hc : Confines F h) (d : Datum) (a : Analysis) :
    Respects F (emitAnalysed h d a) := by
  refine respects_emitForm d ?_
  cases a with
  | constant c => exact respects_emitConstant c
  | name => exact respects_compileSymbol d
  | collection => exact respects_compileCollection hc d
  | expanded e => exact hc e
  | special f => exact respects_compileSpecial hb hc f d
  | globalCall v => exact respects_compileGlobalCall hc d v
  | call => exact respects_compileCall hc d

/-- Forms of every depth stay behind every fence. -/
theorem respects_handlers [Libraries] (F : Fence) : ∀ fuel, Confines F (handlers fuel)
  | 0 => fun _ _ _ _ _ hrun => by cases hrun
  | fuel + 1 => fun d => (respects_aside (aside_analyse _ d)).bind fun a =>
      respects_emitAnalysed (compiles_handlers fuel) (respects_handlers F fuel) d a

end All

end LispMachine.Emission
