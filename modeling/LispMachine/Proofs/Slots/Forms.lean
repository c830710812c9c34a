import LispMachine.Proofs.Emission.Verified
import LispMachine.Proofs.Slots.Tracking

/-! # Forms and the slots in use

Every form puts the slots in use back as they were (`keeps_handlers`): one lemma for each step of emission, in the
order of writing, and an induction on how deep forms nest.  `let` and `loop` hand the slots of their locals over to
their scope, `case`, `try` and `set!` hold theirs while the forms inside are compiled and give them back themselves. -/

namespace LispMachine.Slots

open Form Emission
open CodeBuffer (Operation)

/-! ### Parts in sequence -/

section Parts

variable {S : Scene} {C : Holding} {h : Handlers}

/-- Whatever the handlers compile, the slots are used as before behind it. -/
def Restores (S : Scene) (h : Handlers) : Prop := ∀ C d, Keeps S C (h.compile d)

theorem keeps_compileBody (hc : Restores S h) (body : List Datum) : Keeps S C (compileBody h body) := by
  induction body with
  | nil => exact keeps_emitConstant .nil
  | cons d rest ih =>
    cases rest with
    | nil => exact hc C d
    | cons d' rest => exact ((hc C d).outOfTail).bind fun _ => keeps_popValue.bind fun _ => ih

theorem keeps_compileArgs (hc : Restores S h) (args : List Datum) : Keeps S C (compileArgs h args) :=
  (Keeps.forM fun d _ => hc C d).outOfTail

theorem keeps_compileBoxed (hc : Restores S h) (d : Datum) : Keeps S C (compileBoxed h d) :=
  ((hc C d).outOfTail).bind fun _ => keeps_boxTop

theorem keeps_compileBoxedEach (hc : Restores S h) (items : List Datum) : Keeps S C (compileBoxedEach h items) := by
  induction items with
  | nil => exact keeps_pure ()
  | cons d rest ih => exact (hc C d).bind fun _ => keeps_boxTop.bind fun _ => ih

theorem keeps_compileCollection (hc : Restores S h) (d : Datum) : Keeps S C (compileCollection h d) := by
  unfold compileCollection
  split
  · exact tracks_fail _
  · exact ((keeps_compileBoxedEach hc _).outOfTail).bind fun _ => keeps_slotless rfl

theorem keeps_emitSite (kind : SiteKind) (argTypes : List Ty) (ret : Ty) (d : Datum) :
    Keeps S C (emitSite kind argTypes ret d) :=
  keeps_emitCall _

theorem keeps_topTypes (n : Nat) : Keeps S C (topTypes n) := keeps_stack.bind fun _ => keeps_ofExcept _

/-- Arguments first, then what is done with them where control gets behind them. -/
theorem keeps_behindArgs (hc : Restores S h) {args : List Datum} {n : Nat} {rest : List Ty → FormM Unit}
    (hrest : ∀ tys, Keeps S C (rest tys)) :
    Keeps S C (do
      compileArgs h args
      if ← FormM.isUnreachable then return ()
      rest (← topTypes n)) :=
  (keeps_compileArgs hc args).bind fun _ => Keeps.whereLive ((keeps_topTypes n).bind hrest)

theorem keeps_compileGlobalCall (hc : Restores S h) (d : Datum) (v : VarRef) : Keeps S C (compileGlobalCall h d v) :=
  keeps_behindArgs hc fun _ => (keeps_aside aside_world).bind fun _ => keeps_emitSite _ _ _ _

theorem keeps_compileCall (hc : Restores S h) (d : Datum) : Keeps S C (compileCall h d) :=
  keeps_behindArgs hc fun _ => keeps_emitCall _

end Parts

/-! ### Names and members -/

section Names

variable {S : Scene} {C : Holding} {h : Handlers}

/-- What code of the method needs to load a meaning: the receiver, or a slot in use. -/
def Loadable (S : Scene) (C : Holding) : Resolution → Prop
  | .local .closure _ => 0 < S.first
  | .local _ b => 0 < S.first ∧ (∀ n, b.slot ≠ .local n) ∨ ∃ n ∈ C.live S.first, b.slot = .local n
  | _ => True

theorem tracks_resolve (name : String) : Tracks S C (fun _ => C) (Loadable S C) (resolve name) := by
  intro s r t hs hrun
  obtain ⟨rfl, hlookup⟩ := resolve_run hrun
  refine ⟨?_, .refl hs⟩
  cases r with
  | «local» scope b =>
    obtain ⟨f, hf, hb, hscope⟩ := lookup_local hlookup
    have hlevel : s.methods.length = S.level := hs.level
    have hf : f ∈ C.frames ++ S.outer := hs.scopes ▸ hf
    rw [hlevel] at hscope
    rcases List.mem_append.1 hf with hf | hf
    · -- bound in the method itself, where a binding without a slot is reached through the receiver
      obtain ⟨hown, hkind⟩ := hs.own f hf
      rw [if_neg (by omega)] at hscope
      have hloadable : 0 < S.first ∧ (∀ n, b.slot ≠ .local n) ∨ ∃ n ∈ C.live S.first, b.slot = .local n := by
        by_cases hslot : ∃ n, b.slot = .local n
        · obtain ⟨n, hn⟩ := hslot
          exact .inr ⟨n, mem_frames hf (mem_localSlots hb hn), hn⟩
        · exact .inl ⟨hs.reached.resolve_right fun ⟨_, hall⟩ => hslot (hall f hf b hb), fun n hn => hslot ⟨n, hn⟩⟩
      cases scope with
      | closure => exact absurd hscope.symm hkind
      | _ => exact hloadable
    · -- bound around the method, and captured
      have hfirst : 0 < S.first := hs.reached.resolve_right fun ⟨houter, _⟩ => by
        rw [houter] at hf
        cases hf
      rw [if_pos (S.below f hf)] at hscope
      rw [hscope]
      exact hfirst
  | _ => trivial

theorem keeps_loadThis (hfirst : 0 < S.first) : Keeps S C loadThis :=
  keeps_className.bind fun owner => (keeps_load (zero_mem_live hfirst) (.cls owner)).bind fun _ => keeps_pure _

theorem keeps_loadField (hfirst : 0 < S.first) (field : String) (ty : Ty) : Keeps S C (loadField field ty) :=
  (keeps_loadThis hfirst).bind fun _ => keeps_slotless rfl

theorem keeps_loadBinding {b : Binding}
    (hb : 0 < S.first ∧ (∀ n, b.slot ≠ .local n) ∨ ∃ n ∈ C.live S.first, b.slot = .local n) :
    Keeps S C (loadBinding b) := by
  unfold loadBinding
  rcases hb with ⟨hfirst, hnone⟩ | ⟨n, hn, hslot⟩
  · split
    · exact absurd ‹_› (hnone _)
    · exact keeps_load (zero_mem_live hfirst) _
    · exact keeps_loadField hfirst _ _
    · exact tracks_fail _
  · rw [hslot]
    exact keeps_load hn _

theorem keeps_compileName (name : String) (span : Span) : Keeps S C (compileName name span) := by
  refine (tracks_resolve name).bind fun r hr => ?_
  split
  · exact (keeps_capture _ _).bind fun _ => keeps_loadField hr _ _
  · rename_i scope b hscope
    refine keeps_loadBinding ?_
    cases scope with
    | closure => exact absurd rfl hscope
    | _ => exact hr
  · exact (keeps_aside aside_world).bind fun _ => (keeps_ofExcept _).bind fun _ => keeps_emitCall _
  · exact keeps_emitConstant _
  · exact keeps_emitConstant _
  · exact keeps_slotless rfl

theorem keeps_compileSymbol (d : Datum) : Keeps S C (compileSymbol d) := by
  unfold compileSymbol
  split
  · exact keeps_compileName _ _
  · exact tracks_fail _

theorem keeps_compileNew (hc : Restores S h) (d : Datum) : Keeps S C (compileNew h d) := by
  refine (keeps_aside (aside_newParts d)).bind fun ⟨c, args⟩ => keeps_behindArgs hc fun tys => ?_
  refine (keeps_aside aside_registry).bind fun r => ?_
  split
  · exact keeps_slotless rfl
  · exact keeps_emitSite _ _ _ _
  · exact tracks_fail _

theorem keeps_compileStaticCall (hc : Restores S h) (d : Datum) (c : ClassInfo) (m : Member) :
    Keeps S C (compileStaticCall h d c m) := by
  refine (keeps_aside aside_registry).bind fun r => keeps_behindArgs hc fun tys => ?_
  refine (keeps_aside aside_registry).bind fun r => ?_
  split
  · exact keeps_emitSite _ _ _ _
  · exact keeps_emitSite _ _ _ _
  · exact Keeps.bind (tracks_fail _) fun _ => keeps_emitSite _ _ _ _

theorem keeps_compileStaticMember (hc : Restores S h) (d : Datum) (c : ClassInfo) (m : Member) :
    Keeps S C (compileStaticMember h d c m) := by
  refine (keeps_aside aside_registry).bind fun r => ?_
  split
  · exact keeps_slotless rfl
  · exact tracks_fail _
  · exact keeps_compileStaticCall hc d c m

theorem keeps_compileInstanceMember (hc : Restores S h) (d : Datum) (m : Member) :
    Keeps S C (compileInstanceMember h d m) := by
  refine (keeps_compileBoxed hc m.target).bind fun _ => keeps_topType.bind fun receiver => ?_
  split
  · refine Keeps.whereLive ((keeps_aside aside_registry).bind fun r => ?_)
    exact (keeps_topTypes 1).bind fun tys => keeps_emitSite _ _ _ _
  · refine keeps_behindArgs hc fun tys => ?_
    exact (keeps_aside aside_registry).bind fun r => keeps_emitSite _ _ _ _

theorem keeps_compileDot (hc : Restores S h) (d : Datum) : Keeps S C (compileDot h d) := by
  refine (keeps_ofExcept _).bind fun m => (keeps_aside (aside_staticTarget m.target)).bind fun c => ?_
  cases c with
  | some c => exact keeps_compileStaticMember hc d c m
  | none => exact keeps_compileInstanceMember hc d m

theorem keeps_compileInstanceTest (hc : Restores S h) (d : Datum) : Keeps S C (compileInstanceTest h d) :=
  (keeps_aside (aside_instanceTestParts d)).bind fun ⟨_, value⟩ => (keeps_compileBoxed hc value).bind fun _ =>
    keeps_slotless rfl

end Names

/-! ### Definitions and namespaces -/

section Definitions

variable {S : Scene} {C : Holding} {h : Handlers}

theorem keeps_compileDef (hc : Restores S h) (d : Datum) : Keeps S C (compileDef h d) := by
  refine (keeps_ofExcept _).bind fun p => (keeps_aside (aside_internTarget p.target p.name)).bind fun v => ?_
  have hdefine (init : Bool) : Keeps S C (FormM.emit (.defVar v.space v.name (.ofFlags p.target.flags) init)) :=
    keeps_slotless rfl
  cases p.init with
  | some init => exact (keeps_compileBoxed hc init).bind fun _ => hdefine _
  | none => exact (keeps_pure _).bind fun _ => hdefine _

theorem keeps_compileVar (d : Datum) : Keeps S C (compileVar d) :=
  (keeps_aside (aside_namedVar d)).bind fun _ => keeps_slotless rfl

theorem keeps_importClass (name : String) : Keeps S C (FormM.emit (.importClass name)) := keeps_slotless rfl

theorem keeps_compileInSpace (d : Datum) : Keeps S C (compileInSpace d) :=
  (keeps_ofExcept _).bind fun name => (keeps_aside (aside_enterSpace name)).bind fun _ => keeps_slotless rfl

theorem keeps_compileSpaceForm (d : Datum) : Keeps S C (compileSpaceForm d) := by
  refine (keeps_ofExcept _).bind fun form => (keeps_aside (aside_enterForm d form)).bind fun imported => ?_
  refine (keeps_slotless (i := .switchSpace form.name) rfl).bind fun _ => Keeps.forM fun full _ => ?_
  exact (keeps_importClass full).bind fun _ => keeps_popValue

theorem keeps_emitImports (names : List String) : Keeps S C (emitImports names) := by
  induction names with
  | nil => exact keeps_emitConstant .nil
  | cons full rest ih =>
    cases rest with
    | nil => exact keeps_importClass full
    | cons full' rest => exact (keeps_importClass full).bind fun _ => keeps_popValue.bind fun _ => ih

theorem keeps_compileImport (d : Datum) : Keeps S C (compileImport d) :=
  (keeps_aside (aside_importAll _)).bind fun names => keeps_emitImports names

/-- The value is in a temporary of its own while the field is set. -/
theorem keeps_compileFieldAssignment (hc : Restores S h) (hfirst : 0 < S.first) (b : Binding) (field : String)
    (value : Datum) : Keeps S C (compileFieldAssignment h b field value) := by
  refine Tracks.covered fun hcovers => ?_
  refine (keeps_loadThis hfirst).bind fun owner => ((hc C value).outOfTail).bind fun _ => ?_
  refine ((keeps_coerceTop b.ty).atSpan value.span).bind fun _ => tracks_allocSlot.bind fun temp _ => ?_
  have htemp := mem_take C S.first temp
  refine (keeps_store htemp b.ty).bind fun _ => (keeps_load htemp b.ty).bind fun _ => ?_
  refine (keeps_slotless (i := .putField owner field b.ty) rfl).bind fun _ => (keeps_load htemp b.ty).bind fun _ => ?_
  exact tracks_freeSlot hcovers temp

theorem keeps_compileSet (hc : Restores S h) (d : Datum) : Keeps S C (compileSet h d) := by
  refine (keeps_ofExcept _).bind fun ⟨target, name, value⟩ => (tracks_resolve name).bind fun r hr => ?_
  split
  · refine (keeps_aside aside_world).bind fun w => (keeps_ofExcept _).bind fun _ => ?_
    exact (keeps_compileBoxed hc value).bind fun _ => keeps_slotless rfl
  · rename_i scope b
    split
    · rename_i hfield
      obtain rfl : scope = .field := by simpa using (Bool.and_eq_true_iff.1 hfield).1
      split
      · rename_i field hslot
        obtain ⟨hfirst, -⟩ | ⟨n, -, hlocal⟩ := hr
        · exact keeps_compileFieldAssignment hc hfirst _ _ value
        · cases hslot.symm.trans hlocal
      · exact tracks_fail _
    · exact tracks_fail _
  · exact tracks_fail _

end Definitions

/-! ### Branches -/

section Branches

variable {S : Scene} {C : Holding} {h : Handlers}

theorem keeps_labelsFor {α : Type} (items : List α) : Keeps S C (labelsFor items) := .mapM fun _ _ => keeps_newLabel

theorem keeps_closeArm (last : Label) : Keeps S C (closeArm last) := by
  refine keeps_topType.bind fun ty => keeps_hole.bind fun hole => ?_
  exact (keeps_slotless (i := .goto last) rfl).bind fun _ => keeps_pure _

theorem keeps_fillArm (target : Ty) (arm : Arm) : Keeps S C (fillArm target arm) := by
  unfold fillArm
  split
  · exact keeps_pure ()
  · rename_i ty _
    refine (keeps_aside aside_registry).bind fun r => (tracks_coerce r ty target).bind fun code hcode => ?_
    refine keeps_operation (.fill arm.hole code) hcode fun n hn => ?_
    obtain ⟨i, hi, hslot⟩ := List.mem_filterMap.1 hn
    cases (hcode i hi).symm.trans hslot

theorem keeps_joinArms (arms : List Arm) : Keeps S C (joinArms arms) := by
  refine (keeps_aside aside_registry).bind fun r => ?_
  dsimp only
  split
  · exact (Keeps.forM fun arm _ => keeps_fillArm _ arm).bind fun _ => keeps_pure _
  · exact keeps_pure _

theorem keeps_startAt (base : List StackRecord) (l : Label) : Keeps S C (startAt base l) :=
  (keeps_modifyStack _).bind fun _ => keeps_place l

theorem keeps_emitTest : Keeps S C emitTest := by
  refine keeps_topType.bind fun ty => ?_
  cases ty with
  | none => exact keeps_pure ()
  | some ty =>
    refine .ite (keeps_pure ()) ((keeps_emitAll (slotless_of_conversion (toBoxed_conversion ty))).bind fun _ => ?_)
    exact keeps_slotless rfl

theorem keeps_compileOptional (hc : Restores S h) (d : Option Datum) : Keeps S C (compileOptional h d) := by
  cases d with
  | some d => exact hc C d
  | none => exact keeps_emitConstant .nil

theorem keeps_compileIf (hc : Restores S h) (d : Datum) : Keeps S C (compileIf h d) := by
  refine (keeps_ofExcept _).bind fun ⟨test, whenTrue, whenFalse⟩ => ?_
  refine ((hc C test).outOfTail).bind fun _ => Keeps.whereLive (keeps_emitTest.bind fun _ => ?_)
  refine keeps_newLabel.bind fun otherwise => keeps_newLabel.bind fun last => ?_
  refine (keeps_slotless (i := .ifFalse otherwise) rfl).bind fun _ => keeps_stack.bind fun stack => ?_
  refine (hc C whenTrue).bind fun _ => (keeps_closeArm last).bind fun first => ?_
  refine (keeps_startAt _ otherwise).bind fun _ => (keeps_compileOptional hc whenFalse).bind fun _ => ?_
  refine (keeps_closeArm last).bind fun second => (keeps_place last).bind fun _ => ?_
  exact (keeps_joinArms _).bind fun joined => keeps_settle _ joined

variable {temp : Nat}

theorem keeps_emitKeyTest (htemp : temp ∈ C.live S.first) (base : List StackRecord) (dispatch : Label) (key : CaseKey) :
    Keeps S C (emitKeyTest base temp dispatch key) := by
  refine keeps_newLabel.bind fun next => (keeps_load htemp .any).bind fun _ => ?_
  refine (keeps_slotless (i := .const key.constant) rfl).bind fun _ => ?_
  refine (keeps_emitAll (slotless_of_conversion (toBoxed_conversion _))).bind fun _ => ?_
  refine (keeps_slotless (i := .equiv) rfl).bind fun _ => (keeps_slotless (i := .ifFalse next) rfl).bind fun _ => ?_
  refine (keeps_slotless (i := .const _) rfl).bind fun _ => ?_
  exact (keeps_slotless (i := .goto dispatch) rfl).bind fun _ => keeps_startAt base next

theorem keeps_emitBucket (htemp : temp ∈ C.live S.first) (base : List StackRecord) (dispatch fallback : Label)
    (b : Bucket) (l : Label) : Keeps S C (emitBucket base temp dispatch fallback b l) :=
  (keeps_startAt base l).bind fun _ =>
    (Keeps.forM fun key _ => keeps_emitKeyTest htemp base dispatch key).bind fun _ => keeps_slotless rfl

theorem keeps_emitSwitch (htemp : temp ∈ C.live S.first) (base : List StackRecord) (fallback : Label)
    (branches : List Label) (keys : List CaseKey) : Keeps S C (emitSwitch base temp fallback branches keys) := by
  refine .ite (keeps_pure ()) ((keeps_labelsFor _).bind fun labels => keeps_newLabel.bind fun dispatch => ?_)
  refine (keeps_load htemp .any).bind fun _ => (keeps_slotless (i := .hashCode) rfl).bind fun _ => ?_
  refine (keeps_slotless (i := .lookupSwitch _ labels fallback) rfl).bind fun _ => ?_
  refine (Keeps.forM fun q _ => keeps_emitBucket htemp base dispatch fallback q.1 q.2).bind fun _ => ?_
  refine (keeps_modifyStack _).bind fun _ => (keeps_place dispatch).bind fun _ => ?_
  exact keeps_slotless rfl

theorem keeps_compileFallback (hc : Restores S h) (htemp : temp ∈ C.live S.first) (span : Span)
    (fallback : Option Datum) : Keeps S C (compileFallback h temp span fallback) := by
  cases fallback with
  | some d => exact hc C d
  | none =>
    refine (keeps_emitConstant _).bind fun _ => (keeps_load htemp .any).bind fun _ => ?_
    refine (keeps_emitCall _).bind fun _ => (keeps_slotless (i := .newInstance _ _) rfl).bind fun _ => ?_
    exact keeps_slotless rfl

theorem keeps_compileBranch (hc : Restores S h) (base : List StackRecord) (last : Label) (body : Datum) (l : Label) :
    Keeps S C (compileBranch h base last body l) :=
  (keeps_startAt base l).bind fun _ => (hc C body).bind fun _ => keeps_closeArm last

/-- The subject is held until all branches are compiled. -/
theorem keeps_compileCase [Libraries] (hc : Restores S h) (d : Datum) : Keeps S C (compileCase h d) := by
  refine Tracks.covered fun hcovers => ?_
  refine (keeps_ofExcept _).bind fun ⟨subject, clauses⟩ => ?_
  refine ((hc C subject).outOfTail).bind fun _ => Keeps.whereLive (keeps_boxTop.bind fun _ => ?_)
  refine tracks_allocSlot.bind fun temp _ => ?_
  have htemp := mem_take C S.first temp
  refine (keeps_store htemp .any).bind fun _ => keeps_stack.bind fun stack => ?_
  refine keeps_newLabel.bind fun fallback => keeps_newLabel.bind fun last => (keeps_labelsFor _).bind fun branches => ?_
  refine (keeps_emitSwitch htemp _ fallback branches clauses.keys).bind fun _ => ?_
  refine (Keeps.mapM fun q _ => keeps_compileBranch hc _ last q.1 q.2).bind fun arms => ?_
  refine (keeps_startAt _ fallback).bind fun _ => ?_
  refine (keeps_compileFallback hc htemp d.span clauses.fallback).bind fun _ => ?_
  refine (keeps_closeArm last).bind fun arm => (keeps_place last).bind fun _ => ?_
  refine (tracks_freeSlot hcovers temp).bind fun _ _ => ?_
  exact (keeps_joinArms _).bind fun joined => keeps_settle _ joined

end Branches

/-! ### Locals and loops -/

section Locals

variable {S : Scene} {C : Holding} {f : ScopeFrame} {frames : List ScopeFrame} {held : List Nat} {h : Handlers}

theorem keeps_localType (l : LocalInit) : Keeps S C (localType l) := by
  refine keeps_topType.bind fun ty => ?_
  split
  · exact keeps_pure _
  · exact keeps_aside (aside_resolveHint _)
  · exact keeps_pure _
  · refine (keeps_aside (aside_resolveHint _)).bind fun hinted => ?_
    refine (keeps_aside (aside_hintApplies _ _ _ _)).bind fun applies => ?_
    exact .ite ((keeps_coerceTop hinted).bind fun _ => keeps_pure _) (keeps_pure _)

/-- The slot of a new local is held until it is bound. -/
theorem tracks_storeLocal (ty : Ty) : Tracks S C (fun slot => C.take slot) (fun _ => True) (storeLocal ty) :=
  tracks_allocSlot.bind fun slot _ => (keeps_store (mem_take C S.first slot) ty).bind fun _ => tracks_pure trivial rfl

theorem keeps_describe {l : PlacedLocal} (hl : l.slot ∈ C.live S.first) (last : Label) : Keeps S C (describe l last) :=
  keeps_operation (.describeLocal ⟨l.name, l.slot, l.ty, l.first, last⟩) trivial
    fun _ hn => List.mem_singleton.1 hn ▸ hl

theorem tracks_bindLocal (name : String) (ty : Ty) (slot : Nat) :
    Tracks S ⟨f :: frames, slot :: held⟩ (fun _ => ⟨bound (.inSlot name ty slot) f :: frames, held⟩) (fun _ => True)
      (FormM.bindName (.inSlot name ty slot)) :=
  tracks_bindName (b := .inSlot name ty slot) (.inr ⟨slot, rfl⟩)

/-- What a local is bound to once it is in a slot. -/
def placedBinding (l : PlacedLocal) : Binding := .inSlot l.name l.ty l.slot

theorem tracks_compileLocal (hc : Restores S h) (l : LocalInit) :
    Tracks S ⟨f :: frames, held⟩ (fun placed => ⟨bound (placedBinding placed) f :: frames, held⟩) (fun _ => True)
      (compileLocal h l) := by
  refine ((hc _ l.init).outOfTail).bind fun _ => (keeps_localType l).bind fun ty => ?_
  refine (tracks_storeLocal ty).bind fun slot _ => keeps_here.bind fun first => ?_
  exact (tracks_bindLocal l.name ty slot).bind fun _ _ => tracks_pure trivial rfl

/-- Where a local is put is in use once it is bound. -/
theorem mem_boundAll {α : Type} (b : α → Binding) (f : ScopeFrame) {xs : List α} {x : α} {n : Nat} (hx : x ∈ xs)
    (hslot : (b x).slot = .local n) :
    ∃ g ∈ boundAll (xs.map b) f :: frames, n ∈ localSlots g.bindings :=
  ⟨_, List.mem_cons_self, localSlots_boundAll _ f (mem_localSlots (List.mem_map_of_mem hx) hslot)⟩

theorem keeps_compileLet (hc : Restores S h) (d : Datum) : Keeps S C (compileLet h d) := by
  refine (keeps_ofExcept _).bind fun ⟨locals, body⟩ => WithinLet.withScope ?_
  refine (tracks_mapM_bound fun l f => tracks_compileLocal hc l).within fun placed _ => within_of_keeps ?_
  refine (keeps_compileBody hc body).bind fun _ => keeps_here.bind fun last => Keeps.forM fun l hl => ?_
  obtain ⟨g, hg, hslot⟩ := mem_boundAll placedBinding ⟨.methodLet, S.level, []⟩ hl rfl
  exact keeps_describe (mem_frames hg hslot) last

/-- What a local of a loop is bound to once it is in a slot. -/
def loopBinding (l : String × Nat) : Binding := .inSlot l.1 .any l.2

theorem tracks_compileLoopLocal (hc : Restores S h) (l : LocalInit) :
    Tracks S ⟨f :: frames, held⟩ (fun placed => ⟨bound (loopBinding placed) f :: frames, held⟩) (fun _ => True)
      (compileLoopLocal h l) := by
  refine (keeps_compileBoxed hc l.init).bind fun _ => (tracks_storeLocal .any).bind fun slot _ => ?_
  exact (tracks_bindLocal l.name .any slot).bind fun _ _ => tracks_pure trivial rfl

theorem keeps_tryDepth : Keeps S C FormM.tryDepth := by
  intro s d t hs hrun
  obtain ⟨rfl, -⟩ := tryDepth_ok hs.working hrun
  exact ⟨trivial, .refl hs⟩

theorem keeps_compileLoop (hc : Restores S h) (d : Datum) : Keeps S C (compileLoop h d) := by
  refine (keeps_ofExcept _).bind fun ⟨locals, body⟩ => WithinLet.withScope ?_
  refine (tracks_mapM_bound fun l f => tracks_compileLoopLocal hc l).within fun placed _ => within_of_keeps ?_
  refine keeps_here.bind fun head => keeps_tryDepth.bind fun depth => ?_
  refine (Keeps.withLoop ((keeps_compileBody hc body).outOfTail) fun q hq => ?_).bind fun _ => ?_
  · obtain ⟨l, hl, rfl⟩ := List.mem_map.1 hq
    exact mem_boundAll loopBinding ⟨.methodLet, S.level, []⟩ hl rfl
  · refine keeps_here.bind fun last => Keeps.forM fun l hl => ?_
    obtain ⟨g, hg, hslot⟩ := mem_boundAll loopBinding ⟨.methodLet, S.level, []⟩ hl rfl
    exact keeps_describe (mem_frames hg hslot) last

/-- The locals that a `recur` overwrites are bound. -/
theorem tracks_recurTarget (d : Datum) (n : Nat) :
    Tracks S C (fun _ => C) (fun target => ∀ head slots depth, target = .compiled head slots depth →
      ∀ q ∈ slots, q.1 ∈ C.live S.first) (recurTarget d n) := by
  intro s target t hs hrun
  obtain ⟨rfl, -, -, ⟨rest, hloops⟩, -⟩ := recurTarget_ok hrun
  refine ⟨fun head slots depth htarget q hq => ?_, .refl hs⟩
  obtain ⟨f, hf, hslot⟩ := hs.loops head slots depth (hloops ▸ htarget ▸ List.mem_cons_self) q hq
  exact mem_frames hf hslot

theorem keeps_compileRecurArg (hc : Restores S h) (arg : Datum) (ty : Ty) : Keeps S C (compileRecurArg h arg ty) :=
  (hc C arg).bind fun _ => .ite keeps_boxTop (keeps_coerceTop ty)

theorem keeps_compileRecur (hc : Restores S h) (d : Datum) : Keeps S C (compileRecur h d) := by
  refine (tracks_recurTarget d _).bind fun target htarget => ?_
  cases target with
  | evaluated arity depth => exact tracks_fail _
  | compiled head slots depth =>
    have hslots := htarget head slots depth rfl
    refine ((Keeps.forM fun q _ => keeps_compileRecurArg hc q.1 q.2.2).outOfTail).bind fun _ => ?_
    refine (Keeps.forM fun q hq => ?_).bind fun _ => keeps_slotless rfl
    exact keeps_store (hslots q (List.mem_reverse.1 hq)) q.2

end Locals

/-! ### Exceptions -/

section Exceptions

variable {S : Scene} {C : Holding} {h : Handlers} {frame : TryFrame}

theorem keeps_compileThrow (hc : Restores S h) (d : Datum) : Keeps S C (compileThrow h d) :=
  (keeps_ofExcept _).bind fun value => (keeps_compileBoxed hc value).bind fun _ => keeps_slotless rfl

theorem keeps_compileFinally (hc : Restores S h) (body : Option (List Datum)) : Keeps S C (compileFinally h body) := by
  cases body with
  | none => exact keeps_pure ()
  | some body => exact ((keeps_compileBody hc body).outOfTail).bind fun _ => keeps_popValue

theorem keeps_storeResult (hresult : frame.result ∈ C.live S.first) : Keeps S C (storeResult frame) :=
  keeps_boxTop.bind fun _ => keeps_store hresult .any

theorem keeps_leaveTry (hc : Restores S h) : Keeps S C (leaveTry h frame) := by
  refine keeps_isUnreachable.bind fun dead => .ite (keeps_pure _) ?_
  refine (keeps_compileFinally hc frame.finally?).bind fun _ => ?_
  exact (keeps_slotless (i := .goto frame.after) rfl).bind fun _ => keeps_pure _

theorem keeps_startHandler (ty : Ty) (l : Label) : Keeps S C (startHandler frame ty l) :=
  (keeps_modifyStack _).bind fun _ => keeps_place l

/-- What a `let` binds comes on top of what is in use around it. -/
theorem mem_live_let {n : Nat} {bindings : List Binding} (hn : n ∈ C.live S.first) :
    n ∈ (Holding.mk (⟨.methodLet, S.level, bindings⟩ :: C.frames) C.held).live S.first := by
  simp only [Holding.live, List.mem_append, List.flatMap_cons] at hn ⊢
  tauto

/-- The exception is in a slot of the scope of its clause; the result is not. -/
theorem within_storedClause (hc : Restores S h) (hresult : frame.result ∈ C.live S.first) (c : CatchClause) :
    WithinLet S C ⟨⟨.methodLet, S.level, []⟩ :: C.frames, C.held⟩ (storedClause h frame c) := by
  refine (tracks_storeLocal _).within fun slot _ => Tracks.within keeps_here fun first _ => ?_
  refine (tracks_bindLocal c.name (.cls c.cls) slot).within fun _ _ => within_of_keeps ?_
  refine (keeps_compileBody hc c.body).bind fun _ => (keeps_storeResult (mem_live_let hresult)).bind fun _ => ?_
  refine keeps_here.bind fun last => (keeps_describe ?_ last).bind fun _ => keeps_pure _
  exact mem_frames List.mem_cons_self (mem_localSlots (b := .inSlot c.name (.cls c.cls) slot) List.mem_cons_self rfl)

theorem keeps_compileCatch (hc : Restores S h) (hresult : frame.result ∈ C.live S.first) (range : Label × Label)
    (c : CatchClause) : Keeps S C (compileCatch h frame range c) := by
  refine keeps_newLabel.bind fun handler => (keeps_addHandler _ _ _ _ _).bind fun _ => ?_
  refine (keeps_startHandler _ handler).bind fun _ => ?_
  refine Keeps.bind (within_storedClause hc hresult c).withScope fun last => ?_
  exact (keeps_leaveTry hc).bind fun through => keeps_pure _

/-- The exception that is pending is held while `finally` runs. -/
theorem keeps_compilePending (hc : Restores S h) (ranges : List (Label × Label)) :
    Keeps S C (compilePending h frame ranges) := by
  refine Tracks.covered fun hcovers => .ite ?_ (keeps_pure ())
  refine keeps_newLabel.bind fun handler => (Keeps.forM fun r _ => keeps_addHandler _ _ _ _ _).bind fun _ => ?_
  refine (keeps_startHandler .any handler).bind fun _ => (tracks_storeLocal .any).bind fun pending _ => ?_
  refine (keeps_compileFinally hc frame.finally?).bind fun _ => ?_
  refine (keeps_load (mem_take C S.first pending) .any).bind fun _ => ?_
  exact (keeps_slotless (i := .throwTop) rfl).bind fun _ => tracks_freeSlot hcovers pending

theorem keeps_compileRegions (hc : Restores S h) (hresult : frame.result ∈ C.live S.first) (parts : TryParts) :
    Keeps S C (compileRegions h parts frame) := by
  refine keeps_here.bind fun first => (keeps_compileBody hc parts.body).bind fun _ => ?_
  refine (keeps_storeResult hresult).bind fun _ => keeps_here.bind fun last => ?_
  refine (keeps_leaveTry hc).bind fun through => ?_
  refine (Keeps.mapM fun c _ => keeps_compileCatch hc hresult (first, last) c).bind fun caught => ?_
  exact (keeps_compilePending hc _).bind fun _ => keeps_pure _

/-- The result is held until all regions are compiled. -/
theorem keeps_compileTry (hc : Restores S h) (d : Datum) : Keeps S C (compileTry h d) := by
  refine Tracks.covered fun hcovers => ?_
  refine (keeps_aside aside_world).bind fun w => (keeps_ofExcept _).bind fun parts => Keeps.whereLive ?_
  refine keeps_stack.bind fun stack => tracks_allocSlot.bind fun result _ => keeps_newLabel.bind fun after => ?_
  have hresult := mem_take C S.first result
  let frame : TryFrame := ⟨stack.records, stack.depth, result, after, parts.finally?⟩
  have hregions : Keeps S (C.take result) (compileRegions h parts frame) := keeps_compileRegions hc hresult parts
  refine hregions.withinTry.bind fun reachable => (keeps_modifyStack _).bind fun _ => ?_
  cases reachable with
  | true =>
    refine (keeps_place after).bind fun _ => (keeps_load hresult .any).bind fun _ => ?_
    exact tracks_freeSlot hcovers result
  | false => exact (keeps_modifyStack _).bind fun _ => tracks_freeSlot hcovers result

end Exceptions

/-! ### Classes and templates -/

section Classes

variable {α : Type} {S : Scene} {C : Holding} {h : Handlers} {x : FormM α}

theorem At.levelled {v : View} (hv : At S C v) : Levelled v := by
  intro f hf
  rw [hv.level]
  rcases List.mem_append.1 (hv.scopes ▸ hf) with hf | hf
  · exact Nat.le_of_eq (hv.own f hf).1
  · exact Nat.le_of_lt (S.below f hf)

/-- Classes are compiled beside the method. -/
theorem keeps_beside (hx : ∀ s a t, Levelled (view s) → x s = .ok a t → view t = view s) : Keeps S C x := by
  intro s a t hs hrun
  rw [hx s a t hs.levelled hrun]
  exact ⟨trivial, .refl hs⟩

theorem keeps_loadCaptures (captures : List Capture) (span : Span) : Keeps S C (loadCaptures captures span) :=
  (Keeps.forM fun r _ => keeps_compileName r.name span).outOfTail

theorem keeps_compileFn [Libraries] (hb : Compiles h) (d : Datum) : Keeps S C (compileFn h d) := by
  have hdefined : Keeps S C (defineFn h d) := by
    refine Keeps.bind (keeps_beside fun s built t hlevels hrun => ?_) fun built =>
      (keeps_aside (aside_loadClass built.1)).bind fun cls => keeps_pure _
    exact (buildFn_ok hb hlevels hrun).1
  exact hdefined.bind fun ⟨cls, captures⟩ => (keeps_loadCaptures captures d.span).bind fun _ => keeps_slotless rfl

theorem keeps_compileType [Libraries] (hb : Compiles h) (d : Datum) : Keeps S C (compileType h d) :=
  (keeps_beside fun _ _ _ hlevels hrun => defineType_ok hb hlevels hrun).bind fun cls => keeps_importClass cls.name

theorem keeps_compileProtocol [Libraries] (d : Datum) : Keeps S C (compileProtocol d) :=
  (keeps_aside (aside_defineProtocol d)).bind fun cls => keeps_importClass cls.name

theorem keeps_compileFixedArgs (hc : Restores S h) (args : List (Datum × Ty)) : Keeps S C (compileFixedArgs h args) :=
  Keeps.forM fun q _ => (hc C q.1).bind fun _ => (keeps_coerceTop q.2).atSpan q.1.span

theorem keeps_packSuperTail (m : Method) (fixed tail : Nat) : Keeps S C (packSuperTail m fixed tail) := by
  refine Keeps.whereLive (keeps_stack.bind fun stack => (keeps_ofExcept _).bind fun types => ?_)
  refine (keeps_aside aside_registry).bind fun r => ?_
  split
  · exact keeps_coerceTop _
  · exact keeps_slotless rfl

theorem keeps_compileSuperArgs (hc : Restores S h) (m : Method) (args : List Datum) :
    Keeps S C (compileSuperArgs h m args) := by
  refine Keeps.outOfTail ?_
  split
  · split
    · exact tracks_fail _
    · refine (keeps_compileFixedArgs hc _).bind fun _ => (keeps_compileBoxedEach hc _).bind fun _ => ?_
      exact keeps_packSuperTail m _ _
  · exact keeps_compileFixedArgs hc _

theorem keeps_compileProxy [Libraries] (hb : Compiles h) (hc : Restores S h) (d : Datum) : Keeps S C
    (compileProxy h d) := by
  have hdefined : Keeps S C (defineProxy h d) := by
    refine Keeps.bind (keeps_beside fun s built t hlevels hrun => ?_) fun built =>
      (keeps_aside (aside_loadClass built.1)).bind fun cls => keeps_pure _
    exact (buildProxy_ok hb hlevels hrun).1
  refine hdefined.bind fun p => (keeps_compileSuperArgs hc _ _).bind fun _ => ?_
  exact (keeps_loadCaptures p.captures d.span).bind fun _ => keeps_slotless rfl

end Classes

section Templates

open Template

variable {S : Scene} {C : Holding} {h : Handlers}

theorem keeps_emitForm (d : Datum) {code : FormM Unit} (hcode : Keeps S C code) : Keeps S C (emitForm d code) := by
  refine keeps_stack.bind fun before => (hcode.atSpan d.span).bind fun _ => keeps_stack.bind fun stack => ?_
  exact .ite (keeps_pure ()) (tracks_fail _)

mutual

theorem keeps_emitPlan (hc : Restores S h) : ∀ (p : Plan) (d : Datum), Keeps S C (emitPlan h d p)
  | .constant c, d => by
    rw [emitPlan]
    exact keeps_emitForm d (keeps_emitConstant c)
  | .compute inner, d => by
    rw [emitPlan]
    exact keeps_emitForm d (hc C inner)
  | .build kind items count, d => by
    rw [emitPlan]
    refine keeps_emitForm d (((keeps_emitPlans hc items).outOfTail).bind fun _ => ?_)
    exact .ite (keeps_slotless (i := .buildSpliced _ _) rfl) (keeps_slotless (i := .makeCollection _ _) rfl)

theorem keeps_emitPlans (hc : Restores S h) : ∀ items, Keeps S C (emitPlans h items)
  | [] => by
    rw [emitPlans]
    exact keeps_pure ()
  | (d, p, splice) :: rest => by
    rw [emitPlans]
    exact (keeps_emitPlan hc p d).bind fun _ => keeps_boxTop.bind fun _ => keeps_emitPlans hc rest

end

theorem keeps_compileTemplate (hc : Restores S h) (d : Datum) : Keeps S C (Template.compile h d) := by
  refine (keeps_ofExcept _).bind fun template => ?_
  intro s u t hs hrun
  obtain ⟨s₁, t₁, hs₁, hrun, ht₁⟩ := withNames_ok hrun
  rw [← hs₁] at hs ⊢
  rw [ht₁]
  refine (?_ : Keeps S C _) hs hrun
  refine (keeps_aside (aside_plan template)).bind fun q => ?_
  obtain ⟨p, splice⟩ := q
  have hplan := keeps_emitPlan (C := C) hc p template
  cases splice with
  | true => exact Keeps.bind (tracks_fail _) fun _ => hplan
  | false => exact hplan

end Templates

/-! ### All forms -/

section All

variable {S : Scene} {C : Holding} {h : Handlers}

theorem keeps_compileSpecial [Libraries] (hb : Compiles h) (hc : Restores S h) (f : SpecialForm) (d : Datum) :
    Keeps S C (compileSpecial h f d) := by
  cases f with
  | quote => exact (keeps_ofExcept _).bind fun c => keeps_emitConstant c
  | syntaxQuote => exact keeps_compileTemplate hc d
  | unquote => exact tracks_fail _
  | unquoteSplicing => exact tracks_fail _
  | ifForm => exact keeps_compileIf hc d
  | doForm => exact keeps_compileBody hc _
  | letForm => exact keeps_compileLet hc d
  | loopForm => exact keeps_compileLoop hc d
  | recurForm => exact keeps_compileRecur hc d
  | caseForm => exact keeps_compileCase hc d
  | throwForm => exact keeps_compileThrow hc d
  | tryForm => exact keeps_compileTry hc d
  | fnForm => exact keeps_compileFn hb d
  | typeForm => exact keeps_compileType hb d
  | protocolForm => exact keeps_compileProtocol d
  | proxyForm => exact keeps_compileProxy hb hc d
  | newForm => exact keeps_compileNew hc d
  | dotForm => exact keeps_compileDot hc d
  | instanceForm => exact keeps_compileInstanceTest hc d
  | defForm => exact keeps_compileDef hc d
  | defMacro => exact (keeps_ofExcept _).bind fun e => hc C e
  | setForm => exact keeps_compileSet hc d
  | varForm => exact keeps_compileVar d
  | nsForm => exact keeps_compileSpaceForm d
  | inNsForm => exact keeps_compileInSpace d
  | importForm => exact keeps_compileImport d

theorem keeps_emitAnalysed [Libraries] (hb : Compiles h) (hc : Restores S h) (d : Datum) (a : Analysis) :
    Keeps S C (emitAnalysed h d a) := by
  refine keeps_emitForm d ?_
  cases a with
  | constant c => exact keeps_emitConstant c
  | name => exact keeps_compileSymbol d
  | collection => exact keeps_compileCollection hc d
  | expanded e => exact hc C e
  | special f => exact keeps_compileSpecial hb hc f d
  | globalCall v => exact keeps_compileGlobalCall hc d v
  | call => exact keeps_compileCall hc d

/-- Behind a form of any depth the slots are used as in front of it. -/
theorem keeps_handlers [Libraries] (S : Scene) : ∀ fuel, Restores S (handlers fuel)
  | 0 => fun _ _ _ _ _ _ hrun => by cases hrun
  | fuel + 1 => fun _ d => (keeps_aside (aside_analyse _ d)).bind fun a =>
      keeps_emitAnalysed (compiles_handlers fuel) (keeps_handlers S fuel) d a

end All

end LispMachine.Slots
