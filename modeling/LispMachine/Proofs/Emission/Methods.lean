import LispMachine.Proofs.Emission.Locals

/-! # Methods and classes

A method starts from the empty stack with its parameters in the first slots, and its body ends in a return,
so that control does not get to the end.  The verifier then accepts its code, with the call sites of the
class as they are and with any that are added later (`Accepted`).  The constructor of a class has no
branches, and is accepted as well.  A class is built beside the method that surrounds it, which is left as it
was (`buildClass_ok`). -/

namespace LispMachine.Emission

open Form

/-! ### The body of a method -/

section Body

variable {T : Terms} {v₀ v : View} {k : Nat} {s t : FormState} {u : Unit} {h : Handlers} {p : MethodPlan}

/-- Scopes belong to methods that are open. -/
def Levelled (v : View) : Prop := ∀ f ∈ v.scopes.frames, f.level ≤ v.methods.length

/-- A method without a receiver has nothing around it that is reached through one. -/
def SelfContained (v : View) (p : MethodPlan) : Prop :=
  p.isStatic = false ∨ v.scopes.frames = [] ∧ p.fields = [] ∧ p.receiver = none

/-- A view with a new method at work. -/
def View.entered (v : View) (context : MethodContext) : View :=
  { v with methods := context :: v.methods, loops := [] }

/-- The context that a method is compiled in. -/
def freshContext (owner : Nat) (p : MethodPlan) : MethodContext :=
  { code := CodeBuffer.withReserved (p.params.length + p.firstSlot), owner }

theorem firstSlot_pos (hstatic : p.isStatic = false) : 0 < p.firstSlot := by
  simp [MethodPlan.firstSlot, hstatic]

theorem valid_entered (hlevels : Levelled v) (hself : SelfContained v p) (owner : Nat) :
    Valid (v.entered (freshContext owner p)) where
  working := by simp [View.entered]
  steady := ⟨Nat.le_refl _, fun hdead => by cases hdead⟩
  orderly := ⟨List.nodup_nil, by simp [View.entered, View.code, View.work, freshContext,
    CodeBuffer.withReserved], rfl⟩
  free := by simp [View.entered, View.code, View.work, freshContext, CodeBuffer.withReserved]
  stored := by
    intro f hf b _
    have hlevel : f.level < (v.entered (freshContext owner p)).methods.length :=
      Nat.lt_succ_of_le (hlevels f hf)
    rw [Stored, if_pos (.inl hlevel)]
    rcases hself with hstatic | ⟨hframes, -⟩
    · exact Nat.add_pos_right _ (firstSlot_pos hstatic)
    · have hnil : f ∈ v.scopes.frames := hf
      rw [hframes] at hnil
      cases hnil
  levels := fun f hf => Nat.le_succ_of_le (hlevels f hf)
  loops := by simp [View.entered]

/-- Bindings that can be loaded wherever they are seen. -/
theorem Grown.bindAll {α : Type} {b : α → Binding} {xs : List α} {f : ScopeFrame}
    (g : Grown (T.inside f) v₀ k (view s))
    (hstored : ∀ x ∈ xs, ∀ level f', Stored (view s).code.nextSlot level f' (b x))
    (hrun : (xs.forM fun x => FormM.bindName (b x)) s = .ok u t) :
    (∃ f', Grown (T.inside f') v₀ k (view t)) ∧ (view t).stack = (view s).stack ∧
      (view t).code = (view s).code := by
  induction xs generalizing s f with
  | nil =>
      cases hrun
      exact ⟨⟨f, g⟩, rfl, rfl⟩
  | cons x xs ih =>
      obtain ⟨⟨⟩, s₁, h₁, hrun⟩ := State.ok_of_bind hrun
      obtain ⟨g₁, hs₁, hcode₁⟩ := g.bindName h₁ (hstored x (List.mem_cons_self ..) _ _)
      obtain ⟨g₂, hs₂, hcode₂⟩ := ih g₁
        (fun y hy => hcode₁ ▸ hstored y (List.mem_cons_of_mem _ hy)) hrun
      exact ⟨g₂, hs₂.trans hs₁, hcode₂.trans hcode₁⟩

/-- What is reached through the receiver can be loaded where the first slot holds it. -/
theorem stored_receiver {slots level : Nat} (hpos : 0 < slots) (f : ScopeFrame) {b : Binding}
    (hslot : ∀ n, b.slot ≠ .local n) : Stored slots level f b := by
  unfold Stored
  split
  · exact hpos
  · split
    · rename_i n hn
      exact absurd hn (hslot n)
    · trivial
    · exact hpos

theorem Grown.bindReceiver {cls : String} {f : ScopeFrame} (g : Grown (T.inside f) v₀ k (view s))
    (hpos : 0 < (view s).code.nextSlot ∨ p.fields = [] ∧ p.receiver = none)
    (hrun : bindReceiver cls p s = .ok u t) :
    (∃ f', Grown (T.inside f') v₀ k (view t)) ∧ (view t).stack = (view s).stack ∧
      (view t).code = (view s).code := by
  obtain ⟨⟨⟩, s₁, h₁, hrun⟩ := State.ok_of_bind hrun
  have hstored : ∀ b ∈ p.fields, ∀ level f', Stored (view s).code.nextSlot level f'
      { name := b.name, ty := b.ty, slot := .field b.name, isMutable := b.isMutable } := by
    intro b hb level f'
    rcases hpos with hpos | ⟨hfields, -⟩
    · exact stored_receiver hpos f' (by simp)
    · rw [hfields] at hb
      cases hb
  obtain ⟨⟨f₁, g₁⟩, hs₁, hcode₁⟩ := g.bindAll hstored h₁
  cases hreceiver : p.receiver with
  | none =>
      rw [hreceiver] at hrun
      cases hrun
      exact ⟨⟨f₁, g₁⟩, hs₁, hcode₁⟩
  | some name =>
      rw [hreceiver] at hrun
      have hlt : 0 < (view s₁).code.nextSlot := by
        rw [hcode₁]
        exact hpos.resolve_right (by simp [hreceiver])
      obtain ⟨g₂, hs₂, hcode₂⟩ := g₁.bindName hrun (stored_receiver hlt _ (by simp))
      exact ⟨⟨_, g₂⟩, hs₂.trans hs₁, hcode₂.trans hcode₁⟩

theorem mem_slots {q : String × Nat × Ty} (hq : q ∈ p.slots) :
    q.2.1 < p.params.length + p.firstSlot := by
  unfold MethodPlan.slots at hq
  obtain ⟨⟨⟨name, ty⟩, i⟩, hi, rfl⟩ := List.mem_map.1 hq
  have hlt := (List.mem_zipIdx hi).2.1
  simp only [List.length_zip, Nat.zero_add] at hlt
  simp only
  omega

/-- The start of a method has the depth that its body is compiled at. -/
theorem Grown.methodBody {first : Label} (hc : Compiles h) (g : Grown T v 0 (view s))
    (hfirst : ∀ b, T.holds b → b.depthOf first = (view s).reach) (hloops : T.loops = [])
    (hslots : ∀ q ∈ p.slots, q.2.1 < (view s).code.nextSlot)
    (hrun : withMethodLoop p first (FormM.withTail true (compileBody h p.body)) s = .ok u t) :
    ∃ w, Grown T v w (view t) ∧ Top w (view t) := by
  unfold withMethodLoop at hrun
  split at hrun
  · have hslots' : ∀ q ∈ p.slots.map Prod.snd, q.1 < (view s).code.nextSlot := by
      intro q hq
      obtain ⟨q', hq', rfl⟩ := List.mem_map.1 hq
      exact hslots q' hq'
    obtain ⟨s₁, t₁, hrun, g₁, hs₁, ht₁, hback₁⟩ := g.withLoop hslots' hrun
    obtain ⟨s₂, t₂, hrun, g₂, hs₂, ht₂, hback₂⟩ := g₁.withTail hrun
    have htail : ∀ b, T.holds b → TailOk b (view s₂) := by
      intro b hb _ head slots d rest hl x hx
      rw [g₂.loops] at hl
      obtain ⟨heq, -⟩ := List.cons.inj hl
      cases heq
      rw [View.reach, hs₂, hs₁] at hx
      exact (hfirst b hb).trans hx
    obtain ⟨w, g₃, htop⟩ := g₂.body hc htail hrun
    exact ⟨w, hback₁ _ (hback₂ _ g₃), htop.of_stack (ht₁.trans ht₂)⟩
  · obtain ⟨s₂, t₂, hrun, g₂, hs₂, ht₂, hback₂⟩ := g.withTail hrun
    have htail : ∀ b, T.holds b → TailOk b (view s₂) := by
      intro b _ _ head slots d rest hl
      rw [g₂.loops, Terms.tailed, hloops] at hl
      cases hl
    obtain ⟨w, g₃, htop⟩ := g₂.body hc htail hrun
    exact ⟨w, hback₂ _ g₃, htop.of_stack ht₂⟩

/-- The value of the body is returned, so control does not get behind it. -/
theorem Grown.emitReturn {cls : String} {w : Nat} (g : Grown T v₀ w (view s)) (htop : Top w (view s))
    (hrun : emitReturn cls p s = .ok u t) : Grown T v₀ 0 (view t) ∧ (view t).reach = none := by
  obtain ⟨top, s₁, h₁, hrun⟩ := State.ok_of_bind hrun
  obtain ⟨rfl, rfl⟩ := topType_ok h₁
  rcases g.topType htop with ⟨hnone, hdead⟩ | ⟨ty, hty, rfl⟩
  · rw [hnone] at hrun
    cases hrun
    exact ⟨g.of_dead hdead, hdead⟩
  · rw [hty] at hrun
    obtain ⟨r, s₁, h₁, hrun⟩ := State.ok_of_bind hrun
    cases h₁
    cases hcode : Coercion.coerce s.world.registry ty p.ret with
    | error e =>
        rw [hcode] at hrun
        obtain ⟨w, s₁, h₁, hrun⟩ := State.ok_of_bind hrun
        cases hrun
    | ok code =>
        rw [hcode] at hrun
        obtain ⟨⟨⟩, s₁, h₁, hrun⟩ := State.ok_of_bind hrun
        rw [← Nat.zero_add ty.width] at g
        obtain ⟨g₁, -⟩ := g.emitAll (coerce_conversion hcode) (fun _ => htop) h₁
        have hsum : ((if p.ret = .void then [] else [p.ret]).map Ty.width).sum ≤ 0 + p.ret.width := by
          split <;> simp
        have hdead := reach_emit_ends hrun rfl
        exact ⟨(g₁.emitDrop hrun rfl hsum (by simp [Instruction.slot?]) rfl).of_dead hdead, hdead⟩

/-- From its start to its last return, the body of a method grows from the empty stack. -/
theorem compileMethodBody_grown {cls : String} (hc : Compiles h) (hv : Valid (view s))
    (hloops : (view s).loops = []) (hroom : p.params.length + p.firstSlot ≤ (view s).code.nextSlot)
    (hself : SelfContained (view s) p) (hrun : compileMethodBody h cls p s = .ok u t) :
    Grown (terms (view s)) (view s) 0 (view t) ∧ (view t).reach = none := by
  obtain ⟨s₁, t₁, hrun, g₁, hs₁, hstack₁, -, hback₁⟩ := (Grown.ofValid hv).withScope hrun
  have hcode₁ : (view s₁).code = (view s).code := by
    rw [hs₁]
    rfl
  obtain ⟨⟨⟩, s₂, h₂, hrun⟩ := State.ok_of_bind hrun
  have hpos : 0 < (view s₁).code.nextSlot ∨ p.fields = [] ∧ p.receiver = none := by
    refine hself.imp (fun hstatic => ?_) And.right
    have hfirst := firstSlot_pos hstatic
    rw [hcode₁]
    omega
  obtain ⟨⟨f₂, g₂⟩, -, hcode₂⟩ := g₁.bindReceiver hpos h₂
  obtain ⟨s₃, t₃, hrun, g₃, hs₃, hstack₃, -, hback₃⟩ := g₂.withScope hrun
  have hcode₃ : (view s₃).code = (view s₂).code := by
    rw [hs₃]
    rfl
  obtain ⟨first, s₄, h₄, hrun⟩ := State.ok_of_bind hrun
  obtain ⟨hfirst, g₄⟩ := g₃.here h₄
  obtain ⟨⟨⟩, s₅, h₅, hrun⟩ := State.ok_of_bind hrun
  have hslots : ∀ q ∈ p.slots, q.2.1 < (view s₄).code.nextSlot := by
    intro q hq
    have hlt := mem_slots hq
    have heq : (view s₄).code.nextSlot = (view s₃).code.nextSlot := by
      rw [(onCode_ok h₄).2]
      rfl
    rw [heq, hcode₃, hcode₂, hcode₁]
    omega
  obtain ⟨⟨f₅, g₅⟩, hs₅, hcode₅⟩ := Grown.bindAll
    (T := (((terms (view s)).inside f₂).label first (view s₃).reach).await []) g₄
    (fun q hq _ f => stored_inSlot (hslots q hq) f _ _) h₅
  obtain ⟨⟨⟩, s₆, h₆, hrun⟩ := State.ok_of_bind hrun
  have hreach : (view s₅).reach = (view s₃).reach := by
    rw [View.reach, hs₅, stack_here h₄]
    rfl
  obtain ⟨w, g₆, htop⟩ := g₅.methodBody hc (fun b hb => hb.2.trans hreach.symm) hloops (hcode₅ ▸ hslots) h₆
  obtain ⟨⟨⟩, s₇, h₇, hrun⟩ := State.ok_of_bind hrun
  obtain ⟨g₇, hdead⟩ := g₆.emitReturn htop h₇
  obtain ⟨last, s₈, h₈, hrun⟩ := State.ok_of_bind hrun
  obtain ⟨g₈, hs₈⟩ := (g₇.here_closed h₈).describeAll hrun
  have g₉ : Grown ((((terms (view s)).inside f₂).inside f₅).await []) (view s) 0 (view t₃) :=
    Grown.close (T := ((terms (view s)).inside f₂).inside f₅) g₈ (hfirst ▸ g₃.since.labels_le)
      (by simp [Terms.inside, Terms.scoped, terms])
  refine ⟨hback₁ _ _ f₂ _ rfl (hback₃ _ _ f₅ _ rfl g₉), ?_⟩
  rw [View.reach, hstack₁, hstack₃, hs₈, stack_here h₈]
  exact hdead

end Body

/-! ### Accepted methods -/

section Accepted

variable {v t : View} {m : MethodDef} {code : Code} {sites : List SiteSpec}

/-- The verifier accepts a method, whatever call sites its class has besides. -/
def Accepted (m : MethodDef) (sites : List SiteSpec) : Prop :=
  ∀ sites', sites <+: sites' → Verifier.checkMethod m sites' = .ok ()

theorem Accepted.mono {sites' : List SiteSpec} (h : Accepted m sites) (hsites : sites <+: sites') :
    Accepted m sites' :=
  fun sites'' hsites' => h sites'' (hsites.trans hsites')

/-- Code that has grown from nothing, to where control does not get, is accepted. -/
theorem Grown.accepted {owner : Nat} {p : MethodPlan}
    (g : Grown (terms (v.entered (freshContext owner p))) (v.entered (freshContext owner p)) 0 t)
    (hdead : t.reach = none) (hcode : t.code.finish t.stack.max = .ok code) :
    Accepted (p.definition code) t.sites := by
  intro sites' hsites
  obtain ⟨depths, hdepths⟩ := g.plan
  let b : Blueprint :=
    { depthOf := depths, filling := fun h => (t.code.holes[h]?).getD [], sites := sites'
      room := t.stack.max, locals := t.code.nextSlot }
  have hcovers : Covers b (v.entered (freshContext owner p)).code.holes.size [] t :=
    ⟨hsites, Nat.le_refl _, Nat.le_refl _, fun _ _ _ _ => rfl⟩
  have htail : TailOk b (v.entered (freshContext owner p)) := by
    intro _ head slots d rest hloops
    cases hloops
  obtain ⟨seg, hs, hitems, hhandlers, hflow, hguard, -⟩ := hdepths b (fun _ _ _ _ => rfl) hcovers htail
  have hitems' : t.code.items.toList = seg := hitems
  have hhandlers' : t.code.handlers.toList = hs := hhandlers
  have hsound : Sound b t.code :=
    { orderly := g.valid.orderly
      fills := fun _ _ => rfl
      flow := by
        rw [hitems', ← hdead]
        exact hflow 0 fun _ => Nat.zero_le _
      guarded := by
        rw [hitems', hhandlers']
        exact fun h hh => (hguard h hh).1
      locals := rfl }
  refine hsound.checkMethod hcode rfl ?_
  have hslots := g.since.slots_le
  have hparams : Verifier.parameterSlots (p.definition code) = p.params.length + p.firstSlot := rfl
  rw [hparams]
  exact hslots

end Accepted

/-! ### Methods of a class -/

section Build

variable {s t : FormState} {u : Unit} {h : Handlers} {p : MethodPlan}

theorem withMethod_ok {α : Type} {a : α} {m : FormM α} {context c : MethodContext}
    (hrun : FormM.withMethod context m s = .ok (a, c) t) :
    ∃ s₁ t₁, view s₁ = (view s).entered context ∧ m s₁ = .ok a t₁ ∧
      (view t₁).methods[(view t₁).methods.length - (view s).methods.length - 1]? = some c ∧
      view t = ⟨(view t₁).methods.drop ((view t₁).methods.length - (view s).methods.length),
        (view t₁).classes, (view t₁).scopes, (view s).loops, (view s).tail⟩ := by
  obtain ⟨s', u, hu, hrun⟩ := State.ok_of_bind hrun
  cases hu
  obtain ⟨⟨⟩, s₁, h₁, hrun⟩ := State.ok_of_bind hrun
  cases h₁
  obtain ⟨⟨a', c'⟩, s₂, h₂, hrun⟩ := State.ok_of_bind hrun
  obtain ⟨t₁, h₁, rfl⟩ := andFinally_ok h₂
  obtain ⟨a'', t₂, hm, h₁⟩ := State.ok_of_bind h₁
  obtain ⟨s', u, hu, h₁⟩ := State.ok_of_bind h₁
  cases hu
  cases hc : t₂.methods[t₂.methods.length - s.methods.length - 1]? with
  | none =>
      rw [hc] at h₁
      cases h₁
      cases hrun
  | some c'' =>
      rw [hc] at h₁
      cases h₁
      cases hrun
      exact ⟨_, _, rfl, hm, hc, rfl⟩

/-- Two views differ in nothing but the class at a position. -/
structure Beside (i : Nat) (v t : View) : Prop where
  same : t = { v with classes := t.classes }
  size : t.classes.size = v.classes.size
  classes : ∀ j, j ≠ i → t.classes[j]? = v.classes[j]?

namespace Beside

variable {i : Nat} {v w x : View}

theorem refl (i : Nat) (v : View) : Beside i v v := ⟨rfl, rfl, fun _ _ => rfl⟩

theorem trans (h : Beside i v w) (h' : Beside i w x) : Beside i v x where
  same := by rw [h'.same, h.same]
  size := h'.size.trans h.size
  classes := fun j hj => (h'.classes j hj).trans (h.classes j hj)

theorem levelled (h : Beside i v w) (hlevels : Levelled v) : Levelled w := by
  rw [h.same]
  exact hlevels

theorem selfContained (h : Beside i v w) (hself : SelfContained v p) : SelfContained w p := by
  rw [h.same]
  exact hself

end Beside

/-- All methods of the class at a position are accepted. -/
def Checked (i : Nat) (v : View) : Prop :=
  ∃ c, v.classes[i]? = some c ∧ ∀ m ∈ c.file.methods, Accepted m c.file.sites

theorem Since.beside {v w : View} (h : Since v w) (i : Nat) (hi : i ≠ v.work.owner) :
    w.classes[i]? = v.classes[i]? := by
  cases hc : v.classes[i]? with
  | none =>
      rw [Array.getElem?_eq_none_iff] at hc ⊢
      rwa [h.size]
  | some c =>
      obtain ⟨c', hc', -, heq⟩ := h.classes i c hc
      rw [hc', heq hi]

/-- Behind a method everything is as it was, but for call sites and captures of its class; and its code is
accepted. -/
theorem withMethod_body (hc : Compiles h) {owner : Nat} {cls : String} {c : ClassContext}
    {context : MethodContext} (hlevels : Levelled (view s)) (hself : SelfContained (view s) p)
    (hclass : (view s).classes[owner]? = some c)
    (hrun : FormM.withMethod (freshContext owner p) (compileMethodBody h cls p) s = .ok ((), context) t) :
    Beside owner (view s) (view t) ∧ ∃ c', (view t).classes[owner]? = some c' ∧ Widened c c' ∧
      ∀ code, context.code.finish context.stack.max = .ok code →
        Accepted (p.definition code) c'.file.sites := by
  obtain ⟨s₁, t₁, hs₁, hbody, hcontext, hview⟩ := withMethod_ok hrun
  have hv : Valid (view s₁) := hs₁ ▸ valid_entered hlevels hself owner
  have hself₁ : SelfContained (view s₁) p := hs₁ ▸ hself
  obtain ⟨g, hdead⟩ := compileMethodBody_grown hc hv (by rw [hs₁]; rfl)
    (by rw [hs₁]; exact Nat.le_refl _) hself₁ hbody
  rw [hs₁] at g
  have houter : (view t₁).methods.tail = (view s).methods := g.since.outer
  have hmethods : (view t₁).methods = (view t₁).work :: (view s).methods :=
    (View.methods_eq g.methods_ne).trans (congrArg _ houter)
  have hlength : (view t₁).methods.length - (view s).methods.length = 1 := by
    rw [hmethods, List.length_cons]
    omega
  rw [hlength, hmethods] at hview
  obtain rfl : (view t₁).work = context := by
    rw [hlength, hmethods] at hcontext
    exact Option.some.inj hcontext
  have hclasses : (view t).classes = (view t₁).classes := by rw [hview]
  have hscopes : (view t₁).scopes = (view s).scopes := g.scopes
  refine ⟨⟨?_, ?_, ?_⟩, ?_⟩
  · rw [hview, hscopes]
    rfl
  · rw [hclasses]
    exact g.since.size
  · intro i hi
    rw [hclasses]
    exact g.since.beside i hi
  · obtain ⟨c', hc', hwidened, -⟩ := g.since.classes owner c hclass
    refine ⟨c', hclasses ▸ hc', hwidened, ?_⟩
    intro code hcode
    have hsites : (view t₁).sites = c'.file.sites := View.sites_eq (g.since.owner ▸ hc')
    exact hsites ▸ g.accepted hdead hcode

/-- A method is added to its class, and nothing else is changed. -/
theorem buildMethod_ok (hc : Compiles h) {owner : Nat} (hlevels : Levelled (view s))
    (hself : SelfContained (view s) p) (hchecked : Checked owner (view s))
    (hrun : buildMethod h owner p s = .ok u t) : Beside owner (view s) (view t) ∧ Checked owner (view t) := by
  obtain ⟨c, hclass, hmethods⟩ := hchecked
  obtain ⟨s', s₁, h₁, hrun⟩ := State.ok_of_bind hrun
  cases h₁
  have hclass' : s.classes[owner]? = some c := hclass
  rw [hclass'] at hrun
  obtain ⟨⟨⟨⟩, context⟩, s₁, h₁, hrun⟩ := State.ok_of_bind hrun
  obtain ⟨hbeside, c', hc', hwidened, haccepted⟩ := withMethod_body hc hlevels hself hclass h₁
  obtain ⟨code, s₂, h₂, hrun⟩ := State.ok_of_bind hrun
  obtain ⟨hfinish, rfl⟩ := ofExcept_ok h₂
  cases hrun
  refine ⟨hbeside.trans ⟨rfl, Array.size_modify .., ?_⟩, c'.addMethod (p.definition code), ?_, ?_⟩
  · intro i hi
    exact (Array.getElem?_modify ..).trans (if_neg (Ne.symm hi))
  · refine (Array.getElem?_modify ..).trans ?_
    rw [if_pos rfl]
    exact congrArg (Option.map _) hc'
  · intro m hm
    rcases List.mem_append.1 hm with hm | hm
    · rw [hwidened.file] at hm
      exact (hmethods m hm).mono hwidened.sites
    · obtain rfl := List.mem_singleton.1 hm
      exact haccepted code hfinish

theorem buildMethods_ok (hc : Compiles h) {owner : Nat} {methods : List (Registry → MethodPlan)}
    (hlevels : Levelled (view s)) (hself : ∀ m ∈ methods, ∀ r, SelfContained (view s) (m r))
    (hchecked : Checked owner (view s))
    (hrun : (methods.forM fun m => do buildMethod h owner (m (← FormM.registry))) s = .ok u t) :
    Beside owner (view s) (view t) ∧ Checked owner (view t) := by
  induction methods generalizing s with
  | nil =>
      cases hrun
      exact ⟨.refl _ _, hchecked⟩
  | cons m rest ih =>
      obtain ⟨⟨⟩, s₁, h₁, hrun⟩ := State.ok_of_bind hrun
      obtain ⟨r, s₂, h₂, h₁⟩ := State.ok_of_bind h₁
      cases h₂
      obtain ⟨hbeside, hchecked₁⟩ := buildMethod_ok hc hlevels (hself m (List.mem_cons_self ..) _) hchecked h₁
      obtain ⟨hbeside', hchecked₂⟩ := ih (hbeside.levelled hlevels)
        (fun m' hm' r => hbeside.selfContained (hself m' (List.mem_cons_of_mem _ hm') r)) hchecked₁ hrun
      exact ⟨hbeside.trans hbeside', hchecked₂⟩

end Build

/-! ### Constructors -/

section Constructors

variable {p : Blueprint} {stack stack' : TypeStack} {code : List Instruction} {reserved : Nat}

/-- An instruction that control goes past, with its slot among the first ones. -/
def Plain (slots : Nat) (i : Instruction) : Prop :=
  i.endsBlock = false ∧ i.targets = [] ∧ ∀ n, i.slot? = some n → n < slots

/-- One instruction of code without branches. -/
theorem straightLineStack_cons {i : Instruction}
    (h : straightLineStack stack (i :: code) = .ok stack') :
    ∃ e mid, i.effect [] = .ok e ∧ stack.apply e = (.ok (), mid) ∧
      straightLineStack mid code = .ok stack' := by
  obtain ⟨e, he, h⟩ := bind_ok h
  cases happly : stack.apply e with
  | mk result mid =>
      rw [happly] at h
      obtain ⟨⟨⟩, hresult, h⟩ := bind_ok h
      exact ⟨e, mid, he, by rw [happly]; exact Prod.ext hresult rfl, h⟩

/-- Code without branches flows as the stack is followed through it. -/
theorem straightLineStack_flow (h : straightLineStack stack code = .ok stack')
    (hlive : stack.isUnreachable = false) (hdepth : stack.depth ≤ stack.max)
    (hplain : ∀ i ∈ code, Plain p.locals i) (hroom : stack'.max ≤ p.room) :
    Flow p 0 (some stack.depth) (code.map .instruction) (some stack'.depth) ∧
      stack'.isUnreachable = false ∧ stack'.depth ≤ stack'.max ∧ stack.max ≤ stack'.max := by
  induction code generalizing stack with
  | nil =>
      obtain rfl := Except.ok.inj h
      exact ⟨.nil, hlive, hdepth, Nat.le_refl _⟩
  | cons i rest ih =>
      obtain ⟨e, mid, he, happly, h⟩ := straightLineStack_cons h
      have ha := apply_ok hlive happly
      obtain ⟨hends, htargets, hslot⟩ := hplain i (List.mem_cons_self ..)
      obtain ⟨hflow, hlive', hdepth', hmax⟩ := ih h ha.live (ha.depth_le hdepth)
        fun j hj => hplain j (List.mem_cons_of_mem _ hj)
      obtain ⟨below, hbelow, habove⟩ := ha.widths
      have hbefore : stack.depth = e.popped + below.sum := by
        rw [← sum_widths, hbelow, List.sum_append_nat, sum_operands]
      have hbehind : mid.depth = e.pushed + below.sum := by
        rw [← sum_widths, habove, List.sum_append_nat, sum_results]
      have hafter : afterEffect stack.depth e = mid.depth := by
        rw [afterEffect]
        omega
      have hmid := ha.depth_le hdepth
      have hle := ha.max_le
      have hfit : Fitting p 0 stack.depth i e := by
        refine ⟨effect_mono List.nil_prefix he, ha.needs, by omega, by omega, by omega, hslot, ?_⟩
        simp [htargets]
      refine ⟨?_, hlive', hdepth', Nat.le_trans hle hmax⟩
      have hfirst := Flow.instruction hfit
      rw [exitOf, hends, hafter] at hfirst
      exact hfirst.append hflow

theorem straightLineStack_append {more : List Instruction}
    (h : straightLineStack stack (code ++ more) = .ok stack') :
    ∃ mid, straightLineStack stack code = .ok mid ∧ straightLineStack mid more = .ok stack' := by
  induction code generalizing stack with
  | nil => exact ⟨stack, rfl, h⟩
  | cons i rest ih =>
      obtain ⟨e, mid, he, happly, h⟩ := straightLineStack_cons h
      obtain ⟨mid', hmid, h⟩ := ih h
      refine ⟨mid', ?_, h⟩
      rw [straightLineStack, he]
      simpa [bind, Except.bind, happly] using hmid

theorem foldl_push (code : List Instruction) (b : CodeBuffer) :
    (code.foldl CodeBuffer.push b).items.toList = b.items.toList ++ code.map .instruction ∧
      (code.foldl CodeBuffer.push b).holes = b.holes ∧
      (code.foldl CodeBuffer.push b).handlers = b.handlers ∧
      (code.foldl CodeBuffer.push b).nextSlot = b.nextSlot := by
  induction code generalizing b with
  | nil => simp
  | cons i rest ih =>
      obtain ⟨hitems, hholes, hhandlers, hslots⟩ := ih (b.push i)
      rw [List.foldl_cons]
      refine ⟨?_, hholes, hhandlers, hslots⟩
      rw [hitems]
      simp [CodeBuffer.push]

theorem labelsOf_map (code : List Instruction) : labelsOf (code.map .instruction) = [] := by
  induction code with
  | nil => rfl
  | cons i rest ih => exact ih

theorem holesOf_map (code : List Instruction) : holesOf (code.map .instruction) = [] := by
  induction code with
  | nil => rfl
  | cons i rest ih => exact ih

/-- Code without branches that ends in a return is accepted. -/
theorem straightLine_accepted {finished : Code} {m : MethodDef}
    (h : straightLine reserved (code ++ [Instruction.ret .void]) = .ok finished)
    (hplain : ∀ i ∈ code, Plain reserved i) (hm : m.code = some finished)
    (hparams : Verifier.parameterSlots m ≤ reserved) (sites : List SiteSpec) : Accepted m sites := by
  intro sites' _
  obtain ⟨stack, hstack, hfinish⟩ := bind_ok h
  obtain ⟨mid, hmid, hlast⟩ := straightLineStack_append hstack
  obtain ⟨e, last, he, happly, hlast⟩ := straightLineStack_cons hlast
  obtain rfl := Except.ok.inj hlast
  obtain rfl := Except.ok.inj he
  obtain rfl : mid = last := by
    simp only [TypeStack.apply, if_true, List.reverse_nil, TypeStack.popAll] at happly
    split at happly <;> exact (Prod.mk.inj happly).2
  let p : Blueprint :=
    { depthOf := fun _ => none, filling := fun _ => [], sites := sites', room := mid.max
      locals := reserved }
  obtain ⟨hflow, -, hdepth, -⟩ :=
    straightLineStack_flow (p := p) hmid rfl (Nat.le_refl _) hplain (Nat.le_refl _)
  have hreturn : Fitting p 0 mid.depth (.ret .void) (.ops [] none) :=
    ⟨rfl, Nat.zero_le _, Nat.zero_le _, hdepth, hdepth, by simp [Instruction.slot?],
      by simp [Instruction.targets]⟩
  obtain ⟨hitems, hholes, hhandlers, hslots⟩ :=
    foldl_push (code ++ [Instruction.ret .void]) (CodeBuffer.withReserved reserved)
  generalize (code ++ [Instruction.ret .void]).foldl CodeBuffer.push (CodeBuffer.withReserved reserved) = b
    at hfinish hitems hholes hhandlers hslots
  have hsound : Sound p b :=
    { orderly := by
        refine ⟨?_, ?_, ?_⟩
        · rw [hitems, labelsOf_append, labelsOf_map]
          exact List.nodup_nil
        · rw [hitems, labelsOf_append, labelsOf_map]
          exact fun l hl => absurd hl List.not_mem_nil
        · rw [hitems, hholes, holesOf_append, holesOf_map]
          rfl
      fills := by
        rw [Fills, hholes]
        exact fun h hh => absurd hh (Nat.not_lt_zero _)
      flow := by
        rw [hitems, List.map_append]
        exact hflow.append (.instruction hreturn)
      guarded := by simp [hhandlers, CodeBuffer.withReserved]
      locals := hslots.symm }
  exact hsound.checkMethod hfinish hm (hslots ▸ hparams)

theorem plain_load {slots n : Nat} (hn : n < slots) (ty : Ty) : Plain slots (.load n ty) := by
  refine ⟨rfl, rfl, ?_⟩
  intro m hm
  obtain rfl := Option.some.inj hm
  exact hn

/-- The code of a constructor loads the receiver and the arguments only. -/
theorem constructorCode_plain (owner superclass : String) (params : List Ty) (stored : List (String × Ty)) :
    ∃ code, constructorCode owner superclass params stored = code ++ [Instruction.ret .void] ∧
      ∀ i ∈ code, Plain (params.length + stored.length + 1) i := by
  refine ⟨_, rfl, ?_⟩
  intro i hi
  rcases List.mem_append.1 hi with hi | hi
  · rcases List.mem_append.1 hi with hi | hi
    · rcases List.mem_cons.1 hi with rfl | hi
      · exact plain_load (Nat.succ_pos _) _
      · obtain ⟨⟨ty, n⟩, hn, rfl⟩ := List.mem_map.1 hi
        have hlt := (List.mem_zipIdx hn).2.1
        refine plain_load ?_ _
        omega
    · obtain rfl := List.mem_singleton.1 hi
      exact ⟨rfl, rfl, by simp [Instruction.slot?]⟩
  · obtain ⟨⟨⟨name, ty⟩, n⟩, hn, hi⟩ := List.mem_flatMap.1 hi
    have hlt := (List.mem_zipIdx hn).2.1
    simp only [List.mem_cons, List.not_mem_nil, or_false] at hi
    rcases hi with rfl | rfl | rfl
    · exact plain_load (Nat.succ_pos _) _
    · refine plain_load ?_ _
      omega
    · exact ⟨rfl, rfl, by simp [Instruction.slot?]⟩

theorem constructorOf_accepted {c : ClassContext} {plan : ConstructorPlan} {m : MethodDef}
    (h : constructorOf c plan = .ok (some m)) (sites : List SiteSpec) : Accepted m sites := by
  unfold constructorOf at h
  split at h
  · cases h
  · obtain ⟨code, hcode, h⟩ := bind_ok h
    obtain rfl := Option.some.inj (Except.ok.inj h)
    obtain ⟨body, hbody, hplain⟩ := constructorCode_plain c.file.name c.file.superclass plan.superParams
      (plan.ownFields ++ c.captures.map fun r => (r.field, r.ty))
    rw [hbody] at hcode
    refine straightLine_accepted hcode ?_ rfl (Nat.le_refl _) sites
    simpa using hplain

end Constructors

/-! ### Classes -/

section Classes

variable {s t : FormState} {h : Handlers}

theorem finishedFile_checks {c : ClassContext} {plan : ConstructorPlan} {file : ClassFile}
    (hmethods : ∀ m ∈ c.file.methods, Accepted m c.file.sites)
    (h : finishedFile c plan = .ok file) : Verifier.checkClass file = .ok () := by
  obtain ⟨init, hinit, h⟩ := bind_ok h
  obtain rfl := Except.ok.inj h
  refine Verifier.checkClass_of_checkMethod ?_
  intro m hm
  rcases List.mem_append.1 hm with hm | hm
  · exact hmethods m hm _ (List.prefix_refl _)
  · obtain rfl := Option.mem_toList.1 hm
    exact constructorOf_accepted hinit c.file.sites _ (List.prefix_refl _)

theorem withClass_ok {α : Type} {a : α} {m : Nat → FormM α} {context c : ClassContext}
    (hrun : FormM.withClass context m s = .ok (a, c) t) :
    ∃ s₁ t₁, view s₁ = { view s with classes := (view s).classes.push context } ∧
      m (view s).classes.size s₁ = .ok a t₁ ∧
      (view t₁).classes[(view s).classes.size]? = some c ∧
      view t = { view t₁ with classes := (view t₁).classes.take (view s).classes.size } := by
  obtain ⟨s', u, hu, hrun⟩ := State.ok_of_bind hrun
  cases hu
  obtain ⟨⟨⟩, s₁, h₁, hrun⟩ := State.ok_of_bind hrun
  cases h₁
  obtain ⟨⟨a', c'⟩, s₂, h₂, hrun⟩ := State.ok_of_bind hrun
  obtain ⟨t₁, h₁, rfl⟩ := andFinally_ok h₂
  obtain ⟨a'', t₂, hm, h₁⟩ := State.ok_of_bind h₁
  obtain ⟨s', u, hu, h₁⟩ := State.ok_of_bind h₁
  cases hu
  cases hc : t₂.classes[s.classes.size]? with
  | none =>
      rw [hc] at h₁
      cases h₁
      cases hrun
  | some c'' =>
      rw [hc] at h₁
      cases h₁
      cases hrun
      exact ⟨_, _, rfl, hm, hc, rfl⟩

/-- What stood in front of a class that was built is all that is left of the classes. -/
theorem Beside.take_push {v w : View} {context : ClassContext}
    (hb : Beside v.classes.size { v with classes := v.classes.push context } w) :
    w.classes.take v.classes.size = v.classes := by
  refine Array.ext_getElem? fun i => ?_
  have hsize : w.classes.size = v.classes.size + 1 := hb.size.trans (Array.size_push _)
  rw [Array.take_eq_extract, Array.getElem?_extract, Nat.zero_add, hsize]
  split
  · rename_i hi
    have hlt : i ≠ v.classes.size := by omega
    rw [hb.classes i hlt, Array.getElem?_push, if_neg hlt]
  · rename_i hi
    rw [Array.getElem?_eq_none (by omega)]

/-- A class is built beside what surrounds it, and the verifier accepts it. -/
theorem buildClass_ok (hc : Compiles h) {file file' : ClassFile} {mode : ClassMode}
    {methods : List (Registry → MethodPlan)} {plan : ConstructorPlan} {captures : List Capture}
    (hlevels : Levelled (view s)) (hrun : buildClass h file mode methods plan s = .ok (file', captures) t)
    (hself : ∀ m ∈ methods, ∀ r, SelfContained (view s) (m r)) (hempty : file.methods = []) :
    view t = view s ∧ Verifier.checkClass file' = .ok () := by
  obtain ⟨⟨⟨⟩, c⟩, s₁, h₁, hrun⟩ := State.ok_of_bind hrun
  obtain ⟨finished, s₂, h₂, hrun⟩ := State.ok_of_bind hrun
  obtain ⟨hfinished, rfl⟩ := ofExcept_ok h₂
  cases hrun
  obtain ⟨s₂, t₂, hs₂, hbuilt, hclass, hview⟩ := withClass_ok h₁
  have hchecked : Checked (view s).classes.size (view s₂) := by
    refine ⟨{ file, mode }, by simp [hs₂], ?_⟩
    simp [hempty]
  obtain ⟨hbeside, c', hc', hmethods⟩ := buildMethods_ok hc (hs₂ ▸ hlevels) (hs₂ ▸ hself) hchecked hbuilt
  obtain rfl := Option.some.inj (hclass.symm.trans hc')
  refine ⟨?_, finishedFile_checks hmethods hfinished⟩
  rw [hs₂] at hbeside
  rw [hview, hbeside.take_push, hbeside.same]

end Classes

end LispMachine.Emission
