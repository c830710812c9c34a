import Mathlib.Data.List.TakeWhile
import LispMachine.Libraries.Standard
import LispMachine.Proofs.Agreement.Operands

/-! # Type hints in both modes

A compiled `let` imposes the hinted type on the value of a local where it can; an interpreted one only holds the
hint against a literal and keeps the value.  For locals and a body that are literals or locals, both modes give
the same value whenever the hints keep the values they are put on (`let_agrees`): a hint does not where it makes
a double of a long or a long of a double, and then the modes differ (`hint_changes_value`). -/

namespace LispMachine.Agreement

open Form Emission Machine

/-! ### What a `let` stands for -/

/-- The value of a literal, or of a local among given ones, the latest first. -/
def operandValue [Libraries] (env : List (String × Value)) : Datum → Value
  | .atom (.symbol name) _ => (env.lookup name).getD .nil
  | d => d.toValue

/-- The form is a literal, or one of the locals. -/
def IsOperand (env : List (String × Value)) (d : Datum) : Prop :=
  IsLiteral d ∨ ∃ name i, d = .atom (.symbol name) i ∧ (env.lookup name).isSome = true

/-- The locals once some more are bound. -/
def bindAll [Libraries] (env : List (String × Value)) : List LocalInit → List (String × Value)
  | [] => env
  | l :: ls => bindAll ((l.name, operandValue env l.init) :: env) ls

/-- Every local is bound to a literal or to an earlier one. -/
def Flat [Libraries] (env : List (String × Value)) : List LocalInit → Prop
  | [] => True
  | l :: ls => IsOperand env l.init ∧ Flat ((l.name, operandValue env l.init) :: env) ls

/-- The value of a body. -/
def bodyValue [Libraries] (env : List (String × Value)) (body : List Datum) : Value :=
  (body.getLast?.map (operandValue env)).getD .nil

/-- The type makes no other number of the value. -/
def Keeps : Ty → Value → Prop
  | .prim .double, .int _ => False
  | .prim .long, .float _ => False
  | .cls name, .int _ => name ≠ Names.double
  | _, _ => True

/-- The type a hint names. -/
def hintType? (w : World) (hint : String) : Option Ty :=
  Ty.ofHint? hint <|> (w.resolveClass? hint).map fun c => Ty.cls c.name

/-- Every hint keeps the value it is put on. -/
def HintsKeep [Libraries] (w : World) (env : List (String × Value)) : List LocalInit → Prop
  | [] => True
  | l :: ls =>
    (∀ hint ty, l.target.hint = some hint → hintType? w hint = some ty → Keeps ty (operandValue env l.init)) ∧
      HintsKeep w ((l.name, operandValue env l.init) :: env) ls

theorem Keeps.suits {ty : Ty} {a : Value} (h : Keeps ty a) : Suits ty a := by
  unfold Suits
  split
  · exact h
  · exact h
  · trivial

theorem Keeps.widen {ty : Ty} {a : Value} (h : Keeps ty a) : Overload.widen ty a = a := by
  unfold Overload.widen
  split
  · exact h.elim
  · rfl

theorem splitQualified_plain {name : String} (h : name.contains '/' = false) : (splitQualified name).1 = none := by
  rw [String.contains_char_eq, decide_eq_false_iff_not] at h
  have hnone : name.toList.dropWhile (· != '/') = [] := by
    rw [List.dropWhile_eq_nil_iff]
    intro c hc
    rw [bne_iff_ne]
    rintro rfl
    exact h hc
  simp only [splitQualified, hnone]

theorem localInits_plain {items : List Datum} {inits : List LocalInit} (h : localInits items = .ok inits) :
    ∀ l ∈ inits, (splitQualified l.name).1 = none := by
  fun_induction localInits items generalizing inits with
  | case1 target init rest name hname hslash => cases h
  | case2 target init rest name hname hslash ih =>
    obtain ⟨ls, hls, h⟩ := bind_ok h
    cases h
    exact List.forall_mem_cons.mpr ⟨splitQualified_plain (by simpa using hslash), ih hls⟩
  | case3 target init rest hname => cases h
  | case4 items hitems =>
    cases h
    nofun

theorem bindingParts_plain {form : String} {d : Datum} {inits : List LocalInit} {body : List Datum}
    (h : bindingParts form d = .ok (inits, body)) : ∀ l ∈ inits, (splitQualified l.name).1 = none := by
  unfold bindingParts at h
  split at h
  · cases h
  split at h
  · cases h
  split at h
  · obtain ⟨ls, hls, h⟩ := bind_ok h
    cases h
    exact localInits_plain hls
  · cases h

/-! ### Frames of locals -/

/-- A frame of bindings holds locals with certain values, by what a binding is to a value. -/
def Frames (R : Binding → Value → Prop) (bindings : List Binding) (env : List (String × Value)) : Prop :=
  List.Forall₂ (fun b e => b.name = e.1 ∧ (splitQualified e.1).1 = none ∧ R b e.2) bindings env

theorem Frames.find {R : Binding → Value → Prop} {bindings : List Binding} {env : List (String × Value)}
    (h : Frames R bindings env) {name : String} {a : Value} (ha : env.lookup name = some a) :
    (splitQualified name).1 = none ∧ ∃ b, bindings.find? (fun b => b.name == name) = some b ∧ R b a := by
  induction h with
  | nil => cases ha
  | @cons b e bindings env hb _ ih =>
    obtain ⟨hname, hplain, hR⟩ := hb
    rw [List.lookup_cons] at ha
    by_cases heq : name == e.1
    · rw [heq] at ha
      cases ha
      obtain rfl := beq_iff_eq.mp heq
      exact ⟨hplain, b, by simp [hname], hR⟩
    · rw [Bool.not_eq_true] at heq
      rw [heq] at ha
      have hne : (b.name == name) = false := by
        rw [hname, BEq.comm, heq]
      rw [List.find?_cons, hne]
      exact ih ha

theorem lexical_top {scopes : Scopes} {f : ScopeFrame} {rest : List ScopeFrame}
    (hframes : scopes.frames = f :: rest) {name : String} {b : Binding}
    (hb : f.bindings.find? (fun b => b.name == name) = some b) {level : Nat}
    (hlevel : f.level = level) : scopes.lexical? name level = some (f.kind, b) := by
  rw [Scopes.lexical?, hframes, List.findSome?_cons, hb, Option.map_some, hlevel, if_neg (Nat.lt_irrefl _)]

theorem operandValue_literal [Libraries] {env : List (String × Value)} {d : Datum} (hd : IsLiteral d) :
    operandValue env d = d.toValue := by
  rcases hd with hd | ⟨i, rfl⟩
  · cases d with
    | atom a i =>
      cases a with
      | symbol name => cases hd
      | _ => rfl
    | _ => rfl
  · rfl

/-! ### Interpreted locals -/

section Interpreted

variable {s t : FormState} {v : Value} {env : List (String × Value)} {fuel : Nat}

/-- The innermost scope holds the locals with their values. -/
def Interprets (v : View) (env : List (String × Value)) : Prop :=
  ∃ f rest, v.scopes.frames = f :: rest ∧ f.level = v.methods.length ∧
    Frames (fun b a => b.value = some a) f.bindings env

theorem evaluate_operand [Libraries] {d : Datum} (hs : Interprets (view s) env) (hd : IsOperand env d)
    (hrun : (handlers fuel).evaluate d s = .ok v t) : v = operandValue env d ∧ t = s := by
  rcases hd with hd | ⟨name, i, rfl, hname⟩
  · rw [operandValue_literal hd]
    exact evaluate_literal hd hrun
  · obtain ⟨a, ha⟩ := Option.isSome_iff_exists.mp hname
    obtain ⟨f, rest, hframes, hlevel, hbindings⟩ := hs
    obtain ⟨hplain, b, hb, hvalue⟩ := hbindings.find ha
    rw [operandValue, ha]
    exact evaluate_local ⟨hplain, f.kind, b, lexical_top hframes hb hlevel, hvalue⟩ hrun

theorem aside_checkHint (l : LocalInit) : Aside (checkHint l) := by
  unfold checkHint
  split
  · exact .pure _
  · refine .bind (aside_resolveHint _) fun hinted => ?_
    split
    · exact .bind (aside_hintApplies _ _ _ _) fun _ => .pure _
    · exact .pure _

theorem evaluateLocal_interprets [Libraries] {l : LocalInit} {u : Unit} (hs : Interprets (view s) env)
    (hl : IsOperand env l.init) (hplain : (splitQualified l.name).1 = none)
    (hrun : evaluateLocal (handlers fuel) l s = .ok u t) :
    Interprets (view t) ((l.name, operandValue env l.init) :: env) := by
  obtain ⟨a, s₁, h₁, hrun⟩ := State.ok_of_bind hrun
  obtain ⟨t₁, ht₁, rfl⟩ := withTail_run h₁
  have hs' : Interprets (view { s with tail := false }) env := hs
  obtain ⟨rfl, rfl⟩ := evaluate_operand hs' hl ht₁
  obtain ⟨scopes, hscopes, hview⟩ := bindName_ok hrun
  obtain ⟨f, rest, hframes, hlevel, hbindings⟩ := hs
  have hframes' : (view { s with tail := s.tail }).scopes.frames = f :: rest := hframes
  rw [Scopes.bind, hframes'] at hscopes
  cases hscopes
  rw [hview]
  exact ⟨_, rest, rfl, hlevel, .cons ⟨rfl, hplain, rfl⟩ hbindings⟩

theorem evaluateLocals_interprets [Libraries] {inits : List LocalInit} {u : Unit} (hs : Interprets (view s) env)
    (hflat : Flat env inits) (hplain : ∀ l ∈ inits, (splitQualified l.name).1 = none)
    (hrun : (inits.forM fun l => do
      checkHint l
      evaluateLocal (handlers fuel) l) s = .ok u t) : Interprets (view t) (bindAll env inits) := by
  induction inits generalizing s env with
  | nil =>
    cases hrun
    exact hs
  | cons l ls ih =>
    obtain ⟨⟨⟩, s₁, h₁, hrun⟩ := State.ok_of_bind hrun
    obtain ⟨⟨⟩, s₂, h₂, h₁⟩ := State.ok_of_bind h₁
    rw [List.forall_mem_cons] at hplain
    rw [← aside_checkHint l h₂] at hs
    exact ih (evaluateLocal_interprets hs hflat.1 hplain.1 h₁) hflat.2 hplain.2 hrun

theorem evaluateBody_value [Libraries] {body : List Datum} (hs : Interprets (view s) env)
    (hbody : ∀ d ∈ body, IsOperand env d)
    (hrun : evaluateBody (handlers fuel) body s = .ok v t) : v = bodyValue env body := by
  fun_induction evaluateBody (handlers fuel) body generalizing s with
  | case1 =>
    cases hrun
    rfl
  | case2 d => exact (evaluate_operand hs (hbody d List.mem_cons_self) hrun).1
  | case3 d rest hrest ih =>
    obtain ⟨a, s₁, h₁, hrun⟩ := State.ok_of_bind hrun
    obtain ⟨t₁, ht₁, rfl⟩ := withTail_run h₁
    have hs' : Interprets (view { s with tail := false }) env := hs
    obtain ⟨-, rfl⟩ := evaluate_operand hs' (hbody d List.mem_cons_self) ht₁
    rw [ih hs (fun d hd => hbody d (List.mem_cons_of_mem _ hd)) hrun, bodyValue, bodyValue]
    cases rest with
    | nil => exact absurd rfl hrest
    | cons d' rest => rw [List.getLast?_cons_cons]

/-- An interpreted `let` has the value its body has for the locals. -/
theorem evaluateLet_value [Libraries] {d : Datum} {inits : List LocalInit} {body : List Datum}
    (hparts : bindingParts "let" d = .ok (inits, body)) (hflat : Flat [] inits)
    (hbody : ∀ d ∈ body, IsOperand (bindAll [] inits) d) (hrun : evaluateLet (handlers fuel) d s = .ok v t) :
    v = bodyValue (bindAll [] inits) body := by
  obtain ⟨parts, s₁, h₁, hrun⟩ := State.ok_of_bind hrun
  obtain ⟨hparts', rfl⟩ := ofExcept_ok h₁
  rw [hparts] at hparts'
  cases hparts'
  obtain ⟨s₂, t₂, hview, hm, -⟩ := withScope_ok hrun
  obtain ⟨⟨⟩, s₃, h₃, hm⟩ := State.ok_of_bind hm
  have hs : Interprets (view s₂) [] := by
    rw [hview]
    exact ⟨_, _, rfl, rfl, .nil⟩
  exact evaluateBody_value (evaluateLocals_interprets hs hflat (bindingParts_plain hparts) h₃) hbody hm

end Interpreted

/-! ### Slots -/

/-- The slots of a method: how many there are, and those that can be given out again. -/
structure Pool where
  next : Nat
  free : List Nat

def poolOf (code : CodeBuffer) : Pool := ⟨code.nextSlot, code.freeSlots⟩

/-- Slots that can be given out again have been given out before, and are listed once each. -/
structure Pool.Tidy (p : Pool) : Prop where
  free_lt : ∀ n ∈ p.free, n < p.next
  nodup : p.free.Nodup

/-- The slot is in use. -/
def Pool.Taken (p : Pool) (n : Nat) : Prop := n < p.next ∧ n ∉ p.free

/-- How many slots there are once some more have been given out. -/
def Pool.after (p : Pool) (k : Nat) : Nat := p.next + (k - p.free.length)

/-- What giving out a slot makes of the slots. -/
structure GivesOut (p : Pool) (n : Nat) (p' : Pool) : Prop where
  tidy : p'.Tidy
  taken : p'.Taken n
  others : ∀ m, p.Taken m → m ≠ n ∧ p'.Taken m
  room : ∀ k, p'.after k = p.after (k + 1)

theorem allocSlot_givesOut {code : CodeBuffer} (h : (poolOf code).Tidy) :
    GivesOut (poolOf code) code.allocSlot.1 (poolOf code.allocSlot.2) := by
  obtain ⟨hlt, hnodup⟩ := h
  unfold CodeBuffer.allocSlot
  simp only [poolOf] at hlt hnodup ⊢
  split
  · rename_i n rest hfree
    rw [hfree] at hlt hnodup
    rw [List.nodup_cons] at hnodup
    refine ⟨⟨fun m hm => hlt m (List.mem_cons_of_mem _ hm), hnodup.2⟩,
      ⟨hlt n List.mem_cons_self, hnodup.1⟩, ?_, ?_⟩
    · rintro m ⟨hm, hnot⟩
      simp only [hfree, List.mem_cons, not_or] at hnot
      exact ⟨hnot.1, hm, hnot.2⟩
    · intro k
      simp only [Pool.after, hfree, List.length_cons]
      omega
  · rename_i hfree
    refine ⟨⟨by simp [hfree], by simp [hfree]⟩, ⟨Nat.lt_succ_self _, by simp [hfree]⟩, ?_, ?_⟩
    · rintro m ⟨hm, hnot⟩
      exact ⟨Nat.ne_of_lt hm, Nat.lt_succ_of_lt hm, hnot⟩
    · intro k
      simp only [Pool.after, hfree, List.length_nil]
      omega

theorem poolOf_unmoved {v v' : View} (h : Unmoved v v') : poolOf v'.code = poolOf v.code := by
  simp only [poolOf, h.nextSlot, h.freeSlots]

/-! ### Compiled locals -/

section Compiled

variable {s t : FormState} {u : Unit} {env : List (String × Value)} {fuel : Nat} {locals : Array Value}

/-- The binding is in a slot of the frame that holds the value. -/
def InFrame (p : Pool) (locals : Array Value) (b : Binding) (a : Value) : Prop :=
  ∃ n, b.slot = .local n ∧ b.ty ≠ .void ∧ locals[n]? = some a ∧ p.Taken n

/-- The innermost scope has the locals in slots of the frame, which hold their values. -/
def Places (v : View) (locals : Array Value) (env : List (String × Value)) : Prop :=
  ∃ f rest, v.scopes.frames = f :: rest ∧ f.kind = .methodLet ∧ f.level = v.methods.length ∧
    Frames (InFrame (poolOf v.code) locals) f.bindings env

theorem Places.later {v v' : View} (h : Places v locals env) (hunmoved : Unmoved v v')
    (hlength : v'.methods.length = v.methods.length) : Places v' locals env := by
  obtain ⟨f, rest, hframes, hkind, hlevel, hbindings⟩ := h
  refine ⟨f, rest, by rw [hunmoved.scopes, hframes], hkind, by rw [hlength, hlevel], ?_⟩
  rw [poolOf_unmoved hunmoved]
  exact hbindings

theorem compile_operand [Libraries] {d : Datum} (hs : Places (view s) locals env) (hd : IsOperand env d)
    (hlive : (view s).stack.isUnreachable = false) (hrun : (handlers fuel).compile d s = .ok u t) :
    ∃ code ty, Pushes locals s t code ty (· = operandValue env d) := by
  obtain ⟨n, rfl, hrun⟩ := compile_ok hrun
  rcases hd with hd | ⟨name, i, rfl, hname⟩
  · rw [operandValue_literal hd]
    obtain ⟨code, hpushes⟩ := pushes_literal hd hlive hrun
    exact ⟨code, _, hpushes⟩
  · obtain ⟨a, ha⟩ := Option.isSome_iff_exists.mp hname
    obtain ⟨f, rest, hframes, hkind, hlevel, hbindings⟩ := hs
    obtain ⟨hplain, b, hb, slot, hslot, hty, hvalue, -⟩ := hbindings.find ha
    rw [operandValue, ha]
    have hslot : InSlot s locals name a := by
      refine ⟨hplain, f.kind, b, slot, lexical_top hframes hb hlevel, ?_, hslot, hty, by rw [hvalue]; rfl⟩
      rw [hkind]
      nofun
    obtain ⟨code, hpushes⟩ := pushes_local hslot hlive hrun
    exact ⟨code, _, hpushes⟩

theorem resolveHint_ok {hint : String} {ty : Ty} (hrun : resolveHint hint s = .ok ty t) :
    t = s ∧ hintType? s.world hint = some ty := by
  unfold resolveHint at hrun
  unfold hintType?
  cases hhint : Ty.ofHint? hint with
  | some named =>
    rw [hhint] at hrun
    cases hrun
    exact ⟨rfl, rfl⟩
  | none =>
    rw [hhint] at hrun
    obtain ⟨w, s₁, h₁, hrun⟩ := State.ok_of_bind hrun
    cases h₁
    cases hc : s.world.resolveClass? hint with
    | some c =>
      simp only [hc] at hrun
      cases hrun
      exact ⟨rfl, rfl⟩
    | none =>
      simp only [hc] at hrun
      cases hrun

/-- A hint that applies says nothing; one that does not may lead to a remark. -/
theorem hintApplies_ok {l : LocalInit} {hint : String} {hinted inferred : Ty} {applies : Bool}
    (hrun : hintApplies l hint hinted inferred s = .ok applies t) :
    applies = Coercion.compatible s.world.registry hinted inferred ∧ view t = view s ∧
      Remarked s.world t.world := by
  have hview := aside_hintApplies l hint hinted inferred hrun
  obtain ⟨w, s₁, h₁, hrun⟩ := State.ok_of_bind hrun
  cases h₁
  split at hrun
  · rename_i happlies
    cases hrun
    exact ⟨happlies.symm, rfl, .refl _⟩
  · rename_i happlies
    rw [Bool.not_eq_true] at happlies
    rw [happlies]
    split at hrun
    · obtain ⟨⟨⟩, s₁, h₁, hrun⟩ := State.ok_of_bind hrun
      cases h₁
      cases hrun
      exact ⟨rfl, rfl, rfl⟩
    · cases hrun
      exact ⟨rfl, rfl, .refl _⟩

/-- The type of a local is imposed on its value and keeps it. -/
theorem localType_pushes [Libraries] {l : LocalInit} {s₁ : FormState} {code : List Instruction} {inferred ty : Ty}
    {a : Value}
    (h : Pushes locals s s₁ code inferred (· = a)) (hlive : (view s).stack.isUnreachable = false)
    (hkeeps : ∀ hint ty, l.target.hint = some hint → hintType? s₁.world hint = some ty → Keeps ty a)
    (hrun : localType l s₁ = .ok ty t) :
    ty ≠ .void ∧ ∃ code ty', ty'.width = ty.width ∧ Pushes locals s t code ty' (· = a) := by
  obtain ⟨top, s₂, h₂, hrun⟩ := State.ok_of_bind hrun
  obtain ⟨rfl, rfl⟩ := topType_ok h₂
  rw [h.topType] at hrun
  cases hhint : l.target.hint with
  | none =>
    rw [hhint] at hrun
    cases hrun
    exact ⟨h.ne_void, code, _, rfl, h⟩
  | some hint =>
    rw [hhint] at hrun
    obtain ⟨hinted, s₂, h₂, himpose⟩ := State.ok_of_bind hrun
    obtain ⟨rfl, htype⟩ := resolveHint_ok h₂
    have hkept := hkeeps hint hinted hhint htype
    obtain ⟨applies, s₃, h₃, hrun⟩ := State.ok_of_bind himpose
    obtain ⟨happlies, hview, hworld⟩ := hintApplies_ok h₃
    have hremarked := h.remark hview hworld
    split at hrun
    · rename_i htrue
      rw [htrue, eq_comm, Coercion.compatible, Bool.and_eq_true] at happlies
      have hvoid : hinted ≠ .void := by simpa using happlies.1
      obtain ⟨⟨⟩, s₄, h₄, hrun⟩ := State.ok_of_bind hrun
      cases hrun
      obtain ⟨conversion, ty', hwidth, hcoerced⟩ := hremarked.coerceTop hlive hvoid
        (by rintro v rfl; exact hkept.suits) (by rintro v rfl -; exact hkept.widen) h₄
      refine ⟨hvoid, _, ty', hwidth, hcoerced.imp ?_⟩
      rintro v ⟨b, rfl, rfl⟩
      exact hkept.widen
    · cases hrun
      exact ⟨h.ne_void, code, _, rfl, hremarked⟩

/-- Placing a label appends no instruction. -/
theorem adds_here {l : Label} (hrun : FormM.here s = .ok l t) :
    Adds (view s) (view t) [] ∧ Unmoved (view s) (view t) ∧ (view t).stack = (view s).stack ∧
      Remarked s.world t.world := by
  have hworld := worldly_onCode _ hrun
  obtain ⟨-, hview⟩ := onCode_ok hrun
  rw [hview]
  have hitems : (view s).code.here.2.items.toList
      = (view s).code.items.toList ++ [CodeBuffer.Item.label (view s).code.labels] := by
    simp [CodeBuffer.here, CodeBuffer.newLabel, CodeBuffer.place]
  exact ⟨adds_code hitems rfl rfl rfl rfl, ⟨rfl, rfl, rfl⟩, rfl, hworld⟩

/-- A value that goes into a slot just given out joins those of the locals. -/
theorem Frames.place {p p' : Pool} {bindings : List Binding} {name : String} {ty : Ty} {slot : Nat} {a : Value}
    (h : Frames (InFrame p locals) bindings env) (hslot : GivesOut p slot p') (hroom : slot < locals.size)
    (hplain : (splitQualified name).1 = none) (hty : ty ≠ .void) :
    Frames (InFrame p' (locals.setIfInBounds slot a)) (.inSlot name ty slot :: bindings) ((name, a) :: env) := by
  refine .cons ⟨rfl, hplain, slot, rfl, hty, ?_, hslot.taken⟩ (h.imp ?_)
  · rw [Array.getElem?_setIfInBounds_self_of_lt hroom]
  · rintro b ⟨x, v⟩ ⟨hname, hplain, n, hn, hvoid, hvalue, htaken⟩
    obtain ⟨hne, htaken'⟩ := hslot.others n htaken
    exact ⟨hname, hplain, n, hn, hvoid, by rw [Array.getElem?_setIfInBounds_ne hne.symm, hvalue], htaken'⟩

theorem hintType?_remarked {w w' : World} (h : Remarked w w') (hint : String) :
    hintType? w' hint = hintType? w hint := by
  rw [h]
  rfl

/-- The code of a local puts the value of its form into a slot. -/
theorem compileLocal_stores [Libraries] {l : LocalInit} {placed : PlacedLocal} {k : Nat} (hne : (view s).methods ≠ [])
    (hs : Places (view s) locals env) (htidy : (poolOf (view s).code).Tidy) (hl : IsOperand env l.init)
    (hplain : (splitQualified l.name).1 = none)
    (hkeeps : ∀ hint ty, l.target.hint = some hint → hintType? s.world hint = some ty →
      Keeps ty (operandValue env l.init))
    (hlive : (view s).stack.isUnreachable = false) (hroom : (poolOf (view s).code).after (k + 1) ≤ locals.size)
    (hrun : compileLocal (handlers fuel) l s = .ok placed t) :
    ∃ code locals', Stores locals locals' s t code ∧ locals'.size = locals.size ∧
      Places (view t) locals' ((l.name, operandValue env l.init) :: env) ∧ (poolOf (view t).code).Tidy ∧
      (poolOf (view t).code).after k = (poolOf (view s).code).after (k + 1) := by
  obtain ⟨⟨⟩, s₁, h₁, hrun⟩ := State.ok_of_bind hrun
  obtain ⟨ty, s₂, h₂, hrun⟩ := State.ok_of_bind hrun
  obtain ⟨slot, s₃, h₃, hrun⟩ := State.ok_of_bind hrun
  obtain ⟨first, s₄, h₄, hrun⟩ := State.ok_of_bind hrun
  obtain ⟨⟨⟩, s₅, h₅, hrun⟩ := State.ok_of_bind hrun
  cases hrun
  obtain ⟨t₁, ht₁, rfl⟩ := withTail_run h₁
  have hs' : Places (view { s with tail := false }) locals env := hs
  obtain ⟨code, inferred, hinit⟩ := compile_operand hs' hl hlive ht₁
  have hinit := hinit.outOfTail
  obtain ⟨hty, code, ty', hwidth, hvalue⟩ := localType_pushes hinit hlive
    (fun hint ty hhint htype => hkeeps hint ty hhint (hintType?_remarked hinit.world hint ▸ htype)) h₂
  obtain ⟨hstores, hscopes, rfl, hnext, hfree⟩ := hvalue.store hlive hty hwidth h₃
  obtain ⟨hadds, hunmoved, hstack, hworld⟩ := adds_here h₄
  obtain ⟨scopes, hbind, hview⟩ := bindName_ok h₅
  obtain ⟨f, rest, hframes, hkind, hlevel, hbindings⟩ := hs
  rw [Scopes.bind, hunmoved.scopes, hscopes, hframes] at hbind
  cases hbind
  have hpool := poolOf_unmoved hvalue.unmoved
  have hgives := allocSlot_givesOut (hpool ▸ htidy)
  rw [hpool] at hgives
  have hpool' : poolOf (view t).code = poolOf (view s₂).code.allocSlot.2 := by
    rw [hview]
    refine (poolOf_unmoved hunmoved).trans ?_
    simp only [poolOf, hnext, hfree]
  rw [← hpool'] at hgives
  have hslot : (view s₂).code.allocSlot.1 < locals.size := by
    have hlt := hgives.taken.1
    have hroom' := hgives.room k
    unfold Pool.after at hroom hroom'
    omega
  refine ⟨_, _, (hstores.still hadds hstack hworld).still ?_ ?_ (worldly_bindName _ h₅),
    Array.size_setIfInBounds, ?_, hgives.tidy, hgives.room k⟩
  · rw [hview]
    exact adds_scopes hadds.methods_ne _
  · rw [hview]
    rfl
  · have hlength := (hstores.still hadds hstack hworld).adds.length_eq hne
    have hplace := hbindings.place (a := operandValue env l.init) hgives hslot hplain hty
    rw [hview] at hplace ⊢
    exact ⟨_, rest, rfl, hkind, hlevel.trans hlength.symm, hplace⟩

theorem HintsKeep.remarked [Libraries] {w w' : World} (h : Remarked w w') {inits : List LocalInit}
    (hkeep : HintsKeep w env inits) : HintsKeep w' env inits := by
  induction inits generalizing env with
  | nil => trivial
  | cons l ls ih =>
    refine ⟨fun hint ty hhint htype => hkeep.1 hint ty hhint ?_, ih hkeep.2⟩
    rw [← hintType?_remarked h]
    exact htype

theorem compileLocals_stores [Libraries] {inits : List LocalInit} {placed : List PlacedLocal}
    (hne : (view s).methods ≠ [])
    (hs : Places (view s) locals env) (htidy : (poolOf (view s).code).Tidy) (hflat : Flat env inits)
    (hplain : ∀ l ∈ inits, (splitQualified l.name).1 = none) (hkeep : HintsKeep s.world env inits)
    (hlive : (view s).stack.isUnreachable = false)
    (hroom : (poolOf (view s).code).after inits.length ≤ locals.size)
    (hrun : inits.mapM (compileLocal (handlers fuel)) s = .ok placed t) :
    ∃ code locals', Stores locals locals' s t code ∧ Places (view t) locals' (bindAll env inits) := by
  induction inits generalizing s env locals placed with
  | nil =>
    cases hrun
    exact ⟨[], locals, .refl hne locals, hs⟩
  | cons l ls ih =>
    rw [List.mapM_cons] at hrun
    obtain ⟨p, s₁, h₁, hrun⟩ := State.ok_of_bind hrun
    obtain ⟨ps, s₂, h₂, hrun⟩ := State.ok_of_bind hrun
    cases hrun
    rw [List.forall_mem_cons] at hplain
    obtain ⟨code, locals', hstores, hsize, hs', htidy', hroom'⟩ :=
      compileLocal_stores hne hs htidy hflat.1 hplain.1 hkeep.1 hlive hroom h₁
    rw [List.length_cons, ← hroom', ← hsize] at hroom
    obtain ⟨code', locals'', hstores', hs''⟩ := ih hstores.adds.methods_ne hs' htidy' hflat.2 hplain.2
      (hkeep.2.remarked hstores.world) (hstores.live hlive) hroom h₂
    exact ⟨_, _, hstores.trans hstores', hs''⟩

theorem compileBody_pushes [Libraries] {body : List Datum} (hne : (view s).methods ≠ [])
    (hs : Places (view s) locals env)
    (hbody : ∀ d ∈ body, IsOperand env d) (hlive : (view s).stack.isUnreachable = false)
    (hrun : compileBody (handlers fuel) body s = .ok u t) :
    ∃ code ty, Pushes locals s t code ty (· = bodyValue env body) := by
  fun_induction compileBody (handlers fuel) body generalizing s with
  | case1 =>
    refine ⟨_, _, pushes_constant hlive ?_ hrun⟩
    intro w v hv
    cases hv
    rfl
  | case2 d => exact compile_operand hs (hbody d List.mem_cons_self) hlive hrun
  | case3 d rest hrest ih =>
    obtain ⟨⟨⟩, s₁, h₁, hrun⟩ := State.ok_of_bind hrun
    obtain ⟨⟨⟩, s₂, h₂, hlater⟩ := State.ok_of_bind hrun
    obtain ⟨t₁, ht₁, rfl⟩ := withTail_run h₁
    have hs' : Places (view { s with tail := false }) locals env := hs
    obtain ⟨code, ty, hfirst⟩ := compile_operand hs' (hbody d List.mem_cons_self) hlive ht₁
    obtain ⟨code', hdropped, hunmoved⟩ := hfirst.outOfTail.drop hlive h₂
    have hs₂ := hs.later hunmoved (hdropped.adds.length_eq hne)
    obtain ⟨code'', ty', hlast⟩ := ih hdropped.adds.methods_ne hs₂
      (fun d hd => hbody d (List.mem_cons_of_mem _ hd)) (hdropped.live hlive) hlater
    refine ⟨_, ty', (hdropped.pushes hunmoved hlast).imp ?_⟩
    rintro v rfl
    rw [bodyValue, bodyValue]
    cases rest with
    | nil => exact absurd rfl hrest
    | cons d' rest => rw [List.getLast?_cons_cons]

/-- Giving slots back leaves the code alone. -/
theorem adds_releaseSlots (frames : List ScopeFrame) (level : Nat) (hne : (view s).methods ≠ []) :
    Adds (view s) (view (FormM.releaseSlots frames level s)) [] := by
  unfold FormM.releaseSlots
  split
  · rename_i m rest hmethods
    split
    · let bindings := (frames.filter fun f => f.kind == .methodLet && f.level == level).flatMap
        fun f => f.bindings.reverse
      obtain ⟨slots, log, hfreed, -⟩ := freeAll_eq bindings (view s).code
      have hadds : Adds (view s)
          ((view s).update { (view s).work with code := freeAll (view s).code bindings }) [] := by
        rw [hfreed]
        exact adds_code (List.append_nil _).symm rfl rfl rfl rfl
      simp only [view, View.update, View.work, View.code, hmethods, freeAll, List.headD_cons,
        List.tail_cons] at hadds ⊢
      exact hadds
    · exact .refl hne
  · exact .refl hne

/-- Describing locals leaves the code alone. -/
theorem adds_describe {placed : List PlacedLocal} {last : Label} (hne : (view s).methods ≠ [])
    (hrun : (placed.forM fun l => describe l last) s = .ok u t) : Adds (view s) (view t) [] := by
  induction placed generalizing s with
  | nil =>
    cases hrun
    exact .refl hne
  | cons l ls ih =>
    obtain ⟨⟨⟩, s₁, h₁, hrun⟩ := State.ok_of_bind hrun
    have hview := modifyCode_ok h₁
    have hfirst : Adds (view s) (view s₁) [] := by
      rw [hview]
      exact adds_code (List.append_nil _).symm rfl rfl rfl rfl
    simpa using hfirst.trans (ih hfirst.methods_ne hrun)

/-- The code of a `let` leaves the value that its body has for the locals. -/
theorem compileLet_pushes [Libraries] {d : Datum} {inits : List LocalInit} {body : List Datum}
    (hne : (view s).methods ≠ [])
    (hparts : bindingParts "let" d = .ok (inits, body)) (hflat : Flat [] inits)
    (hbody : ∀ d ∈ body, IsOperand (bindAll [] inits) d) (hkeep : HintsKeep s.world [] inits)
    (hlive : (view s).stack.isUnreachable = false) (htidy : (poolOf (view s).code).Tidy)
    (hroom : (poolOf (view s).code).after inits.length ≤ locals.size)
    (hrun : compileLet (handlers fuel) d s = .ok u t) :
    ∃ code ty locals', Adds (view s) (view t) code ∧ (∀ i ∈ code, Straight i) ∧
      ∀ call body' r r', r.frame.locals = locals → Performs call body' code r r' →
        r' = (r.after code.length (slotsOf (bodyValue (bindAll [] inits) body) ty ++ r.frame.stack)).storing 0
          locals' := by
  obtain ⟨parts, s₁, h₁, hrun⟩ := State.ok_of_bind hrun
  obtain ⟨hparts', rfl⟩ := ofExcept_ok h₁
  rw [hparts] at hparts'
  cases hparts'
  obtain ⟨s', s₁, h₁, hrun⟩ := State.ok_of_bind hrun
  cases h₁
  obtain ⟨⟨⟩, s₁, h₁, hrun⟩ := State.ok_of_bind hrun
  cases h₁
  obtain ⟨t₁, hm, rfl⟩ := andFinally_ok hrun
  obtain ⟨placed, s₁, h₁, hm⟩ := State.ok_of_bind hm
  obtain ⟨⟨⟩, s₂, h₂, hm⟩ := State.ok_of_bind hm
  obtain ⟨last, s₃, h₃, hm⟩ := State.ok_of_bind hm
  have hs : Places (view { s with scopes := s.scopes.push .methodLet s.methods.length }) locals [] :=
    ⟨_, _, rfl, rfl, rfl, .nil⟩
  obtain ⟨code, locals', hstores, hs₁⟩ :=
    compileLocals_stores (s := { s with scopes := s.scopes.push .methodLet s.methods.length }) hne hs htidy hflat
      (bindingParts_plain hparts) hkeep hlive hroom h₁
  obtain ⟨code', ty, hpushes⟩ :=
    compileBody_pushes hstores.adds.methods_ne hs₁ hbody (hstores.live hlive) h₂
  have hlast := (adds_here h₃).1
  have hdescribed := adds_describe hlast.methods_ne hm
  have hclosed := adds_scopes hdescribed.methods_ne (t₁.scopes.truncate s.scopes.depth).2
  have hreleased := adds_releaseSlots (s := { t₁ with scopes := (t₁.scopes.truncate s.scopes.depth).2 })
    (t₁.scopes.truncate s.scopes.depth).1 s.methods.length hdescribed.methods_ne
  refine ⟨code ++ code', ty, locals', ?_, List.forall_mem_append.mpr ⟨hstores.straight, hpushes.straight⟩, ?_⟩
  · have hcode := hstores.adds.trans hpushes.adds
    have hend := ((hlast.trans hdescribed).trans hclosed).trans hreleased
    have hall := (adds_scopes hne (s.scopes.push .methodLet s.methods.length)).trans (hcode.trans hend)
    simpa using hall
  · rintro call body' r r' hlocals hperforms
    obtain ⟨r₁, hfirst, hsecond⟩ := performs_append.mp hperforms
    obtain rfl := hstores.runs call body' r r₁ hlocals hfirst
    obtain ⟨v, rfl, rfl⟩ := hpushes.runs call body' _ r' rfl hsecond
    rw [List.length_append, Running.after_storing]
    rfl

end Compiled

/-! ### Both modes -/

/-- A `let` whose locals and body are literals and locals has the same value in both modes, if its hints keep
the values they are put on: the code of the compiled form leaves on the stack what the interpreted form
evaluates to. -/
theorem let_agrees [Libraries] {fuel fuel' : Nat} {d : Datum} {inits : List LocalInit} {body : List Datum}
    {s t s' t' : FormState} {u : Unit} {v' : Value} {locals : Array Value}
    (hparts : bindingParts "let" d = .ok (inits, body))
    (hflat : Flat [] inits) (hbody : ∀ d ∈ body, IsOperand (bindAll [] inits) d)
    (hkeep : HintsKeep s.world [] inits) (hopen : s.methods ≠ [])
    (hlive : (view s).stack.isUnreachable = false) (htidy : (poolOf (view s).code).Tidy)
    (hroom : (poolOf (view s).code).after inits.length ≤ locals.size)
    (hcompile : compileLet (handlers fuel) d s = .ok u t)
    (hevaluate : evaluateLet (handlers fuel') d s' = .ok v' t') :
    ∃ code ty locals', Adds (view s) (view t) code ∧ (∀ i ∈ code, Straight i) ∧
      ∀ call callee r r', r.frame.locals = locals → Performs call callee code r r' →
        r' = (r.after code.length (slotsOf v' ty ++ r.frame.stack)).storing 0 locals' := by
  obtain rfl := evaluateLet_value hparts hflat hbody hevaluate
  exact compileLet_pushes hopen hparts hflat hbody hkeep hlive htidy hroom hcompile

section Instances

theorem compileLet_eq {h : Handlers} {d : Datum} {inits : List LocalInit} {body : List Datum}
    (hparts : bindingParts "let" d = .ok (inits, body)) :
    compileLet h d = FormM.withScope .methodLet (do
      let placed ← inits.mapM (compileLocal h)
      compileBody h body
      let last ← FormM.here
      placed.forM fun l => describe l last) := by
  rw [compileLet, hparts]
  rfl

theorem evaluateLet_eq {h : Handlers} {d : Datum} {inits : List LocalInit} {body : List Datum}
    (hparts : bindingParts "let" d = .ok (inits, body)) :
    evaluateLet h d = FormM.withScope .interpretedLet (do
      inits.forM fun l => do
        checkHint l
        evaluateLocal h l
      evaluateBody h body) := by
  rw [evaluateLet, hparts]
  rfl

/-- A local with a hint. -/
def hinted (name hint : String) : Datum := .atom (.symbol name) { hint := some hint }

def letForm (bindings body : List Datum) : Datum :=
  .ofList (.symbol "let" default :: .ofVector bindings default :: body) default

/-- The start of a method without locals. -/
def freshMethod : FormState where
  world := {}
  classes := #[{ file := { name := "T", superclass := Names.object }, mode := .closure }]
  methods := [{ owner := 0 }]

/-- The form `(let [^long x 3 ^double y 1.5 z x] y z)`. -/
def keptHints : Datum :=
  letForm [hinted "x" "long", .ofAtom (.int 3) default,
    hinted "y" "double", .ofAtom (.float ⟨0x3ff8000000000000⟩) default,
    .symbol "z" default, .symbol "x" default] [.symbol "y" default, .symbol "z" default]

def keptInits : List LocalInit :=
  [⟨hinted "x" "long", "x", .ofAtom (.int 3) default⟩,
    ⟨hinted "y" "double", "y", .ofAtom (.float ⟨0x3ff8000000000000⟩) default⟩,
    ⟨.symbol "z" default, "z", .symbol "x" default⟩]

theorem keptHints_parts :
    bindingParts "let" keptHints = .ok (keptInits, [.symbol "y" default, .symbol "z" default]) := by
  cbv

/-- The hints of `(let [^long x 3 ^double y 1.5 z x] y z)` keep their values, and the value is the same in both
modes. -/
theorem let_agrees_kept :
    ∃ t t' v' ty r', compileLet (handlers 2) keptHints freshMethod = .ok () t ∧
      evaluateLet (handlers 2) keptHints { world := {} } = .ok v' t' ∧ ranTo? (.replicate 3 .nil) {} t = some r' ∧
      r'.frame.stack = slotsOf v' ty := by
  obtain ⟨⟨⟩, t, hcompile, hruns⟩ := State.exists_answer (r := compileLet (handlers 2) keptHints freshMethod)
    (p := fun r => (ranTo? (.replicate 3 .nil) {} r.2).isSome) (by rw [compileLet_eq keptHints_parts]; decide +kernel)
  obtain ⟨v', t', hevaluate, -⟩ := State.exists_answer (r := evaluateLet (handlers 2) keptHints { world := {} })
    (p := fun _ => true) (by rw [evaluateLet_eq keptHints_parts]; decide +kernel)
  obtain ⟨r', hr'⟩ := Option.isSome_iff_exists.mp hruns
  have hflat : Flat [] keptInits := ⟨.inl (.inl rfl), .inl (.inl rfl), .inr ⟨"x", _, rfl, rfl⟩, trivial⟩
  have hbody : ∀ d ∈ [Datum.symbol "y" default, .symbol "z" default], IsOperand (bindAll [] keptInits) d :=
    List.forall_mem_cons.mpr ⟨.inr ⟨"y", _, rfl, rfl⟩, List.forall_mem_singleton.mpr (.inr ⟨"z", _, rfl, rfl⟩)⟩
  have hkeep : HintsKeep freshMethod.world [] keptInits := by
    refine ⟨?_, ?_, ?_, trivial⟩
    · rintro hint ty hhint hty
      cases hhint
      cases hty
      trivial
    · rintro hint ty hhint hty
      cases hhint
      cases hty
      trivial
    · nofun
  have hroom : (poolOf (view freshMethod).code).after keptInits.length ≤ (Array.replicate 3 Value.nil).size :=
    Nat.le_refl _
  obtain ⟨code, ty, locals', hadds, -, hagrees⟩ := let_agrees keptHints_parts hflat hbody hkeep
    (by simp [freshMethod]) rfl ⟨nofun, .nil⟩ hroom hcompile hevaluate
  refine ⟨t, t', v', ty, r', hcompile, hevaluate, hr', ?_⟩
  rw [hagrees _ _ _ r' rfl (performs_of_ranTo hadds rfl hr')]
  exact List.append_nil _

/-- The form `(let [^double x 1] x)`. -/
def longAsDouble : Datum := letForm [hinted "x" "double", .ofAtom (.int 1) default] [.symbol "x" default]

theorem longAsDouble_parts : bindingParts "let" longAsDouble
    = .ok ([⟨hinted "x" "double", "x", .ofAtom (.int 1) default⟩], [.symbol "x" default]) := by
  cbv

/-- The stack holds one double, in two slots. -/
def isDouble : List Value → Bool
  | [.nil, .float _] => true
  | _ => false

/-- The value of `(let [^double x 1] x)` is a double if it is compiled, and a long if it is interpreted. -/
theorem hint_changes_value :
    ∃ t t' r' x, compileLet (handlers 2) longAsDouble freshMethod = .ok () t ∧
      ranTo? (.replicate 1 .nil) {} t = some r' ∧ r'.frame.stack = slotsOf (.float x) .double ∧
      evaluateLet (handlers 2) longAsDouble { world := {} } = .ok (.int 1) t' := by
  obtain ⟨⟨⟩, t, hcompile, hruns⟩ := State.exists_answer (r := compileLet (handlers 2) longAsDouble freshMethod)
    (p := fun r => (ranTo? (.replicate 1 .nil) {} r.2).any fun r' => isDouble r'.frame.stack)
    (by rw [compileLet_eq longAsDouble_parts]; decide +kernel)
  obtain ⟨v', t', hevaluate, hlong⟩ := State.exists_answer (r := evaluateLet (handlers 2) longAsDouble { world := {} })
    (p := fun r => r.1.int? == some 1) (by rw [evaluateLet_eq longAsDouble_parts]; decide +kernel)
  obtain ⟨r', hr', hdouble⟩ := (Option.any_eq_true _ _).mp hruns
  obtain ⟨x, hstack⟩ : ∃ x, r'.frame.stack = [.nil, .float x] := by
    unfold isDouble at hdouble
    split at hdouble
    · rename_i x hstack
      exact ⟨x, hstack⟩
    · cases hdouble
  have hvalue : v' = .int 1 := by
    cases v' <;> simp_all [Value.int?]
  exact ⟨t, t', r', x, hcompile, hr', hstack, hvalue ▸ hevaluate⟩

end Instances

end LispMachine.Agreement
