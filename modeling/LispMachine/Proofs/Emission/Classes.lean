import LispMachine.Proofs.Emission.Members
import LispMachine.Proofs.Emission.Methods

/-! # Forms that make classes

A `fn`, a `deftype`, a `defprotocol` or a `proxy` makes its class beside the method at work, and leaves an
instance or the class on top.  The constructor of an instance takes what was pushed for it: arguments
converted to the types of its parameters, the rest of the arguments as one vector, and captured locals. -/

namespace LispMachine.Emission

open Form

/-! ### Classes built by forms -/

section Built

variable {s t : FormState} {h : Handlers}

theorem aside_spaceStem : Aside spaceStem := .bind aside_world fun _ => .pure _

theorem aside_generatedName (use : ClassUse) : Aside (generatedName use) :=
  .bind aside_spaceStem fun _ => .bind (.lift _) fun _ => .bind (.lift _) fun _ => .pure _

theorem aside_loadClass [Libraries] (file : ClassFile) : Aside (loadClass file) := .lift _

theorem newFile_ok {name superclass : String} {file : ClassFile}
    (hrun : newFile name superclass s = .ok file t) : s = t ∧ file.methods = [] := by
  obtain ⟨w, s₁, h₁, hrun⟩ := State.ok_of_bind hrun
  cases h₁
  cases hrun
  exact ⟨rfl, rfl⟩

theorem isStatic_methodPlan (r : Registry) (owners : List String) (m : TypeMethod) :
    (methodPlan r owners m).isStatic = false := by
  unfold methodPlan
  split <;> rfl

/-- A class is built from nothing, of methods that fit what is around it. -/
def Builds (h : Handlers) (v : View) (file : ClassFile) (t : FormState) : Prop :=
  ∃ start mode methods plan captures s, view s = v ∧ start.methods = [] ∧
    (∀ m ∈ methods, ∀ r, SelfContained v (m r)) ∧ buildClass h start mode methods plan s = .ok (file, captures) t

theorem Builds.ok (hc : Compiles h) {v : View} {file : ClassFile} (hlevels : Levelled v) (hb : Builds h v file t) :
    view t = v ∧ Verifier.checkClass file = .ok () := by
  obtain ⟨start, mode, methods, plan, captures, s, rfl, hempty, hself, hrun⟩ := hb
  exact buildClass_ok hc hlevels hrun hself hempty

theorem buildFn_builds {d : Datum} {file : ClassFile} {captures : List Capture}
    (hrun : buildFn h d s = .ok (file, captures) t) : Builds h (view s) file t := by
  obtain ⟨⟨name, arities⟩, s₁, h₁, hrun⟩ := State.ok_of_bind hrun
  obtain ⟨-, rfl⟩ := ofExcept_ok h₁
  obtain ⟨className, s₃, h₃, hrun⟩ := State.ok_of_bind hrun
  have hview : view s₃ = view s := aside_generatedName _ h₃
  obtain ⟨fresh, s₄, h₄, hrun⟩ := State.ok_of_bind hrun
  obtain ⟨rfl, hempty⟩ := newFile_ok h₄
  refine ⟨_, _, _, _, captures, s₃, hview, ?_, fun m hm r => ?_, hrun⟩
  · exact hempty
  · obtain ⟨a, -, rfl⟩ := List.mem_map.1 hm
    exact .inl rfl

theorem buildFn_ok (hc : Compiles h) {d : Datum} {file : ClassFile} {captures : List Capture}
    (hlevels : Levelled (view s)) (hrun : buildFn h d s = .ok (file, captures) t) :
    view t = view s ∧ Verifier.checkClass file = .ok () :=
  (buildFn_builds hrun).ok hc hlevels

theorem buildType_builds {full : String} {interfaces : List String} {fields : List FieldBinding}
    {methods : List TypeMethod} {file : ClassFile}
    (hrun : buildType h full interfaces fields methods s = .ok file t) : Builds h (view s) file t := by
  obtain ⟨start, s₁, h₁, hrun⟩ := State.ok_of_bind hrun
  obtain ⟨fresh, s₂, h₂, h₁⟩ := State.ok_of_bind h₁
  obtain ⟨rfl, hempty⟩ := newFile_ok h₂
  cases h₁
  obtain ⟨⟨built, captures⟩, s₂, h₂, hrun⟩ := State.ok_of_bind hrun
  cases hrun
  refine ⟨_, _, _, _, captures, s, rfl, ?_, fun m hm r => ?_, h₂⟩
  · exact hempty
  · obtain ⟨a, -, rfl⟩ := List.mem_map.1 hm
    exact .inl (isStatic_methodPlan r _ a)

theorem buildType_ok (hc : Compiles h) {full : String} {interfaces : List String}
    {fields : List FieldBinding} {methods : List TypeMethod} {file : ClassFile}
    (hlevels : Levelled (view s)) (hrun : buildType h full interfaces fields methods s = .ok file t) :
    view t = view s ∧ Verifier.checkClass file = .ok () :=
  (buildType_builds hrun).ok hc hlevels

theorem superConstructor_accepts {superclass : ClassInfo} {n : Nat} {d : Datum} {m : Method}
    (hm : superConstructor superclass n d = .ok m) : m.accepts n = true := by
  unfold superConstructor at hm
  dsimp only at hm
  split at hm
  · rename_i k hk
    obtain rfl := Except.ok.inj hm
    rw [Option.orElse_eq_orElse, Option.orElse_eq_or, Option.or_eq_some_iff] at hk
    rcases hk with hk | ⟨-, hk⟩
    · have hfixed := List.find?_some hk
      simp only [Bool.and_eq_true, Bool.not_eq_true', beq_iff_eq] at hfixed
      simp [Method.accepts, hfixed.1, hfixed.2]
    · exact List.find?_some (p := fun k : Method => k.accepts n) hk
  · cases hm

theorem proxyArgs_of_parts {d : Datum} {classes args specs : List Datum}
    (h : proxyParts d = .ok (classes, args, specs)) : proxyArgs d = args := by
  unfold proxyParts at h
  split at h
  · rename_i first second rest hargs
    split at h
    · cases h
    · cases h
    · rename_i cs as _ has
      cases h
      simp [proxyArgs, hargs, has]
  · cases h

theorem buildProxy_builds {d : Datum} {file : ClassFile} {m : Method} {captures : List Capture}
    (hrun : buildProxy h d s = .ok (file, m, captures) t) :
    Builds h (view s) file t ∧ m.accepts (proxyArgs d).length = true := by
  obtain ⟨⟨classes, args, specs⟩, s₁, h₁, hrun⟩ := State.ok_of_bind hrun
  obtain ⟨hparts, rfl⟩ := ofExcept_ok h₁
  obtain ⟨w, s₁, h₁, hrun⟩ := State.ok_of_bind hrun
  cases h₁
  obtain ⟨⟨superclass, interfaces⟩, s₁, h₁, hrun⟩ := State.ok_of_bind hrun
  obtain ⟨-, rfl⟩ := ofExcept_ok h₁
  obtain ⟨init, s₁, h₁, hrun⟩ := State.ok_of_bind hrun
  obtain ⟨hinit, rfl⟩ := ofExcept_ok h₁
  obtain ⟨methods, s₁, h₁, hrun⟩ := State.ok_of_bind hrun
  obtain ⟨-, rfl⟩ := ofExcept_ok h₁
  obtain ⟨className, s₃, h₃, hrun⟩ := State.ok_of_bind hrun
  have hview : view s₃ = view s := aside_generatedName _ h₃
  obtain ⟨fresh, s₄, h₄, hrun⟩ := State.ok_of_bind hrun
  obtain ⟨rfl, hempty⟩ := newFile_ok h₄
  obtain ⟨⟨built, captured⟩, s₅, h₅, hrun⟩ := State.ok_of_bind hrun
  cases hrun
  rw [proxyArgs_of_parts hparts]
  refine ⟨⟨_, _, _, _, captures, s₃, hview, ?_, fun m hm r => ?_, h₅⟩, superConstructor_accepts hinit⟩
  · exact hempty
  · obtain ⟨a, -, rfl⟩ := List.mem_map.1 hm
    exact .inl (isStatic_methodPlan r _ a)

theorem buildProxy_ok (hc : Compiles h) {d : Datum} {file : ClassFile} {m : Method}
    {captures : List Capture} (hlevels : Levelled (view s))
    (hrun : buildProxy h d s = .ok (file, m, captures) t) :
    view t = view s ∧ Verifier.checkClass file = .ok () ∧ m.accepts (proxyArgs d).length = true := by
  obtain ⟨hbuilds, haccepts⟩ := buildProxy_builds hrun
  obtain ⟨hview, hcheck⟩ := hbuilds.ok hc hlevels
  exact ⟨hview, hcheck, haccepts⟩

end Built

/-! ### Variadic tails -/

section Tails

variable {r : Registry} {m : Method} {argTypes : List Ty}

theorem length_of_direct (h : Overload.tailPlan r m argTypes = .direct) (hvariadic : m.isVariadic = true) :
    argTypes.length = m.params.length := by
  unfold Overload.tailPlan at h
  rw [hvariadic] at h
  simp only [Bool.not_true, Bool.false_eq_true, if_false] at h
  split at h
  · assumption
  · cases h

theorem count_of_wrap {fixed count : Nat} (h : Overload.tailPlan r m argTypes = .wrap fixed count) :
    count = argTypes.length - (m.params.length - 1) := by
  unfold Overload.tailPlan at h
  grind

end Tails

/-! ### Instances -/

section Instances

variable {T : Terms} {v₀ : View} {k : Nat} {s t : FormState} {u : Unit} {h : Handlers}

/-- Captured locals are loaded one after the other. -/
theorem Grown.loadCaptures (g : Grown T v₀ k (view s)) {captures : List Capture} {span : Span}
    (hrun : loadCaptures captures span s = .ok u t) :
    ∃ ws, ws.length = captures.length ∧ Grown T v₀ (k + ws.sum) (view t) ∧
      ((view t).reach = none ∨ (view t).widths = ws ++ (view s).widths) := by
  obtain ⟨s₁, t₁, h₁, hv, htail, hs₁, ht₁, hback⟩ := g.outOfTail hrun
  obtain ⟨ws, hlength, g₁, hws⟩ := pushEach_grown
    (fun r _ _ _ _ _ _ _ g hrun => g.compileName hrun) hv htail h₁
  refine ⟨ws, hlength, hback _ g₁, ?_⟩
  simpa only [View.reach, View.widths, ht₁, hs₁] using hws

/-- A function is an instance of its class, made from what it captures. -/
theorem compileFn_leaves [Libraries] (hc : Compiles h) {d : Datum} (hv : Valid (view s))
    (hrun : compileFn h d s = .ok u t) : Leaves (view s) (view t) := by
  obtain ⟨⟨cls, captures⟩, s₁, h₁, hrun⟩ := State.ok_of_bind hrun
  obtain ⟨⟨file, captured⟩, s₂, h₂, h₁⟩ := State.ok_of_bind h₁
  obtain ⟨hview₂, -⟩ := buildFn_ok hc hv.levels h₂
  obtain ⟨loaded, s₃, h₃, h₁⟩ := State.ok_of_bind h₁
  cases h₁
  have hview : view s₁ = view s := (aside_loadClass file h₃).trans hview₂
  rw [← hview] at hv ⊢
  obtain ⟨⟨⟩, s₄, h₄, hrun⟩ := State.ok_of_bind hrun
  obtain ⟨ws, hlength, g, hws⟩ := (Grown.ofValid hv).loadCaptures h₄
  have heffect : (Instruction.newInstance cls.name (captures.map Capture.ty)).effect (view s₄).sites
      = .ok (.ops ([] ++ captures.map Capture.ty) (some (.cls cls.name))) := rfl
  obtain ⟨g₁, htop⟩ := g.emitExact hrun heffect hws (by simpa using hlength) (by simp) rfl rfl
  exact ⟨_, g₁, .inr htop⟩

/-- Arguments take the slots of the parameters they are converted to. -/
theorem Grown.compileFixedArgs (hc : Compiles h) (htail : T.tail = false) {args : List (Datum × Ty)}
    (g : Grown T v₀ k (view s)) (hrun : compileFixedArgs h args s = .ok u t) :
    Grown T v₀ (k + (args.map fun q => q.2.width).sum) (view t) := by
  induction args generalizing s k with
  | nil =>
      cases hrun
      exact g
  | cons q rest ih =>
      obtain ⟨⟨⟩, s₁, h₁, hrun⟩ := State.ok_of_bind hrun
      obtain ⟨⟨⟩, s₂, h₂, h₁⟩ := State.ok_of_bind h₁
      obtain ⟨w, g₁, hw⟩ := g.compile hc h₂ fun p _ => tailOk_of_false (g.tail.trans htail) p
      have g₂ := ih (g₁.coerceTop hw.top (atSpan_ok h₁)).1 hrun
      rwa [Nat.add_assoc] at g₂

/-- The rest of the arguments becomes one vector. -/
theorem Grown.packSuperTail {m : Method} {fixed tail : Nat} (g : Grown T v₀ (k + tail) (view s))
    (htop : tail ≠ 0 → Top 1 (view s)) (hvariadic : m.isVariadic = true)
    (hfixed : m.params.length = fixed + 1) (hrun : packSuperTail m fixed tail s = .ok u t) :
    Grown T v₀ (k + 1) (view t) ∧ Top 1 (view t) := by
  obtain ⟨dead, s₁, h₁, hrun⟩ := State.ok_of_bind hrun
  obtain ⟨rfl, rfl⟩ := isUnreachable_run g h₁
  split at hrun
  · rename_i hdead
    cases hrun
    exact ⟨g.of_dead (reach_of_dead hdead), .inl (reach_of_dead hdead)⟩
  · obtain ⟨stack, s₁, h₁, hrun⟩ := State.ok_of_bind hrun
    obtain ⟨rfl, rfl, -⟩ := stack_ok h₁
    obtain ⟨types, s₁, h₁, hrun⟩ := State.ok_of_bind hrun
    obtain ⟨htypes, rfl⟩ := ofExcept_ok h₁
    obtain ⟨r, s₁, h₁, hrun⟩ := State.ok_of_bind hrun
    cases h₁
    have hlength : (m.params.take fixed ++ types).length = fixed + tail := by
      rw [List.length_append, List.length_take, (topTypes_ok htypes).1]
      omega
    cases hplan : Overload.tailPlan s.world.registry m (m.params.take fixed ++ types) with
    | direct =>
        rw [hplan] at hrun
        have hone : tail = 1 := by
          have hdirect := length_of_direct hplan hvariadic
          omega
        rw [hone] at g htop
        obtain ⟨g₁, htop₁⟩ := g.coerceTop (htop (by simp)) hrun
        exact ⟨g₁, htop₁ (by simp [Ty.width])⟩
    | wrap _ count =>
        rw [hplan] at hrun
        have hpops : ((List.replicate count Ty.any).map Ty.width).sum = tail := by
          have hcount := count_of_wrap hplan
          rw [List.map_replicate, List.sum_replicate_nat, show Ty.any.width = 1 from rfl]
          omega
        have hle : ((List.replicate count Ty.any).map Ty.width).sum ≤ k + tail := by
          omega
        have heffect : (Instruction.makeCollection .vector count).effect (view s).sites
            = .ok (.ops (List.replicate count .any) (some (.cls Names.vector))) := rfl
        obtain ⟨g₁, htop₁⟩ := g.emitResult hrun heffect hle (by simp [Instruction.slot?]) rfl
        rw [hpops, Nat.add_sub_cancel] at g₁
        exact ⟨g₁, htop₁⟩

theorem sum_zip_widths (args : List Datum) (tys : List Ty) (hle : tys.length ≤ args.length) :
    ((args.zip tys).map fun q => q.2.width).sum = (tys.map Ty.width).sum := by
  rw [show (fun q : Datum × Ty => q.2.width) = Ty.width ∘ Prod.snd from rfl, ← List.map_map,
    List.map_snd_zip hle]

/-- The arguments of a constructor of the superclass: all but a variadic tail are known by the types they
were converted to, the tail is one vector on top. -/
theorem Grown.compileSuperArgs (hc : Compiles h) {m : Method} {args : List Datum}
    (haccepts : m.accepts args.length = true) (g : Grown T v₀ k (view s))
    (hrun : compileSuperArgs h m args s = .ok u t) :
    ∃ below exact ws rest, m.params = below ++ exact ∧ ws.length = exact.length ∧
      Grown T v₀ (k + ((below.map Ty.width).sum + ws.sum)) (view t) ∧
      ((view t).reach = none ∨ (view t).widths = ws ++ rest) := by
  obtain ⟨s₁, t₁, h₁, hv, htail, -, hstack, hback⟩ := g.outOfTail hrun
  have g₁ := Grown.ofValid hv
  unfold Method.accepts at haccepts
  cases hvariadic : m.isVariadic with
  | false =>
      rw [hvariadic] at h₁ haccepts
      simp only [Bool.false_eq_true, if_false, beq_iff_eq] at h₁ haccepts
      have g₂ := g₁.compileFixedArgs hc htail h₁
      rw [sum_zip_widths _ _ (Nat.le_of_eq haccepts.symm), Nat.zero_add] at g₂
      exact ⟨m.params, [], [], (view t).widths, by simp, rfl, hback _ g₂, .inr rfl⟩
  | true =>
      rw [hvariadic] at h₁ haccepts
      simp only [if_true, decide_eq_true_eq] at h₁ haccepts
      cases hparams : m.params.length with
      | zero =>
          rw [hparams] at h₁
          cases h₁
      | succ fixed =>
          rw [hparams] at h₁ haccepts
          obtain ⟨⟨⟩, s₂, h₂, h₁⟩ := State.ok_of_bind h₁
          obtain ⟨⟨⟩, s₃, h₃, h₁⟩ := State.ok_of_bind h₁
          have g₂ := g₁.compileFixedArgs hc htail h₂
          rw [sum_zip_widths _ _ (by rw [List.length_take]; omega), Nat.zero_add] at g₂
          obtain ⟨g₃, htop₃⟩ := g₂.compileBoxedEach hc htail h₃
          obtain ⟨g₄, htop₄⟩ :=
            g₃.packSuperTail (fun hne => htop₃ fun hnil => hne (by rw [hnil]; rfl)) hvariadic hparams h₁
          refine ⟨m.params.take fixed, m.params.drop fixed, [1], (view t).widths.tail,
            (List.take_append_drop ..).symm, by rw [List.length_drop]; simp [hparams], hback _ g₄, ?_⟩
          simp only [View.reach, View.widths, hstack]
          refine htop₄.imp_right fun htop => ?_
          obtain ⟨rest, hrest⟩ := List.head?_eq_some_iff.1 htop
          rw [show widths (view t₁).stack = 1 :: rest from hrest]
          rfl

/-- A proxy is an instance of its class, made from the arguments of the superclass and what is captured. -/
theorem compileProxy_leaves [Libraries] (hc : Compiles h) {d : Datum} (hv : Valid (view s))
    (hrun : compileProxy h d s = .ok u t) : Leaves (view s) (view t) := by
  obtain ⟨p, s₁, h₁, hrun⟩ := State.ok_of_bind hrun
  obtain ⟨⟨file, m, captures⟩, s₂, h₂, h₁⟩ := State.ok_of_bind h₁
  obtain ⟨hview₂, -, haccepts⟩ := buildProxy_ok hc hv.levels h₂
  obtain ⟨loaded, s₃, h₃, h₁⟩ := State.ok_of_bind h₁
  cases h₁
  have hview : view s₁ = view s := (aside_loadClass file h₃).trans hview₂
  rw [← hview] at hv ⊢
  obtain ⟨⟨⟩, s₄, h₄, hrun⟩ := State.ok_of_bind hrun
  obtain ⟨⟨⟩, s₅, h₅, hrun⟩ := State.ok_of_bind hrun
  obtain ⟨below, exact, ws, rest, hparams, hlength, g₁, hws⟩ :=
    (Grown.ofValid hv).compileSuperArgs hc haccepts h₄
  obtain ⟨captured, hcaptured, g₂, hwidths⟩ := g₁.loadCaptures h₅
  obtain ⟨_, _, since, _⟩ := (Grown.ofValid g₁.valid).loadCaptures h₅
  have htop : (view s₅).reach = none ∨ (view s₅).widths = (captured ++ ws) ++ rest := by
    rcases hws with hdead | hws
    · exact .inl (since.since.dead hdead)
    · rwa [hws, ← List.append_assoc] at hwidths
  have hsplit : (⟨loaded, m, captures⟩ : ProxyClass).params =
      below ++ (exact ++ captures.map Capture.ty) := by
    rw [ProxyClass.params, hparams, List.append_assoc]
  obtain ⟨g₃, htop₃⟩ := g₂.emitExact hrun (congrArg (fun ps => Except.ok (Effect.ops ps _)) hsplit) htop
    (by simp [hlength, hcaptured, Nat.add_comm]) (by rw [List.sum_append_nat]; omega) rfl rfl
  exact ⟨_, g₃, .inr htop₃⟩

end Instances

/-! ### Types and protocols -/

section Types

variable {s t : FormState} {u : Unit} {h : Handlers}

theorem aside_typeName (name : Datum) : Aside (typeName name) := by
  unfold typeName
  split
  · exact .bind aside_spaceStem fun _ => .pure _
  · exact .fail _

theorem aside_typeField (field : Datum) : Aside (typeField field) := by
  unfold typeField
  split
  · exact .bind (aside_resolveHint _) fun _ => .bind (.ofExcept _) fun _ => .pure _
  · exact .bind (.pure _) fun _ => .bind (.ofExcept _) fun _ => .pure _

theorem aside_announce (full : String) (interfaces : List String) (fields : List FieldBinding) :
    Aside (announce full interfaces fields) :=
  .bind aside_registry fun _ => .bind (.ofExcept _) fun _ => .bind (.lift _) fun _ =>
    aside_importClass full

theorem orReinstate_ok {α : Type} {a : α} {full : String} {previous : Option ClassInfo} {m : FormM α}
    (hrun : orReinstate full previous m s = .ok a t) : m s = .ok a t := by
  unfold orReinstate at hrun
  split at hrun
  · cases hrun
  · assumption

/-- A type is defined beside the method at work. -/
theorem defineType_ok [Libraries] (hc : Compiles h) {d : Datum} {cls : ClassInfo} (hlevels : Levelled (view s))
    (hrun : defineType h d s = .ok cls t) : view t = view s := by
  unfold defineType at hrun
  rcases hargs : argsOf d with _ | ⟨name, _ | ⟨fieldVector, specs⟩⟩ <;> rw [hargs] at hrun
  · cases hrun
  · cases hrun
  · obtain ⟨full, s₁, h₁, hrun⟩ := State.ok_of_bind hrun
    cases hitems : fieldVector.vector? with
    | none =>
        rw [hitems] at hrun
        cases hrun
    | some items =>
        rw [hitems] at hrun
        obtain ⟨fields, s₂, h₂, hrun⟩ := State.ok_of_bind hrun
        obtain ⟨w, s₃, h₃, hrun⟩ := State.ok_of_bind hrun
        obtain ⟨⟨interfaces, methods⟩, s₄, h₄, hrun⟩ := State.ok_of_bind hrun
        obtain ⟨r, s₅, h₅, hrun⟩ := State.ok_of_bind hrun
        obtain ⟨⟨⟩, s₆, h₆, hrun⟩ := State.ok_of_bind hrun
        obtain ⟨cls', s₇, h₇, hrun⟩ := State.ok_of_bind hrun
        obtain ⟨⟨⟩, s₈, h₈, hrun⟩ := State.ok_of_bind hrun
        cases hrun
        have hview : view s₆ = view s := calc
          view s₆ = view s₅ := aside_announce _ _ _ h₆
          _ = view s₄ := aside_registry h₅
          _ = view s₃ := Aside.ofExcept _ h₄
          _ = view s₂ := aside_world h₃
          _ = view s₁ := Aside.mapM aside_typeField _ h₂
          _ = view s := aside_typeName _ h₁
        obtain ⟨file, s₉, h₉, h₇⟩ := State.ok_of_bind (orReinstate_ok h₇)
        calc
          view t = view s₇ := aside_importClass _ h₈
          _ = view s₉ := aside_loadClass _ h₇
          _ = view s₆ := (buildType_ok hc (hview ▸ hlevels) h₉).1
          _ = view s := hview

theorem compileType_leaves [Libraries] (hc : Compiles h) {d : Datum} (hv : Valid (view s))
    (hrun : compileType h d s = .ok u t) : Leaves (view s) (view t) := by
  obtain ⟨cls, s₁, h₁, hrun⟩ := State.ok_of_bind hrun
  have hview := defineType_ok hc hv.levels h₁
  rw [← hview] at hv ⊢
  exact .result (.ofValid hv) hrun rfl rfl rfl rfl

theorem aside_defineProtocol [Libraries] (d : Datum) : Aside (defineProtocol d) := by
  unfold defineProtocol
  split
  · exact .fail _
  · refine .bind (aside_typeName _) fun _ => .bind (.ofExcept _) fun _ => .bind ?_ fun _ =>
      .bind (aside_loadClass _) fun _ => .bind (aside_importClass _) fun _ => .bind (.lift _) fun _ => .pure _
    exact .bind aside_world fun _ => .pure _

theorem compileProtocol_leaves [Libraries] {d : Datum} (hv : Valid (view s)) (hrun : compileProtocol d s = .ok u t) :
    Leaves (view s) (view t) := by
  obtain ⟨cls, s₁, h₁, hrun⟩ := State.ok_of_bind hrun
  rw [← aside_defineProtocol d h₁] at hv ⊢
  exact .result (.ofValid hv) hrun rfl rfl rfl rfl

end Types

end LispMachine.Emission
