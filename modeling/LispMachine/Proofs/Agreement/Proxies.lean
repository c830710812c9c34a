import LispMachine.Proofs.Agreement.Operands
import LispMachine.Proofs.ClassFile.Image
import LispMachine.Proofs.Context.EvaluatedForms
import LispMachine.Proofs.Emission.Balance

/-! # The arguments of a proxy in both modes

A proxy passes its arguments on to a constructor of its superclass.  Compiled code widens them and packs the tail
of a variadic constructor by the types that the compiler knows, interpreted code by the classes of the values.
For arguments that are literals or locals, both pass the same values (`proxy_agrees`), if no argument becomes a
number of another kind and the compiler knows of a lone last argument whether it is a vector: a vector of
unknown type is wrapped by compiled code and passed on by interpreted code (`lone_vector_wrapped`). -/

namespace LispMachine.Agreement

open Form Emission Machine

/-! ### Prepared arguments -/

/-- The parameters that take one argument each. -/
def fixedParams (m : Method) : List Ty := if m.isVariadic then m.params.dropLast else m.params

/-- The types that arguments are passed as: the tail of a variadic constructor goes into one vector. -/
def passedTypes (m : Method) : List Ty := fixedParams m ++ if m.isVariadic then [Ty.cls Names.vector] else []

section Prepare

variable {m : Method} {r r' : Registry} {vs : List Value}

theorem paramAt_fixed {i : Nat} (hi : i < (fixedParams m).length) :
    Overload.paramAt m i = (fixedParams m)[i] := by
  rw [← Option.some_inj, ← List.getElem?_eq_getElem]
  unfold fixedParams at hi ⊢
  cases hvariadic : m.isVariadic with
  | false =>
    simp only [hvariadic, Bool.false_eq_true, if_false] at hi ⊢
    simp [Overload.paramAt, hvariadic, hi]
  | true =>
    simp only [hvariadic, if_true, List.length_dropLast] at hi ⊢
    have hlast : ¬m.params.length ≤ i + 1 := by omega
    have hin : i < m.params.length := by omega
    simp [Overload.paramAt, hlast, hin, hi]

/-- Arguments for parameters of their own are widened one by one. -/
theorem widenEach_fixed (hlength : vs.length ≤ (fixedParams m).length) :
    (vs.zipIdx.map fun (v, i) => Overload.widen (Overload.paramAt m i) v)
      = (vs.zip (fixedParams m)).map fun q => Overload.widen q.2 q.1 := by
  refine List.ext_getElem (by simp [hlength]) ?_
  intro i hi hi'
  have hvs : i < vs.length := by simpa using hi
  simp [paramAt_fixed (Nat.lt_of_lt_of_le hvs hlength)]

/-- The types decide on the tail by their number and by the last one. -/
theorem tailPlan_congr {tys tys' : List Ty} (hlength : tys.length = tys'.length)
    (hlast : tys.length = m.params.length → ∀ ty ∈ tys.getLast?, ∀ ty' ∈ tys'.getLast?,
      (Ty.cls Names.vector).isAssignable r ty = (Ty.cls Names.vector).isAssignable r' ty') :
    Overload.tailPlan r m tys = Overload.tailPlan r' m tys' := by
  unfold Overload.tailPlan
  rw [← hlength]
  by_cases hfull : tys.length = m.params.length
  · rw [if_pos hfull, if_pos hfull]
    cases hty : tys.getLast? with
    | none =>
      rw [List.getLast?_eq_none_iff] at hty
      rw [hty, eq_comm, List.length_nil, List.length_eq_zero_iff] at hlength
      rw [hlength]
      rfl
    | some ty =>
      cases hty' : tys'.getLast? with
      | none =>
        rw [List.getLast?_eq_none_iff] at hty'
        rw [hty', List.length_nil, List.length_eq_zero_iff] at hlength
        rw [hlength] at hty
        cases hty
      | some ty' => simp only [hlast hfull ty hty ty' hty']
  · rw [if_neg hfull, if_neg hfull]

/-- What a fixed constructor expects of its arguments. -/
theorem prepareArgs_fixed (hfixed : m.isVariadic = false) (hlength : vs.length ≤ (fixedParams m).length) :
    Overload.prepareArgs r m vs = (vs.zip (fixedParams m)).map fun q => Overload.widen q.2 q.1 := by
  have hplan : Overload.tailPlan r m (vs.map Overload.typeOf) = .direct := by
    simp [Overload.tailPlan, hfixed]
  rw [Overload.prepareArgs, hplan, Overload.packTail, widenEach_fixed hlength]

/-- What a variadic constructor expects of its arguments, once the tail is packed. -/
theorem prepareArgs_variadic {front : List Value} {v : Value} (hvariadic : m.isVariadic = true)
    (hlength : front.length = (fixedParams m).length)
    (hpacked : Overload.packTail (Overload.tailPlan r m (vs.map Overload.typeOf)) vs = front ++ [v]) :
    Overload.prepareArgs r m vs = ((front.zip (fixedParams m)).map fun q => Overload.widen q.2 q.1) ++ [v] := by
  have htail : Overload.paramAt m front.length = .any := by
    have hparams : m.params.length ≤ front.length + 1 := by
      simp only [fixedParams, hvariadic, if_true, List.length_dropLast] at hlength
      omega
    simp [Overload.paramAt, hvariadic, hparams]
  rw [Overload.prepareArgs, hpacked, List.zipIdx_append, List.map_append, widenEach_fixed (Nat.le_of_eq hlength)]
  simp [htail, Overload.widen]

end Prepare

/-! ### Compiled arguments -/

/-- A parameter takes a value that the compiler knows by a type: imposing the parameter's type makes no number of
another kind of the value, and what is taken for a double is one. -/
structure Fits (ty param : Ty) (a : Value) : Prop where
  ne_void : param ≠ .void
  suits : Suits param a
  honest : ty = param → Overload.widen param a = a

section Compiled

variable {h : Handlers} {s s₁ t : FormState} {u : Unit} {locals : Array Value} {type : Datum → Ty}
  {value : Datum → Value}

/-- Arguments for parameters of their own are pushed as wide as the parameters. -/
theorem compileFixedArgs_pushes [Libraries] {args : List (Datum × Ty)} (hne : (view s).methods ≠ [])
    (hargs : ∀ q ∈ args, Computes h locals s q.1 (type q.1) (value q.1) ∧ Fits (type q.1) q.2 (value q.1))
    (hlive : (view s).stack.isUnreachable = false) (hrun : compileFixedArgs h args s = .ok u t) :
    ∃ code tys, tys.map Ty.width = args.map (fun q => q.2.width) ∧
      PushesEach locals s t code tys (· = args.map fun q => Overload.widen q.2 (value q.1)) := by
  induction args generalizing s with
  | nil =>
    cases hrun
    exact ⟨[], [], rfl, .none hne⟩
  | cons q args ih =>
    obtain ⟨⟨⟩, s₁, h₁, hrun⟩ := State.ok_of_bind hrun
    obtain ⟨⟨⟩, s₂, h₂, h₁⟩ := State.ok_of_bind h₁
    obtain ⟨⟨hcomputes, hfits⟩, hargs⟩ := List.forall_mem_cons.mp hargs
    obtain ⟨code, hpushes⟩ := hcomputes rfl rfl hlive h₂
    obtain ⟨conversion, ty, hwidth, hcoerced⟩ := hpushes.coerceTop hlive hfits.ne_void
      (by rintro v rfl; exact hfits.suits) (by rintro v rfl; exact hfits.honest) (atSpan_ok h₁)
    have hlater : ∀ q ∈ args,
        Computes h locals s₁ q.1 (type q.1) (value q.1) ∧ Fits (type q.1) q.2 (value q.1) :=
      fun q hq => ⟨(hargs q hq).1.later hne hcoerced.adds hcoerced.unmoved, (hargs q hq).2⟩
    obtain ⟨code', tys, hwidths, hrest⟩ :=
      ih hcoerced.adds.methods_ne hlater (hcoerced.live hlive) hrun
    refine ⟨_, ty :: tys, by simp [hwidth, hwidths], (hcoerced.each.append hrest).imp ?_⟩
    rintro vs ⟨-, -, rfl, ⟨v, ⟨a, rfl, rfl⟩, rfl⟩, rfl⟩
    rfl

/-- The arguments of a tail are pushed as references. -/
theorem compileBoxedEach_pushes [Libraries] {args : List Datum} (hne : (view s).methods ≠ [])
    (hargs : ∀ e ∈ args, Computes h locals s e (type e) (value e))
    (hlive : (view s).stack.isUnreachable = false) (hrun : compileBoxedEach h args s = .ok u t) :
    (∀ e ∈ args, type e ≠ .void) ∧ ∃ code,
      PushesEach locals s t code (args.map fun e => (type e).boxed) (· = args.map value) := by
  induction args generalizing s with
  | nil =>
    cases hrun
    exact ⟨nofun, [], .none hne⟩
  | cons e args ih =>
    obtain ⟨⟨⟩, s₁, h₁, hrun⟩ := State.ok_of_bind hrun
    obtain ⟨⟨⟩, s₂, h₂, hrun⟩ := State.ok_of_bind hrun
    rw [List.forall_mem_cons] at hargs
    obtain ⟨code, hpushes⟩ := hargs.1 rfl rfl hlive h₁
    have hboxed := hpushes.boxTop hlive h₂
    obtain ⟨hvoid, code', hrest⟩ := ih hboxed.adds.methods_ne
      (fun e he => (hargs.2 e he).later hne hboxed.adds hboxed.unmoved) (hboxed.live hlive) hrun
    refine ⟨List.forall_mem_cons.mpr ⟨hpushes.ne_void, hvoid⟩, _, (hboxed.each.append hrest).imp ?_⟩
    rintro vs ⟨-, -, rfl, ⟨v, rfl, rfl⟩, rfl⟩
    rfl

theorem fixed_of_wrap {r : Registry} {m : Method} {tys : List Ty} {fixed count : Nat}
    (hplan : Overload.tailPlan r m tys = .wrap fixed count) : fixed = m.params.length - 1 := by
  unfold Overload.tailPlan at hplan
  grind

/-- Behind any arguments for the fixed parameters, a plan passes the values of the tail as one. -/
def Packs (plan : Overload.TailPlan) (fixed : Nat) (vs : List Value) (v : Value) : Prop :=
  ∀ front : List Value, front.length = fixed → Overload.packTail plan (front ++ vs) = front ++ [v]

/-- A lone argument that is known as a vector is passed as it is. -/
theorem passTail_pushes [Libraries] {fixed : Nat} {ty : Ty} {vs : List Value} {code : List Instruction}
    (htail : PushesEach locals s s₁ code [ty] (· = vs)) (hty : ty ≠ .void)
    (hlive : (view s).stack.isUnreachable = false)
    (hrun : FormM.coerceTop (.cls Names.vector) s₁ = .ok u t) :
    ∃ code ty', ty'.width = 1 ∧ Pushes locals s t code ty' (Packs .direct fixed vs) := by
  have hsuits : ∀ v, Suits (.cls Names.vector) v := by
    intro v
    cases v with
    | int n => nofun
    | _ => trivial
  obtain ⟨conversion, ty', hwidth, hcoerced⟩ := (htail.single hty).coerceTop hlive (by nofun)
    (fun v _ => hsuits v) (fun v _ _ => rfl) hrun
  refine ⟨_, ty', hwidth, hcoerced.imp ?_⟩
  rintro - ⟨v, rfl, rfl⟩ front -
  rfl

/-- Other tails are put into a vector. -/
theorem wrapTail_pushes [Libraries] {fixed : Nat} {tys : List Ty} {vs : List Value} {code : List Instruction}
    (htail : PushesEach locals s s₁ code tys (· = vs)) (hwidth : ∀ ty ∈ tys, ty.width = 1)
    (hlive : (view s).stack.isUnreachable = false)
    (hrun : FormM.emit (.makeCollection .vector tys.length) s₁ = .ok u t) :
    ∃ code ty', ty'.width = 1 ∧ Pushes locals s t code ty' (Packs (.wrap fixed tys.length) fixed vs) := by
  refine ⟨_, _, rfl, htail.collect hlive (fun _ => rfl) (by simp) rfl (by nofun) (by trivial) ?_ hrun⟩
  rintro call body r r' vs rest rfl hlength hoperands hperforms
  rw [slotsOfEach_reverse hlength hwidth] at hoperands
  obtain ⟨v, hbuild, rfl⟩ := performs_makeCollection hlength hoperands hperforms
  cases hbuild
  refine ⟨_, ?_, rfl⟩
  rintro front rfl
  simp [Overload.packTail]

/-- Packing the tail leaves one operand in its place. -/
theorem packSuperTail_pushes [Libraries] {m : Method} {fixed : Nat} {tys : List Ty} {vs : List Value}
    {code : List Instruction}
    (hvariadic : m.isVariadic = true) (hfixed : m.params.length = fixed + 1)
    (htail : PushesEach locals s s₁ code tys (· = vs)) (hwidth : ∀ ty ∈ tys, ty.width = 1)
    (hlive : (view s).stack.isUnreachable = false) (hrun : packSuperTail m fixed tys.length s₁ = .ok u t) :
    ∃ code ty, ty.width = 1 ∧ Pushes locals s t code ty
      (Packs (Overload.tailPlan s.world.registry m (m.params.take fixed ++ tys)) fixed vs) := by
  obtain ⟨dead, s₂, h₂, hrun⟩ := State.ok_of_bind hrun
  obtain ⟨rfl, rfl⟩ := isUnreachable_ok h₂ htail.adds.methods_ne
  rw [htail.live hlive] at hrun
  simp only [Bool.false_eq_true, if_false] at hrun
  obtain ⟨stack, s₂, h₂, hrun⟩ := State.ok_of_bind hrun
  obtain ⟨rfl, rfl, -⟩ := stack_ok h₂
  obtain ⟨types, s₂, h₂, hrun⟩ := State.ok_of_bind hrun
  obtain ⟨htypes, rfl⟩ := ofExcept_ok h₂
  obtain ⟨records, htys, hrecords⟩ := htail.known
  rw [topTypes_recorded htys hrecords] at htypes
  cases htypes
  obtain ⟨r, s₂, h₂, hpack⟩ := State.ok_of_bind hrun
  cases h₂
  have hregistry : s₁.world.registry = s.world.registry := by rw [htail.world]
  rw [hregistry] at hpack
  cases hplan : Overload.tailPlan s.world.registry m (m.params.take fixed ++ tys) with
  | direct =>
    rw [hplan] at hpack
    have hone := length_of_direct hplan hvariadic
    rw [List.length_append, List.length_take] at hone
    obtain ⟨ty, rfl⟩ := List.length_eq_one_iff.mp (show tys.length = 1 by omega)
    have hty : ty ≠ .void := by
      rintro rfl
      cases hwidth .void List.mem_cons_self
    exact passTail_pushes htail hty hlive hpack
  | wrap fixed' count =>
    rw [hplan] at hpack
    have hcount := count_of_wrap hplan
    obtain rfl : fixed' = fixed := by rw [fixed_of_wrap hplan]; omega
    rw [List.length_append, List.length_take] at hcount
    obtain rfl : count = tys.length := by omega
    exact wrapTail_pushes htail hwidth hlive hpack

/-- If the tail of a variadic constructor is one argument, the compiler knows whether it is a vector. -/
def TailKnown (r r' : Registry) (m : Method) (type : Datum → Ty) (value : Datum → Value)
    (args : List Datum) : Prop :=
  m.isVariadic = true → args.length = m.params.length → ∀ e ∈ args.getLast?,
    (Ty.cls Names.vector).isAssignable r (type e).boxed
      = (Ty.cls Names.vector).isAssignable r' (Overload.typeOf (value e))

/-- Then the types the compiler knows decide on the tail as the classes of the values do. -/
theorem TailKnown.plan {r r' : Registry} {m : Method} {args : List Datum} {fixed : Nat}
    (hknown : TailKnown r r' m type value args) (hvariadic : m.isVariadic = true)
    (hparams : m.params.length = fixed + 1) (hlength : fixed ≤ args.length) :
    Overload.tailPlan r m (m.params.take fixed ++ (args.drop fixed).map fun e => (type e).boxed)
      = Overload.tailPlan r' m ((args.map value).map Overload.typeOf) := by
  refine tailPlan_congr (by simp [hparams, hlength]) ?_
  -- The tail is one argument, and that is the last.
  intro hfull ty hty ty' hty'
  rw [List.length_append, List.length_take, hparams, Nat.min_eq_left (Nat.le_succ fixed),
    Nat.add_left_cancel_iff, List.length_map] at hfull
  obtain ⟨e, he⟩ := List.length_eq_one_iff.mp hfull
  have hsplit : args.take fixed ++ [e] = args := he ▸ List.take_append_drop fixed args
  rw [he, List.map_singleton, List.getLast?_concat] at hty
  rw [← hsplit, List.map_append, List.map_append, List.map_singleton, List.map_singleton,
    List.getLast?_concat] at hty'
  cases hty
  cases hty'
  refine hknown hvariadic ?_ e (by rw [← hsplit, List.getLast?_concat]; rfl)
  rw [← hsplit, List.length_append, List.length_take, Nat.min_eq_left hlength, hparams]
  rfl

theorem widths_zip {args : List Datum} {params : List Ty} (hlength : params.length ≤ args.length) :
    (args.zip params).map (fun q => q.2.width) = params.map Ty.width := by
  conv_rhs => rw [← List.map_snd_zip hlength, List.map_map]
  rfl

theorem widened_zip (args : List Datum) (params : List Ty) :
    (args.zip params).map (fun q => Overload.widen q.2 (value q.1))
      = ((args.map value).zip params).map fun q => Overload.widen q.2 q.1 := by
  rw [List.zip_map_left, List.map_map]
  rfl

/-- The arguments of a constructor that takes as many. -/
theorem fixedArgs_pushes [Libraries] {m : Method} {args : List Datum} {r : Registry} (hfixed : m.isVariadic = false)
    (hlength : args.length = m.params.length) (hne : (view s).methods ≠ [])
    (hargs : ∀ q ∈ args.zip m.params,
      Computes h locals s q.1 (type q.1) (value q.1) ∧ Fits (type q.1) q.2 (value q.1))
    (hlive : (view s).stack.isUnreachable = false) (hrun : compileFixedArgs h (args.zip m.params) s = .ok u t) :
    ∃ code tys, tys.map Ty.width = (passedTypes m).map Ty.width ∧
      PushesEach locals s t code tys (· = Overload.prepareArgs r m (args.map value)) := by
  have hparams : fixedParams m = m.params := by simp [fixedParams, hfixed]
  obtain ⟨code, tys, hwidths, hpushes⟩ := compileFixedArgs_pushes hne hargs hlive hrun
  refine ⟨code, tys, ?_, hpushes.imp ?_⟩
  · rw [hwidths, widths_zip (Nat.le_of_eq hlength.symm), passedTypes, hparams, hfixed]
    simp
  · rintro vs rfl
    rw [prepareArgs_fixed hfixed (by simp [hparams, hlength]), widened_zip, hparams]

/-- The arguments of a variadic constructor. -/
theorem variadicArgs_pushes [Libraries] {m : Method} {args : List Datum} {r : Registry} {fixed : Nat}
    (hvariadic : m.isVariadic = true) (hparams : m.params.length = fixed + 1) (hlength : fixed ≤ args.length)
    (hne : (view s).methods ≠ []) (hargs : ∀ e ∈ args, Computes h locals s e (type e) (value e))
    (hfits : ∀ q ∈ args.zip (m.params.take fixed), Fits (type q.1) q.2 (value q.1))
    (hknown : TailKnown s.world.registry r m type value args)
    (hlive : (view s).stack.isUnreachable = false)
    (hrun : (do
      compileFixedArgs h (args.zip (m.params.take fixed))
      compileBoxedEach h (args.drop fixed)
      packSuperTail m fixed (args.drop fixed).length) s = .ok u t) :
    ∃ code tys, tys.map Ty.width = (passedTypes m).map Ty.width ∧
      PushesEach locals s t code tys (· = Overload.prepareArgs r m (args.map value)) := by
  have hfixed : fixedParams m = m.params.take fixed := by
    simp [fixedParams, hvariadic, List.dropLast_eq_take, hparams]
  have htake : (m.params.take fixed).length = fixed := by simp [hparams]
  obtain ⟨⟨⟩, s₁, h₁, hrun⟩ := State.ok_of_bind hrun
  obtain ⟨⟨⟩, s₂, h₂, hpack⟩ := State.ok_of_bind hrun
  obtain ⟨code, tys, hwidths, hfront⟩ := compileFixedArgs_pushes hne
    (fun q hq => ⟨hargs q.1 (List.of_mem_zip hq).1, hfits q hq⟩) hlive h₁
  obtain ⟨hvoid, code', htail⟩ := compileBoxedEach_pushes hfront.adds.methods_ne
    (fun e he => (hargs e (List.mem_of_mem_drop he)).later hne hfront.adds hfront.unmoved) (hfront.live hlive) h₂
  have hwidth : ∀ ty ∈ (args.drop fixed).map fun e => (type e).boxed, ty.width = 1 := by
    intro ty hty
    obtain ⟨e, he, rfl⟩ := List.mem_map.mp hty
    exact boxed_width (hvoid e he)
  rw [← List.length_map (f := fun e => (type e).boxed)] at hpack
  obtain ⟨code'', ty, hty, hpacked⟩ :=
    packSuperTail_pushes hvariadic hparams htail hwidth (hfront.live hlive) hpack
  have hregistry : s₁.world.registry = s.world.registry := by rw [hfront.world]
  rw [hregistry, hknown.plan hvariadic hparams hlength] at hpacked
  refine ⟨_, _, ?_, (hfront.append hpacked.each).imp ?_⟩
  · rw [List.map_append, hwidths, widths_zip (by rw [htake]; exact hlength), passedTypes, hfixed, hvariadic,
      if_pos rfl, List.map_append, List.map_singleton, hty]
    rfl
  · rintro vs ⟨front, last, rfl, rfl, v, hv, rfl⟩
    have hsplit := hv ((args.take fixed).map value) (by simp [hlength])
    rw [← List.map_append, List.take_append_drop] at hsplit
    have hzip : args.zip (m.params.take fixed) = (args.take fixed).zip (m.params.take fixed) := by
      rw [List.zip_eq_zip_take_min, htake, Nat.min_eq_right hlength, List.take_take, Nat.min_self]
    rw [prepareArgs_variadic hvariadic (by simp [hfixed, htake, hlength]) hsplit, hfixed, ← widened_zip, hzip]

/-- The code for the arguments of a constructor leaves what the constructor expects of their values. -/
theorem compileSuperArgs_pushes [Libraries] {m : Method} {args : List Datum} {r : Registry}
    (hne : (view s).methods ≠ [])
    (haccepts : m.accepts args.length = true) (hargs : ∀ e ∈ args, Computes h locals s e (type e) (value e))
    (hfits : ∀ q ∈ args.zip (fixedParams m), Fits (type q.1) q.2 (value q.1))
    (hknown : TailKnown s.world.registry r m type value args)
    (hlive : (view s).stack.isUnreachable = false) (hrun : compileSuperArgs h m args s = .ok u t) :
    ∃ code tys, tys.map Ty.width = (passedTypes m).map Ty.width ∧
      PushesEach locals s t code tys (· = Overload.prepareArgs r m (args.map value)) := by
  obtain ⟨t₁, hm, rfl⟩ := withTail_run hrun
  have hargs' : ∀ e ∈ args, Computes h locals { s with tail := false } e (type e) (value e) := hargs
  cases hvariadic : m.isVariadic with
  | false =>
    have hlength : args.length = m.params.length := by simpa [Method.accepts, hvariadic] using haccepts
    simp only [fixedParams, hvariadic, Bool.false_eq_true, if_false] at hm hfits
    obtain ⟨code, tys, hwidths, hpushes⟩ := fixedArgs_pushes (s := { s with tail := false }) hvariadic hlength hne
      (fun q hq => ⟨hargs' q.1 (List.of_mem_zip hq).1, hfits q hq⟩) hlive hm
    exact ⟨code, tys, hwidths, hpushes.outOfTail⟩
  | true =>
    simp only [fixedParams, hvariadic, if_true] at hm hfits
    cases hparams : m.params.length with
    | zero =>
      simp only [hparams] at hm
      cases hm
    | succ fixed =>
      simp only [hparams] at hm
      have hlength : fixed ≤ args.length := by
        have hle : m.params.length ≤ args.length + 1 := by simpa [Method.accepts, hvariadic] using haccepts
        omega
      rw [List.dropLast_eq_take, hparams, Nat.add_sub_cancel] at hfits
      obtain ⟨code, tys, hwidths, hpushes⟩ := variadicArgs_pushes (s := { s with tail := false }) hvariadic hparams
        hlength hne hargs' hfits hknown hlive hm
      exact ⟨code, tys, hwidths, hpushes.outOfTail⟩

end Compiled

/-! ### Proxies -/

section Define

variable {h : Handlers} {d : Datum} {s t : FormState} {p : ProxyClass} {w w' : World} {m : Method}

/-- The constructor of the superclass that a proxy calls. -/
def constructorOf (w : World) (d : Datum) : Except Error Method := do
  let (classes, args, _) ← proxyParts d
  let (superclass, _) ← proxyParents w d classes
  Form.superConstructor superclass args.length d

theorem proxyParts_args {classes args specs : List Datum} (hparts : proxyParts d = .ok (classes, args, specs)) :
    proxyArgs d = args := by
  unfold proxyParts at hparts
  unfold proxyArgs
  split at hparts
  · rename_i hargs
    split at hparts
    · cases hparts
    · cases hparts
    · rename_i hvector
      cases hparts
      simp [hargs, hvector]
  · cases hparts

theorem superConstructor_accepts {c : ClassInfo} {n : Nat} (hm : Form.superConstructor c n d = .ok m) :
    m.accepts n = true := by
  unfold Form.superConstructor at hm
  simp only at hm
  split at hm
  · rename_i k hk
    cases hm
    cases hfixed : c.constructors.find? fun k => !k.isVariadic && k.params.length == n with
    | some k' =>
      rw [hfixed] at hk
      cases hk
      have hfound := List.find?_some hfixed
      simp only [Bool.and_eq_true, Bool.not_eq_true', beq_iff_eq] at hfound
      simp [Method.accepts, hfound.1, hfound.2]
    | none =>
      rw [hfixed] at hk
      have hany : c.constructors.find? (fun k => k.accepts n) = some m := hk
      exact List.find?_some (p := fun k : Method => k.accepts n) hany
  · cases hm

theorem constructorOf_accepts (hm : constructorOf w d = .ok m) : m.accepts (proxyArgs d).length = true := by
  obtain ⟨⟨classes, args, specs⟩, hparts, hm⟩ := bind_ok hm
  obtain ⟨⟨superclass, interfaces⟩, -, hm⟩ := bind_ok hm
  rw [proxyParts_args hparts]
  exact superConstructor_accepts hm

theorem defineProxy_constructor [Libraries] (hrun : defineProxy h d s = .ok p t) :
    constructorOf s.world d = .ok p.superConstructor := by
  obtain ⟨⟨file, k, captures⟩, s₁, hbuild, hrun⟩ := State.ok_of_bind hrun
  obtain ⟨cls, s₂, -, hrun⟩ := State.ok_of_bind hrun
  cases hrun
  obtain ⟨⟨classes, args, specs⟩, s₂, h₂, hbuild⟩ := State.ok_of_bind hbuild
  obtain ⟨hparts, rfl⟩ := ofExcept_ok h₂
  obtain ⟨w, s₂, h₂, hbuild⟩ := State.ok_of_bind hbuild
  cases h₂
  obtain ⟨⟨superclass, interfaces⟩, s₂, h₂, hbuild⟩ := State.ok_of_bind hbuild
  obtain ⟨hparents, rfl⟩ := ofExcept_ok h₂
  obtain ⟨init, s₂, h₂, hbuild⟩ := State.ok_of_bind hbuild
  obtain ⟨hinit, rfl⟩ := ofExcept_ok h₂
  obtain ⟨methods, s₂, -, hbuild⟩ := State.ok_of_bind hbuild
  obtain ⟨className, s₃, -, hbuild⟩ := State.ok_of_bind hbuild
  obtain ⟨start, s₅, -, hbuild⟩ := State.ok_of_bind hbuild
  obtain ⟨built, s₆, -, hbuild⟩ := State.ok_of_bind hbuild
  cases hbuild
  unfold constructorOf
  rw [hparts]
  change (proxyParents _ d classes >>= _) = _
  rw [hparents]
  exact hinit

theorem SameNames.constructorOf (hsame : SameNames w w') (d : Datum) :
    constructorOf w' d = constructorOf w d := by
  have hresolve : w'.resolveClass? = w.resolveClass? := by
    funext name
    simp only [World.resolveClass?, World.here, World.space?, hsame.current, hsame.spaces, hsame.registry]
  have hargs : proxyClassArg w' = proxyClassArg w := by
    funext e
    simp only [proxyClassArg, hresolve]
  have hsplit : splitParents w' = splitParents w := by
    funext classes
    simp only [splitParents, hresolve]
  simp only [Agreement.constructorOf, proxyParents, hargs, hsplit]

/-- Defining the class of a proxy leaves the locals and the methods at work alone. -/
theorem defineProxy_apart [Libraries] {fuel : Nat} (hrun : defineProxy (handlers fuel) d s = .ok p t) :
    t.methods = s.methods ∧ t.scopes = s.scopes := by
  refine ⟨apart_defineProxy (frames_handlers fuel) d hrun, ?_⟩
  have hkept := Keeping.keeps_defineProxy (b := false) (n := false) (g := .fixed)
    (Keeping.keeps_handlers fuel).1 d s
  rw [hrun] at hkept
  have hframes : t.scopes.frames = s.scopes.frames := congrArg Context.frames hkept.context
  exact congrArg Scopes.mk hframes

end Define

theorem evaluateEach_values {h : Handlers} {s t : FormState} {args : List Datum} {value : Datum → Value}
    {vs : List Value} (hargs : ∀ e ∈ args, Evaluates h s e (value e)) (hrun : evaluateEach h args s = .ok vs t) :
    vs = args.map value ∧ t = s := by
  induction args generalizing vs with
  | nil =>
    cases hrun
    exact ⟨rfl, rfl⟩
  | cons e args ih =>
    rw [List.forall_mem_cons] at hargs
    obtain ⟨v, s₁, h₁, hrun⟩ := State.ok_of_bind hrun
    obtain ⟨vs', s₂, h₂, hrun⟩ := State.ok_of_bind hrun
    cases hrun
    obtain ⟨rfl, rfl⟩ := hargs.1 rfl rfl h₁
    obtain ⟨rfl, rfl⟩ := ih hargs.2 h₂
    exact ⟨rfl, rfl⟩

theorem evaluateArgs_values {h : Handlers} {s t : FormState} {args : List Datum} {value : Datum → Value}
    {vs : List Value} (hargs : ∀ e ∈ args, Evaluates h s e (value e)) (hrun : evaluateArgs h args s = .ok vs t) :
    vs = args.map value ∧ t = s := by
  obtain ⟨t₁, ht₁, rfl⟩ := withTail_run hrun
  have hargs' : ∀ e ∈ args, Evaluates h { s with tail := false } e (value e) := hargs
  obtain ⟨rfl, rfl⟩ := evaluateEach_values hargs' ht₁
  exact ⟨rfl, rfl⟩

/-- A proxy passes the same arguments to the constructor of its superclass in both modes.  The values that an
interpreted proxy puts in front of what it captures are those that the code of the compiled one has pushed when
it goes on to load what is captured and to make the instance. -/
theorem proxy_agrees [Libraries] {fuel fuel' : Nat} {d : Datum} {s s₁ t s' s₁' t' : FormState} {p p' : ProxyClass}
    {u : Unit}
    {v : Value} {locals : Array Value} {value : Datum → Value} (hsame : SameNames s.world s'.world)
    (hopen : s.methods ≠ []) (hlive : (view s).stack.isUnreachable = false)
    (hargs : ∀ e ∈ proxyArgs d, Operand s locals s' (value e) e)
    (hdefine : defineProxy (handlers fuel) d s = .ok p s₁)
    (hdefine' : defineProxy (handlers fuel') d s' = .ok p' s₁')
    (hfits : ∀ q ∈ (proxyArgs d).zip (fixedParams p.superConstructor), Fits (staticType s q.1) q.2 (value q.1))
    (hknown : TailKnown s₁.world.registry s₁'.world.registry p.superConstructor (staticType s) value (proxyArgs d))
    (hcompile : compileProxy (handlers fuel) d s = .ok u t)
    (hevaluate : evaluateProxy (handlers fuel') d s' = .ok v t') :
    p'.superConstructor = p.superConstructor ∧ ∃ passed code tys s₂ captured s₂',
      PushesEach locals s₁ s₂ code tys (· = passed) ∧
      tys.map Ty.width = (passedTypes p.superConstructor).map Ty.width ∧
      (do loadCaptures p.captures d.span; FormM.emit (.newInstance p.cls.name p.params)) s₂ = .ok u t ∧
      captureValues p'.captures s₁' = .ok captured s₂' ∧
      FormM.lift (Machine.newInstance (handlers fuel').call p'.cls.name p'.params (passed ++ captured)) s₂'
        = .ok v t' := by
  have hm := defineProxy_constructor hdefine
  have hm' := defineProxy_constructor hdefine'
  rw [hsame.constructorOf, hm, Except.ok.injEq] at hm'
  refine ⟨hm'.symm, ?_⟩
  obtain ⟨hmethods, hscopes⟩ := defineProxy_apart hdefine
  obtain ⟨hmethods', hscopes'⟩ := defineProxy_apart hdefine'
  -- The rest of the compiled form
  obtain ⟨p₁, s₂, h₂, hcompile⟩ := State.ok_of_bind hcompile
  rw [hdefine] at h₂
  cases h₂
  obtain ⟨⟨⟩, s₂, h₂, hrest⟩ := State.ok_of_bind hcompile
  have hwork : (view s₁).methods = (view s).methods := hmethods
  have hstack : (view s₁).stack = (view s).stack := by simp only [View.stack, View.work, hwork]
  have hcomputes : ∀ e ∈ proxyArgs d, Computes (handlers fuel) locals s₁ e (staticType s e) (value e) := by
    intro e he s₃ u₃ t₃ hscopes₃ hmethods₃
    exact (hargs e he).computes (hscopes₃.trans hscopes) (hmethods₃.trans (congrArg List.length hmethods))
  obtain ⟨code, tys, hwidths, hpushes⟩ := compileSuperArgs_pushes (hwork ▸ hopen) (constructorOf_accepts hm)
    hcomputes hfits hknown (hstack ▸ hlive) h₂
  -- The rest of the interpreted form
  obtain ⟨p₁', s₃, h₃, hprepare⟩ := State.ok_of_bind hevaluate
  rw [hdefine'] at h₃
  cases h₃
  obtain ⟨values, s₃, h₃, hprepared⟩ := State.ok_of_bind hprepare
  have hevaluates : ∀ e ∈ proxyArgs d, Evaluates (handlers fuel') s₁' e (value e) := by
    intro e he s₄ v₄ t₄ hscopes₄ hmethods₄
    exact (hargs e he).evaluates (hscopes₄.trans hscopes') (hmethods₄.trans hmethods')
  obtain ⟨rfl, rfl⟩ := evaluateArgs_values hevaluates h₃
  obtain ⟨r, s₄, h₄, hcapture⟩ := State.ok_of_bind hprepared
  cases h₄
  obtain ⟨captured, s₄, h₄, hmake⟩ := State.ok_of_bind hcapture
  rw [← hm'] at hmake
  exact ⟨_, code, tys, s₂, captured, s₄, hpushes, hwidths, hrest, h₄, hmake⟩

/-! ### Two proxies -/

section Instances

variable {h : Handlers} {d : Datum} {s s₁ : FormState} {p : ProxyClass}

/-- Loads a class file as it is, with no image in between. -/
def loadUnread (file : ClassFile) : FormM ClassInfo := FormM.lift do
  if (← get).options.verifyClasses then Action.ofExcept (Verifier.checkClass file)
  registerFile file

/-- The class file has an image that reads back. -/
def isLoadable (file : ClassFile) : Bool :=
  file.fits && file.doubles.isEmpty && decide (file.toJson.depth ≤ Json.imageDepth)

theorem loadClass_eq [Libraries] {file : ClassFile} (hfile : isLoadable file = true) :
    loadClass file = loadUnread file := by
  simp only [isLoadable, Bool.and_eq_true, List.isEmpty_iff, decide_eq_true_eq] at hfile
  obtain ⟨⟨hfits, hdoubles⟩, hdepth⟩ := hfile
  have hread : ClassFile.ofBytes file.toBytes = .ok file :=
    ClassFile.ofBytes_image _ (ClassFile.ofBody?_bodyText hfits (by simp [hdoubles]) hdepth)
  rw [loadClass, defineClass, defineImage, hread]
  rfl

/-- Makes the class of a proxy from its parts, with no image in between. -/
def defineUnread (parts : ClassFile × Method × List Capture) : FormM ProxyClass := do
  return { cls := ← loadUnread parts.1, superConstructor := parts.2.1, captures := parts.2.2 }

/-- The class of a proxy, computed: digests of images take too long to evaluate. -/
theorem exists_defined [Libraries] {q : ProxyClass × FormState → Bool}
    (hq : (State.answer? (buildProxy h d s)).any (fun r =>
      isLoadable r.1.1 && (State.answer? (defineUnread r.1 r.2)).any q) = true) :
    ∃ p s₁, defineProxy h d s = .ok p s₁ ∧ q (p, s₁) = true := by
  obtain ⟨⟨file, k, captures⟩, s₁, hbuild, hq⟩ := State.exists_answer hq
  rw [Bool.and_eq_true] at hq
  obtain ⟨p, s₂, hdefined, hp⟩ := State.exists_answer hq.2
  refine ⟨p, s₂, ?_, hp⟩
  rw [defineProxy, State.bind_of_ok hbuild]
  simp only [loadClass_eq hq.1]
  exact hdefined

/-- What is left of a compiled proxy once its class is defined. -/
def compileInstance (h : Handlers) (d : Datum) (p : ProxyClass) : FormM Unit := do
  compileSuperArgs h p.superConstructor (proxyArgs d)
  loadCaptures p.captures d.span
  FormM.emit (.newInstance p.cls.name p.params)

/-- What is left of an interpreted proxy once its class is defined. -/
def evaluateInstance (h : Handlers) (d : Datum) (p : ProxyClass) : FormM Value := do
  let values ← evaluateArgs h (proxyArgs d)
  let prepared := Overload.prepareArgs (← FormM.registry) p.superConstructor values
  let captured ← captureValues p.captures
  FormM.lift (Machine.newInstance h.call p.cls.name p.params (prepared ++ captured))

theorem compileProxy_eq [Libraries] (hdefine : defineProxy h d s = .ok p s₁) :
    compileProxy h d s = compileInstance h d p s₁ := by
  rw [compileProxy, State.bind_of_ok hdefine]
  rfl

theorem evaluateProxy_eq [Libraries] (hdefine : defineProxy h d s = .ok p s₁) :
    evaluateProxy h d s = evaluateInstance h d p s₁ := by
  rw [evaluateProxy, State.bind_of_ok hdefine]
  rfl

/-- The vector `[1 2]`. -/
def oneTwo : Datum := .ofVector [.ofAtom (.int 1) default, .ofAtom (.int 2) default] default

/-- The form `(proxy [lang.Tuple] [[1 2]])`. -/
def tupleOfVector : Datum :=
  .ofList [.symbol "proxy" default, .ofVector [.symbol Names.tuple default] default, .ofVector [oneTwo] default]
    default

theorem tupleOfVector_args : proxyArgs tupleOfVector = [oneTwo] := by
  cbv

/-- The world with the built-in classes. -/
def hostWorld : World := { registry := Host.registry, current := Names.userSpace }

/-- A method at work that has `x`, of unknown type, in its first slot. -/
def hostMethod : FormState where
  world := hostWorld
  scopes := ⟨[{ kind := .methodLet, level := 1, bindings := [.inSlot "x" .any 0] }]⟩
  classes := #[{ file := { name := "T", superclass := Names.object }, mode := .closure }]
  methods := [{ owner := 0 }]

/-- In both modes, the proxy `(proxy [lang.Tuple] [[1 2]])` passes the same arguments on. -/
theorem proxy_agrees_vector :
    ∃ (p p' : ProxyClass) (s₁ s₂ s₂' t t' : FormState) (v : Value) (passed captured : List Value)
      (code : List Instruction) (tys : List Ty),
      compileProxy (handlers 2) tupleOfVector hostMethod = .ok () t ∧
      evaluateProxy (handlers 8) tupleOfVector { world := hostWorld } = .ok v t' ∧
      defineProxy (handlers 2) tupleOfVector hostMethod = .ok p s₁ ∧ PushesEach #[] s₁ s₂ code tys (· = passed) ∧
      FormM.lift (Machine.newInstance (handlers 8).call p'.cls.name p'.params (passed ++ captured)) s₂'
        = .ok v t' := by
  obtain ⟨p, s₁, hdefine, hp⟩ := exists_defined (h := handlers 2) (d := tupleOfVector) (s := hostMethod)
    (q := fun r => (fixedParams r.1.superConstructor).isEmpty &&
      (State.answer? (compileInstance (handlers 2) tupleOfVector r.1 r.2)).any fun _ => true) (by decide +kernel)
  obtain ⟨p', s₁', hdefine', hp'⟩ := exists_defined (h := handlers 8) (d := tupleOfVector)
    (s := { world := hostWorld })
    (q := fun r => (State.answer? (evaluateInstance (handlers 8) tupleOfVector r.1 r.2)).any fun _ => true)
    (by decide +kernel)
  rw [Bool.and_eq_true, List.isEmpty_iff] at hp
  obtain ⟨⟨⟩, t, hinstance, -⟩ := State.exists_answer hp.2
  obtain ⟨v, t', hinstance', -⟩ := State.exists_answer hp'
  have hcompile := (compileProxy_eq hdefine).trans hinstance
  have hevaluate := (evaluateProxy_eq hdefine').trans hinstance'
  have hargs : ∀ e ∈ proxyArgs tupleOfVector, Operand hostMethod #[] { world := hostWorld } e.toValue e := by
    rw [tupleOfVector_args]
    exact List.forall_mem_singleton.mpr (.literal (.inl rfl) rfl)
  have hknown : TailKnown s₁.world.registry s₁'.world.registry p.superConstructor (staticType hostMethod)
      Datum.toValue (proxyArgs tupleOfVector) := by
    rintro - - e he
    rw [tupleOfVector_args] at he
    cases he
    rfl
  have hsame : SameNames hostMethod.world hostWorld := ⟨rfl, rfl, rfl, rfl⟩
  have hfits : ∀ q ∈ (proxyArgs tupleOfVector).zip (fixedParams p.superConstructor),
      Fits (staticType hostMethod q.1) q.2 q.1.toValue := by
    rw [hp.1, List.zip_nil_right]
    nofun
  obtain ⟨-, passed, code, tys, s₂, captured, s₂', hpushes, -, -, -, hmake⟩ :=
    proxy_agrees hsame (by simp [hostMethod]) rfl hargs hdefine hdefine' hfits hknown
      hcompile hevaluate
  exact ⟨p, p', s₁, s₂, s₂', t, t', v, passed, captured, code, tys, hcompile, hevaluate, hdefine, hpushes, hmake⟩

/-- The constructor of tuples, which takes any number of items. -/
def tupleConstructor : Method where
  owner := Names.tuple
  name := Names.constructor
  params := [.cls Names.vector]
  ret := .void
  isVariadic := true
  body := .host .keepItems

/-- The stack holds a vector of one vector, `[[1 2]]`. -/
def isWrapped : List Value → Bool
  | [.vector [.vector [.int a, .int b]]] => a == 1 && b == 2
  | _ => false

/-- The vector `[1 2]` in a local of unknown type is the only argument for tuples: compiled code wraps it into
another vector, and interpreted code passes it on. -/
theorem lone_vector_wrapped :
    ∃ t r', compileSuperArgs (handlers 2) tupleConstructor [.symbol "x" default] hostMethod = .ok () t ∧
      ranTo? #[.vector [.int 1, .int 2]] hostWorld t = some r' ∧
      r'.frame.stack = [.vector [.vector [.int 1, .int 2]]] ∧
      Overload.prepareArgs Host.registry tupleConstructor [.vector [.int 1, .int 2]]
        = [.vector [.int 1, .int 2]] := by
  obtain ⟨⟨⟩, t, hcompile, hruns⟩ := State.exists_answer
    (r := compileSuperArgs (handlers 2) tupleConstructor [.symbol "x" default] hostMethod)
    (p := fun r => (ranTo? #[.vector [.int 1, .int 2]] hostWorld r.2).any fun r' => isWrapped r'.frame.stack)
    (by decide +kernel)
  obtain ⟨r', hr', hwrapped⟩ := (Option.any_eq_true _ _).mp hruns
  refine ⟨t, r', hcompile, hr', ?_, rfl⟩
  unfold isWrapped at hwrapped
  split at hwrapped
  · rename_i a b hstack
    simp only [Bool.and_eq_true, beq_iff_eq] at hwrapped
    rw [hstack, hwrapped.1, hwrapped.2]
  · cases hwrapped

end Instances

end LispMachine.Agreement
