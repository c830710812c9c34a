import Mathlib.Data.List.Basic
import LispMachine.Libraries.Standard
import LispMachine.Proofs.Machine.Onward
import LispMachine.Proofs.Overload.Fitting

/-! # Call sites of class members

A site that calls a method or a constructor remembers the overload an earlier call chose, guarded by the
class of the receiver and by the classes at the positions on which the overloads disagree.  The choice
itself looks at every position: an argument that the guard leaves out decides whether anything fits at
all, and how well.  A static method that the types decide on is not even guarded, and a field is linked by
the class of its receiver and not by what the receiver has.  So a remembered target is the one that a fresh
decision gives as long as calls that a guard takes for alike choose the same overload, calls of a static
method choose the one that the types decide on, and classes have the fields of their objects
(`memberSite_transparent`); it need not be where one of these fails (`remembered_members_differ`). -/

namespace LispMachine

namespace Machine

open CallSite Relation
open Overload (DynamicResolution FitAlike)
open Registry (Candidate)

/-! ### What a call through a site of a member means -/

/-- The site is one of a method, a constructor or a field. -/
def IsMember (spec : SiteSpec) : Prop :=
  (∃ name, spec.kind = .instanceMethod name) ∨ (∃ cls name, spec.kind = .staticMethod cls name) ∨
    (∃ cls, spec.kind = .construct cls) ∨ ∃ name, spec.kind = .instanceField name

/-- The overload that a call chooses where nothing is remembered. -/
def chosen (w : World) (spec : SiteSpec) (args : List Value) : Except Error DynamicResolution :=
  match spec.kind with
  | .instanceMethod name => resolveInstance w spec name args
  | .staticMethod cls name => resolveStaticCall w.registry cls name args
  | .construct cls => resolveConstructor w cls args
  | _ => .error notInterop

/-- What a call does with an overload. -/
def useOf (spec : SiteSpec) (c : Candidate) : Target :=
  match spec.kind with
  | .instanceMethod _ => .overload c.1 c.2 true
  | .construct _ => .construct c.2
  | _ => .overload c.1 c.2 false

/-- The overloads a call chooses from. -/
def membersOf (r : Registry) (spec : SiteSpec) (args : List Value) : List Candidate :=
  match spec.kind with
  | .instanceMethod name => ((classAt args 0).map fun cls => r.findMethods cls name false).getD []
  | .staticMethod cls name => r.findMethods cls name true
  | .construct cls => ((r.find? cls).map constructorsOf).getD []
  | _ => []

/-- The arguments the choice depends on, behind a receiver. -/
def operandsOf (spec : SiteSpec) (args : List Value) : List Value :=
  match spec.kind with
  | .instanceMethod _ => args.drop 1
  | _ => args

/-- The receivers of two calls of a method have one class, and so have the arguments at the given positions. -/
def AlikeAt (spec : SiteSpec) (positions : List Bool) (first args : List Value) : Prop :=
  (∀ name, spec.kind = .instanceMethod name → classAt first 0 = classAt args 0) ∧
    ∀ i : Nat, positions[i]? = some true → classAt (operandsOf spec first) i = classAt (operandsOf spec args) i

section Members

variable {w w' : World} {spec : SiteSpec} {args first : List Value} {target : Target} {entry : Guard × Target}

theorem linkGuarded_member (h : IsMember spec) :
    (linker w spec args).linkGuarded () = linkMember w spec args := by
  rcases h with ⟨_, h⟩ | ⟨_, _, h⟩ | ⟨_, h⟩ | ⟨_, h⟩ <;> simp [linker, h]

theorem linkStatic_member (h : IsMember spec) :
    (linker w spec args).linkStatic () = .ok (linkStaticMethod w spec) := by
  rcases h with ⟨_, h⟩ | ⟨_, _, h⟩ | ⟨_, h⟩ | ⟨_, h⟩ <;> simp [linker, h]

/-- Linking looks at the classes and at nothing else in the world. -/
theorem linkMember_congr (h : w.registry = w'.registry) :
    linkMember w spec args = linkMember w' spec args := by
  simp only [linkMember, resolveMember, resolveInstance, resolveConstructor, fieldReceiver, h]

theorem resolveMember_congr (h : w.registry = w'.registry) :
    resolveMember w spec args = resolveMember w' spec args := by
  simp only [resolveMember, resolveInstance, resolveConstructor, h]

theorem chosen_congr (h : w.registry = w'.registry) : chosen w spec args = chosen w' spec args := by
  simp only [chosen, resolveInstance, resolveConstructor, h]

theorem linkStaticMethod_congr (h : w.registry = w'.registry) :
    linkStaticMethod w spec = linkStaticMethod w' spec := by
  simp only [linkStaticMethod, h]

/-- A guard holds when the receiver, if it is guarded, and the contended arguments have the classes they had
when the guard was made. -/
theorem holds_shapeGuard {receiver : Option String} {contended : List Bool} {skip : Nat} :
    holds w args (shapeGuard receiver contended first skip) = true ↔
      (receiver.isNone = true ∨ classAt args 0 = receiver) ∧
        ∀ i : Nat, contended[i]? = some true → classAt args (i + skip) = classAt first (i + skip) := by
  simp only [holds, shapeGuard, Bool.and_eq_true, Bool.or_eq_true, beq_iff_eq, List.all_eq_true,
    List.mem_map, List.mem_filter, Prod.exists, forall_exists_index, and_imp, Prod.forall]
  refine and_congr_right fun _ => ⟨fun h i hi => ?_, fun h => ?_⟩
  · exact h _ _ true i (List.mem_zipIdx_iff_getElem?.mpr hi) rfl rfl
  · intro j cls flag i hmem hflag heq
    cases heq
    cases hflag
    exact h i (List.mem_zipIdx_iff_getElem?.mp hmem)

theorem splitReceiver_ok {receiver : Value} {rest : List Value}
    (h : splitReceiver args = .ok (receiver, rest)) : args = receiver :: rest := by
  unfold splitReceiver at h
  split at h
  · cases h
    rfl
  · cases h

theorem receiverClass_ok {receiver : Value} {cls : String} (h : receiverClass spec receiver = .ok cls) :
    receiver.className? = some cls := by
  unfold receiverClass at h
  split at h
  · cases h
    assumption
  · cases h

theorem fieldReceiver_ok {name cls : String} (h : fieldReceiver w spec name args = .ok cls) :
    classAt args 0 = some cls := by
  obtain ⟨⟨receiver, rest⟩, hsplit, h⟩ := bind_ok h
  obtain ⟨cls', hreceiver, h⟩ := bind_ok h
  rw [splitReceiver_ok hsplit]
  split at h
  · split at h
    · cases h
    · cases h
      exact receiverClass_ok hreceiver
  · cases h

/-- Every guard holds for the call it is made for. -/
theorem holds_linkMember (h : linkMember w spec args = .ok (some entry)) :
    holds w args entry.1 = true := by
  unfold linkMember at h
  split at h
  · obtain ⟨cls, hcls, h⟩ := bind_ok h
    cases h
    exact holds_shapeGuard.mpr ⟨.inr (fieldReceiver_ok hcls), fun _ _ => rfl⟩
  · obtain ⟨⟨target, contended⟩, -, h⟩ := bind_ok h
    cases h
    exact holds_shapeGuard.mpr ⟨.inr rfl, fun _ _ => rfl⟩
  · obtain ⟨⟨target, contended⟩, -, h⟩ := bind_ok h
    cases h
    exact holds_shapeGuard.mpr ⟨.inl rfl, fun _ _ => rfl⟩

theorem resolveStaticCall_eq (r : Registry) {cls name : String} {args : List Value}
    {d : DynamicResolution} :
    resolveStaticCall r cls name args = .ok d ↔
      Overload.resolveDynamic r (r.findMethods cls name true) args (cls ++ "/" ++ name) = .ok d := by
  unfold resolveStaticCall
  split
  · rename_i hnone
    simp [hnone, Overload.resolveDynamic, Overload.fitting, Overload.byArity]
  · rename_i hsome
    rfl

theorem resolveInstanceCall_eq (r : Registry) {cls name : String} {args : List Value}
    {d : DynamicResolution} :
    resolveInstanceCall r cls name args = .ok d ↔
      Overload.resolveDynamic r (r.findMethods cls name false) args (cls ++ "." ++ name) = .ok d := by
  unfold resolveInstanceCall
  split
  · rename_i hnone
    simp [hnone, Overload.resolveDynamic, Overload.fitting, Overload.byArity]
  · rfl

theorem resolveInstance_cons {name cls : String} {receiver : Value} {rest : List Value}
    (h : receiver.className? = some cls) :
    resolveInstance w spec name (receiver :: rest) = resolveInstanceCall w.registry cls name rest := by
  simp only [resolveInstance, splitReceiver, receiverClass, bind, Except.bind, h]

theorem resolveInstance_ok {name : String} {d : DynamicResolution}
    (h : resolveInstance w spec name args = .ok d) :
    ∃ receiver rest cls, args = receiver :: rest ∧ receiver.className? = some cls ∧
      resolveInstanceCall w.registry cls name rest = .ok d := by
  obtain ⟨⟨receiver, rest⟩, hsplit, h⟩ := bind_ok h
  obtain ⟨cls, hcls, h⟩ := bind_ok h
  exact ⟨receiver, rest, cls, splitReceiver_ok hsplit, receiverClass_ok hcls, h⟩

theorem resolveConstructor_eq {cls : String} {d : DynamicResolution} :
    resolveConstructor w cls args = .ok d ↔
      ∃ c, w.registry.find? cls = some c ∧
        Overload.resolveDynamic w.registry (constructorsOf c) args ("new " ++ cls) = .ok d := by
  unfold resolveConstructor
  cases w.registry.find? cls with
  | none => simp
  | some c =>
    dsimp only
    split
    · rename_i hnone
      have hempty : constructorsOf c = [] := by
        rw [constructorsOf, List.isEmpty_iff.mp hnone]
        rfl
      simp [hempty, Overload.resolveDynamic, Overload.fitting, Overload.byArity]
    · simp

/-- Unless a field is read, a call means a use of the overload that it chooses. -/
theorem resolveMember_ok (hmember : IsMember spec) (hkind : ∀ name, spec.kind ≠ .instanceField name)
    {contended : List Bool} :
    resolveMember w spec args = .ok (target, contended) ↔
      ∃ d, chosen w spec args = .ok d ∧ useOf spec d.candidate = target ∧ d.contended = contended := by
  have hused (found : Except Error DynamicResolution) (use : Candidate → Target) :
      (found >>= fun d => pure (use d.candidate, d.contended)) = Except.ok (target, contended) ↔
        ∃ d, found = .ok d ∧ use d.candidate = target ∧ d.contended = contended := by
    cases found with
    | ok d => simp [bind, Except.bind, pure, Except.pure]
    | error e => simp [bind, Except.bind]
  rcases hmember with ⟨name, hspec⟩ | ⟨cls, name, hspec⟩ | ⟨cls, hspec⟩ | ⟨name, hspec⟩
  · simp only [resolveMember, useOf, chosen, hspec]
    exact hused _ fun c => .overload c.1 c.2 true
  · simp only [resolveMember, useOf, chosen, hspec]
    exact hused _ fun c => .overload c.1 c.2 false
  · simp only [resolveMember, useOf, chosen, hspec]
    exact hused _ fun c => .construct c.2
  · exact absurd hspec (hkind name)

/-- The classes at a position of two calls that are alike there. -/
theorem className?_of_classAt {i : Nat} {x y : Value} (h : classAt first i = classAt args i)
    (hx : first[i]? = some x) (hy : args[i]? = some y) : x.className? = y.className? := by
  simpa [classAt, hx, hy] using h

/-- Calls that are alike at the positions that decide, and fit equally well at the others, choose the same
overload. -/
theorem chosen_alike {d : DynamicResolution} (hlength : first.length = args.length)
    (hfit : FitAlike w.registry (membersOf w.registry spec first) (operandsOf spec first) (operandsOf spec args))
    (halike : AlikeAt spec d.contended first args) (h : chosen w spec first = .ok d) :
    chosen w spec args = .ok d := by
  obtain ⟨hreceiver, hclasses⟩ := halike
  unfold chosen at h ⊢
  split at h
  · rename_i name hkind
    replace hreceiver := hreceiver name hkind
    obtain ⟨receiver, rest, cls, rfl, hcls, hfound⟩ := resolveInstance_ok h
    have hclass : classAt (receiver :: rest) 0 = some cls := hcls
    rw [hclass] at hreceiver
    cases args with
    | nil => cases hreceiver
    | cons receiver' rest' =>
      simp only [membersOf, operandsOf, hkind, hclass, Option.map_some, Option.getD_some, List.drop_succ_cons,
        List.drop_zero] at hfit hclasses
      have hdynamic := Overload.resolveDynamic_alike (by simpa using hlength) hfit
        (fun i x y hi hx hy => className?_of_classAt (hclasses i hi) hx hy)
        ((resolveInstanceCall_eq _).mp hfound)
      rw [resolveInstance_cons hreceiver.symm, (resolveInstanceCall_eq _).mpr hdynamic]
  · rename_i cls name hkind
    simp only [membersOf, operandsOf, hkind] at hfit hclasses
    exact (resolveStaticCall_eq _).mpr (Overload.resolveDynamic_alike hlength hfit
      (fun i x y hi hx hy => className?_of_classAt (hclasses i hi) hx hy) ((resolveStaticCall_eq _).mp h))
  · rename_i cls hkind
    obtain ⟨c, hc, hfound⟩ := resolveConstructor_eq.mp h
    simp only [membersOf, operandsOf, hkind, hc, Option.map_some, Option.getD_some] at hfit hclasses
    exact resolveConstructor_eq.mpr ⟨c, hc, Overload.resolveDynamic_alike hlength hfit
      (fun i x y hi hx hy => className?_of_classAt (hclasses i hi) hx hy) hfound⟩
  · cases h

/-- A target that an earlier call chose, with the positions that decided; the guard takes calls for alike that are so
there. -/
theorem linkMember_ok (hmember : IsMember spec) (hkind : ∀ name, spec.kind ≠ .instanceField name)
    (hlink : linkMember w spec first = .ok (some entry)) :
    ∃ d, chosen w spec first = .ok d ∧ useOf spec d.candidate = entry.2 ∧
      (holds w args entry.1 = true → AlikeAt spec d.contended first args) := by
  unfold linkMember at hlink
  split at hlink
  · rename_i name hfield
    exact absurd hfield (hkind name)
  · rename_i name hspec
    obtain ⟨⟨target, contended⟩, hresolve, hlink⟩ := bind_ok hlink
    cases hlink
    obtain ⟨d, hd, rfl, rfl⟩ := (resolveMember_ok hmember hkind).mp hresolve
    refine ⟨d, hd, rfl, fun hholds => ?_⟩
    obtain ⟨hreceiver, hclasses⟩ := holds_shapeGuard.mp hholds
    have hreceived : classAt args 0 = classAt first 0 := by
      refine hreceiver.resolve_left fun hnone => ?_
      simp only [chosen, hspec] at hd
      obtain ⟨receiver, rest, cls, rfl, hcls, -⟩ := resolveInstance_ok hd
      have hclass : classAt (receiver :: rest) 0 = some cls := hcls
      simp [hclass] at hnone
    refine ⟨fun _ _ => hreceived.symm, fun i hi => ?_⟩
    simpa [operandsOf, hspec, classAt, Nat.add_comm] using (hclasses i hi).symm
  · rename_i hother
    obtain ⟨⟨target, contended⟩, hresolve, hlink⟩ := bind_ok hlink
    cases hlink
    obtain ⟨d, hd, rfl, rfl⟩ := (resolveMember_ok hmember hkind).mp hresolve
    refine ⟨d, hd, rfl, fun hholds => ⟨fun name hspec => absurd hspec (hother name), fun i hi => ?_⟩⟩
    have hoperands : ∀ values, operandsOf spec values = values := by
      intro values
      unfold operandsOf
      split
      · rename_i name hspec
        exact absurd hspec (hother name)
      · rfl
    rw [hoperands, hoperands]
    exact ((holds_shapeGuard.mp hholds).2 i hi).symm

/-- The method that types decide on is a use of the overload that they choose. -/
theorem linkStaticMethod_some (h : linkStaticMethod w spec = some target) :
    ∃ cls name c, spec.kind = .staticMethod cls name ∧ useOf spec c = target ∧
      Overload.resolveStatic w.registry (w.registry.findMethods cls name true) spec.argTypes = .unique c := by
  unfold linkStaticMethod at h
  split at h
  · rename_i cls name hkind
    split at h
    · rename_i owner m hunique
      cases h
      exact ⟨cls, name, (owner, m), hkind, by simp [useOf, hkind], hunique⟩
    · cases h
  · cases h

/-! ### Outcomes -/

/-- Both ways to carry out a call end alike: in the same way, or with errors of the same kind. -/
def EndAlike (a b : EStateM.Result Fault World Value) : Prop :=
  a = b ∨ ∃ kind message message' w,
    a = .error (.error (Error.of kind message)) w ∧ b = .error (.error (Error.of kind message')) w

/-- Only a member of a class is ever linked. -/
theorem runTarget_of_resolve {contended : List Bool} (call : Caller)
    (h : resolveMember w spec args = .ok (target, contended)) :
    runTarget call target args = runMember call target args := by
  unfold resolveMember at h
  split at h
  · obtain ⟨choice, -, h⟩ := bind_ok h
    cases h
    rfl
  · obtain ⟨choice, -, h⟩ := bind_ok h
    cases h
    rfl
  · obtain ⟨choice, -, h⟩ := bind_ok h
    cases h
    rfl
  · cases h
    rfl
  · cases h

theorem runGeneric_member (h : IsMember spec) (call : Caller) :
    runGeneric call spec args w
      = (Action.read (fun w => resolveMember w spec args) >>= fun t => runMember call t.1 args) w := by
  unfold runGeneric
  rcases h with ⟨_, h⟩ | ⟨_, _, h⟩ | ⟨_, h⟩ | ⟨_, h⟩ <;> simp only [h]

theorem runGeneric_of_resolve {contended : List Bool} (h : IsMember spec) (call : Caller)
    (hresolve : resolveMember w spec args = .ok (target, contended)) :
    runGeneric call spec args w = runTarget call target args w := by
  have hread : Action.read (fun w => resolveMember w spec args) w = .ok (target, contended) w :=
    Action.read_of_ok hresolve
  rw [runGeneric_member h, State.bind_of_ok hread, runTarget_of_resolve call hresolve]

theorem runGeneric_of_error {e : Error} (h : IsMember spec) (call : Caller)
    (hresolve : resolveMember w spec args = .error e) :
    runGeneric call spec args w = .error (.error e) w := by
  have hread : Action.read (fun w => resolveMember w spec args) w = .error (.error e) w :=
    Action.read_of_error hresolve
  rw [runGeneric_member h, State.bind_of_error hread]

/-- The class of an object has the field that the object has. -/
def FieldKnown (w : World) (spec : SiteSpec) (args : List Value) : Prop :=
  ∀ name o rest slot, spec.kind = .instanceField name → args = .object o :: rest →
    w.slotOf o name = .ok slot →
      ∃ c f, w.registry.findField? o.className name = some (c, f) ∧ f.isStatic = false

/-- Linking a method or a constructor fails as resolving it does. -/
theorem resolveMember_of_link_error {e : Error} (hkind : ∀ name, spec.kind ≠ .instanceField name)
    (hlink : linkMember w spec args = .error e) : resolveMember w spec args = .error e := by
  unfold linkMember at hlink
  split at hlink
  · rename_i name hfield
    exact absurd hfield (hkind name)
  all_goals
    cases hresolve : resolveMember w spec args with
    | ok found =>
      rw [hresolve] at hlink
      cases hlink
    | error e' =>
      rw [hresolve] at hlink
      cases hlink
      rfl

/-- Why a field of a receiver with a class cannot be linked. -/
theorem linkMember_field_error {e : Error} {name cls : String} {receiver : Value} {rest : List Value}
    (hkind : spec.kind = .instanceField name) (hcls : receiver.className? = some cls)
    (hlink : linkMember w spec (receiver :: rest) = .error e) :
    e = World.noField name cls ∧
      ∀ c f, w.registry.findField? cls name = some (c, f) → f.isStatic = true := by
  simp only [linkMember, hkind, fieldReceiver, splitReceiver, receiverClass, bind, Except.bind, hcls] at hlink
  cases hfind : w.registry.findField? cls name with
  | none =>
    simp only [hfind, Except.error.injEq] at hlink
    exact ⟨hlink.symm, fun c f h => nomatch h⟩
  | some found =>
    cases hstatic : found.2.isStatic with
    | true =>
      simp only [hfind, hstatic, if_true, Except.error.injEq] at hlink
      refine ⟨hlink.symm, fun c f h => ?_⟩
      cases h
      exact hstatic
    | false => simp [hfind, hstatic, pure, Except.pure] at hlink

/-- A field that cannot be linked cannot be read either. -/
theorem readField_of_link_error {e : Error} {name : String} (hkind : spec.kind = .instanceField name)
    (hknown : FieldKnown w spec args) (hlink : linkMember w spec args = .error e) (call : Caller) :
    EndAlike (.error (.error e) w) (runGeneric call spec args w) := by
  have hresolve : resolveMember w spec args = .ok (.readField name, []) := by
    simp only [resolveMember, hkind]
    rfl
  rw [runGeneric_of_resolve (.inr (.inr (.inr ⟨name, hkind⟩))) call hresolve,
    runTarget_of_resolve call hresolve]
  cases args with
  | nil =>
    simp only [linkMember, hkind] at hlink
    cases hlink
    exact .inl rfl
  | cons receiver rest =>
    change EndAlike _ (readField receiver name w)
    cases hcls : receiver.className? with
    | none =>
      cases receiver <;> simp only [Value.className?, reduceCtorEq] at hcls
      simp only [linkMember, hkind] at hlink
      cases hlink
      exact .inr ⟨.runtime, _, _, w, rfl, rfl⟩
    | some cls =>
      obtain ⟨rfl, hstatic⟩ := linkMember_field_error hkind hcls hlink
      cases receiver with
      | object o =>
        cases hcls
        cases hslot : w.slotOf o name with
        | ok slot =>
          obtain ⟨c, f, hfind, hinstance⟩ := hknown name o rest slot hkind rfl hslot
          simp [hstatic c f hfind] at hinstance
        | error e' =>
          have hread : readField (.object o) name w = .error (.error e') w := by
            refine Action.read_of_error ?_
            simp only [World.getField, hslot, bind, Except.bind]
          have hnone : e' = World.noField name o.className := by
            unfold World.slotOf at hslot
            split at hslot
            · cases hslot
            · cases hslot
              rfl
          rw [hread, hnone]
          exact .inl rfl
      | nil => cases hcls
      | _ => exact .inr ⟨.linkage, _, _, w, rfl, rfl⟩

end Members

/-! ### Sequences of calls -/

/-- One step in the life of a site: a call with arguments among the given ones asks it for a target, or
something else happens that changes neither the site nor the classes. -/
inductive SiteStep (index : Nat) (calls : List Value → Prop) (w : World) : World → Prop
  | call (args : List Value) (h : calls args) : SiteStep index calls w (linked index args w)
  | other {w' : World} (hregistry : w'.registry = w.registry)
      (hsite : w'.sites[index]? = w.sites[index]?) : SiteStep index calls w w'

/-- The calls through a site that it cannot mix up: all have as many arguments as the site, those that are alike at the
positions that decide choose the same overload, and where types decide on a static method, all choose that one. -/
structure Steady (w : World) (spec : SiteSpec) (calls : List Value → Prop) : Prop where
  length : ∀ args, calls args → args.length = spec.argTypes.length
  alike : ∀ first args d, calls first → calls args → chosen w spec first = .ok d →
    AlikeAt spec d.contended first args → ∃ d', chosen w spec args = .ok d' ∧ d'.candidate = d.candidate
  typed : ∀ cls name c, spec.kind = .staticMethod cls name →
    Overload.resolveStatic w.registry (w.registry.findMethods cls name true) spec.argTypes = .unique c →
      ∀ args, calls args → ∃ d, chosen w spec args = .ok d ∧ d.candidate = c

/-- A guarded target was made for one of the calls. -/
def MadeFor (r : Registry) (spec : SiteSpec) (calls : List Value → Prop) (e : Guard × Target) : Prop :=
  ∃ first w, calls first ∧ w.registry = r ∧ linkMember w spec first = .ok (some e)

/-- A target without a guard decides every call anew, or is the one the types decide on. -/
def Unguarded (r : Registry) (spec : SiteSpec) (target : Target) : Prop :=
  target = .generic spec ∨ ∃ w, w.registry = r ∧ linkStaticMethod w spec = some target

section Calls

variable {w w' : World} {index : Nat} {spec : SiteSpec} {calls : List Value → Prop}
  {s site : Site Guard Target} {args : List Value}

theorem remembers_member {result : Except Error Unit} (hmember : IsMember spec) (hargs : calls args)
    (h : s.Remembers (MadeFor w.registry spec calls) (Unguarded w.registry spec))
    (hrelink : Site.Relinked (linker w spec args) s site result) :
    site.Remembers (MadeFor w.registry spec calls) (Unguarded w.registry spec) := by
  refine h.relinked hrelink ?_ ?_ (.inl rfl)
  · intro target _ _ hstatic
    rw [linkStatic_member hmember, Except.ok.injEq] at hstatic
    exact .inr ⟨w, rfl, hstatic⟩
  · intro e he
    exact ⟨args, w, hargs, rfl, (linkGuarded_member hmember).symm.trans he⟩

theorem linked_member (hmember : IsMember spec) (hsite : w.sites[index]? = some { spec, site := s })
    (args : List Value) :
    ∃ site, (linked index args w).sites[index]? = some { spec, site } ∧
      Asked w index args { spec, site := s } site :=
  linked_asked hsite fun _ he => holds_linkMember ((linkGuarded_member hmember).symm.trans he)

theorem Steady.congr (h : Steady w spec calls) (hregistry : w.registry = w'.registry) : Steady w' spec calls := by
  refine ⟨h.length, fun first args d hfirst hargs hd halike => ?_, fun cls name c hkind hunique args hargs => ?_⟩
  · rw [← chosen_congr hregistry] at hd ⊢
    exact h.alike first args d hfirst hargs hd halike
  · rw [← hregistry] at hunique
    rw [← chosen_congr hregistry]
    exact h.typed cls name c hkind hunique args hargs

/-- Through any sequence of calls a site remembers only targets made for these calls. -/
theorem remembers_calls (hmember : IsMember spec) (hcold : w.sites[index]? = some { spec })
    (hcalls : ReflTransGen (SiteStep index calls) w w') :
    w'.registry = w.registry ∧ ∃ s, w'.sites[index]? = some { spec, site := s } ∧
      s.Remembers (MadeFor w.registry spec calls) (Unguarded w.registry spec) := by
  induction hcalls with
  | refl => exact ⟨rfl, {}, hcold, Site.remembers_cold⟩
  | tail _ hstep ih =>
    obtain ⟨hregistry, s, hsite, hremembers⟩ := ih
    cases hstep with
    | other hsame hkept => exact ⟨hsame.trans hregistry, s, hkept.trans hsite, hremembers⟩
    | call args hargs =>
      obtain ⟨site, hsite', hasked⟩ := linked_member hmember hsite args
      refine ⟨(onward_linked index args _).registry.trans hregistry, site, hsite', ?_⟩
      cases hasked with
      | found => exact hremembers
      | relinked target hrelink =>
        rw [← hregistry] at hremembers ⊢
        exact remembers_member hmember hargs hremembers hrelink
      | failed e hrelink =>
        rw [← hregistry] at hremembers ⊢
        exact remembers_member hmember hargs hremembers hrelink

/-- A use of the overload that a call chooses is what the call means. -/
theorem resolveMember_of_chosen {d : DynamicResolution} (hmember : IsMember spec)
    (hkind : ∀ name, spec.kind ≠ .instanceField name) (h : chosen w spec args = .ok d) :
    resolveMember w spec args = .ok (useOf spec d.candidate, d.contended) :=
  (resolveMember_ok hmember hkind).mpr ⟨d, h, rfl, rfl⟩

/-- A remembered target is the one the call means. -/
theorem resolveMember_of_target {target : Target} (hmember : IsMember spec) (hsteady : Steady w spec calls)
    (hargs : calls args) (hspecific : target ≠ .generic spec)
    (h : Unguarded w.registry spec target ∨
      ∃ g, MadeFor w.registry spec calls (g, target) ∧ holds w args g = true) :
    ∃ contended, resolveMember w spec args = .ok (target, contended) := by
  rcases h with (hgeneric | ⟨w', hregistry, hstatic⟩) | ⟨g, ⟨first, w', hfirst, hregistry, hlink⟩, hholds⟩
  · exact absurd hgeneric hspecific
  · rw [linkStaticMethod_congr hregistry] at hstatic
    obtain ⟨cls, name, c, hkind, rfl, hunique⟩ := linkStaticMethod_some hstatic
    obtain ⟨d, hd, rfl⟩ := hsteady.typed cls name c hkind hunique args hargs
    exact ⟨d.contended, resolveMember_of_chosen hmember (by simp [hkind]) hd⟩
  · rw [linkMember_congr hregistry] at hlink
    by_cases hfield : ∃ name, spec.kind = .instanceField name
    · obtain ⟨name, hkind⟩ := hfield
      simp only [linkMember, hkind] at hlink
      obtain ⟨cls, -, hlink⟩ := bind_ok hlink
      cases hlink
      exact ⟨[], by simp only [resolveMember, hkind]; rfl⟩
    · have hkind : ∀ name, spec.kind ≠ .instanceField name := fun name hkind => hfield ⟨name, hkind⟩
      obtain ⟨d, hd, rfl, halike⟩ := linkMember_ok hmember hkind hlink
      obtain ⟨d', hd', hsame⟩ := hsteady.alike first args d hfirst hargs hd (halike hholds)
      exact ⟨d'.contended, hsame ▸ resolveMember_of_chosen hmember hkind hd'⟩

/-- Remembering is transparent.  Whatever the thresholds and whatever earlier calls left at the site, a call
through a site of a member ends as it does when its meaning is decided anew: on the same member with the
same arguments, or with an error of the same kind. -/
theorem memberSite_transparent {w₀ : World} (hmember : IsMember spec)
    (hcold : w₀.sites[index]? = some { spec }) (hsteady : Steady w₀ spec calls)
    (hcalls : ReflTransGen (SiteStep index calls) w₀ w) (hargs : calls args)
    (hknown : FieldKnown w spec args) (call : Caller) :
    EndAlike (invokeSite call index args w) (runGeneric call spec args (linked index args w)) := by
  obtain ⟨hregistry, s, hsite, hremembers⟩ := remembers_calls hmember hcold hcalls
  replace hsteady := hsteady.congr hregistry.symm
  rw [← hregistry] at hremembers
  have hlinked : (linked index args w).registry = w.registry := (onward_linked index args w).registry
  obtain ⟨site, -, hasked⟩ := linked_member hmember hsite args
  have hok : ∀ target, targetOf index args w = .ok (spec, target) (linked index args w) →
      (Unguarded w.registry spec target ∨
        ∃ g, MadeFor w.registry spec calls (g, target) ∧ holds w args g = true) →
      EndAlike (invokeSite call index args w) (runGeneric call spec args (linked index args w)) := by
    intro target hresult htarget
    rw [invokeSite_of_target hresult]
    by_cases hgeneric : target = .generic spec
    · rw [hgeneric]
      exact .inl rfl
    · obtain ⟨contended, hresolve⟩ := resolveMember_of_target hmember hsteady hargs hgeneric htarget
      rw [resolveMember_congr hlinked.symm] at hresolve
      exact .inl (runGeneric_of_resolve hmember call hresolve).symm
  cases hasked with
  | found target hselect hresult => exact hok target hresult (hremembers.select hselect)
  | relinked target hrelink hselect hresult =>
    exact hok target hresult ((remembers_member hmember hargs hremembers hrelink).select hselect)
  | failed e hrelink hresult =>
    rw [invokeSite_of_error hresult]
    have hlink : linkMember (linked index args w) spec args = .error e := by
      rw [linkMember_congr hlinked]
      cases hrelink with
      | failed hlink =>
        rcases hlink with ⟨-, hlink⟩ | hlink
        · rw [linkStatic_member hmember] at hlink
          cases hlink
        · exact (linkGuarded_member hmember).symm.trans hlink
    by_cases hfield : ∃ name, spec.kind = .instanceField name
    · obtain ⟨name, hkind⟩ := hfield
      refine readField_of_link_error hkind ?_ hlink call
      rw [linked_eq]
      exact hknown
    · have hresolve := resolveMember_of_link_error (fun name hkind => hfield ⟨name, hkind⟩) hlink
      exact .inl (runGeneric_of_error hmember call hresolve).symm

end Calls

/-! ### Calls of `substring` -/

section Substring

/-- The built-in classes, and a site that calls `substring` with one argument of unknown type. -/
def substringWorld : World where
  registry := Host.registry
  sites := #[{ spec := SiteSpec.new (.instanceMethod "substring") [.string, .any] .any }]

/-- Behind a call with one integer, a call with another ends as it should. -/
theorem substring_again :
    let spec := SiteSpec.new (.instanceMethod "substring") [.string, .any] .any
    let w := linked 0 [.str "abc", .int 1] substringWorld
    let args : List Value := [.str "abc", .int 2]
    EndAlike (invokeSite (call 1) 0 args w) (runGeneric (call 1) spec args (linked 0 args w)) := by
  intro spec w args
  let calls : List Value → Prop := fun args => ∃ n, args = [.str "abc", .int n]
  have hsteady : Steady substringWorld spec calls := by
    refine ⟨?_, ?_, ?_⟩
    · rintro _ ⟨n, rfl⟩
      rfl
    · rintro _ _ d ⟨n, rfl⟩ ⟨m, rfl⟩ hd halike
      refine ⟨d, chosen_alike ?_ (fun i x y _ hx hy c _ => ?_) halike hd, rfl⟩
      · rfl
      have hints : x = .int n ∧ y = .int m := by
        cases i with
        | zero => exact ⟨by cases hx; rfl, by cases hy; rfl⟩
        | succ i => cases hx
      exact Overload.runtimeFit?_congr (by rw [hints.1, hints.2]; rfl) _
    · intro cls name c hkind
      cases hkind
  refine memberSite_transparent (.inl ⟨"substring", rfl⟩) rfl hsteady
    (.single (.call [.str "abc", .int 1] ⟨1, rfl⟩)) ⟨2, rfl⟩ ?_ (call 1)
  intro name o rest slot hkind
  cases hkind

end Substring

/-! ### Calls that a site mixes up -/

section Mixed

/-- A class with two overloads for a number and two for a double and a number; those that take anything in the place of
a number give `nil`. -/
def overloaded : ClassInfo :=
  Host.named "T"
  |> Host.static "m" [.any] .any .nothing
  |> Host.static "m" [.cls Names.number] .any .absLong
  |> Host.static "n" [.double, .any] .any .nothing
  |> Host.static "n" [.double, .cls Names.number] .any .absDouble

/-- Sites for `substring`, both pairs of overloads and a field, and an object that was made when its class still had
the field. -/
def mixedWorld : World where
  registry := (Host.registry.register overloaded).toOption.elim {} Prod.snd
  objects := #[{ cls := { overloaded with layout := ["x"] }, fields := #[.int 1] }]
  sites := #[
    { spec := SiteSpec.new (.instanceMethod "substring") [.string, .any] .any },
    { spec := SiteSpec.new (.staticMethod "T" "n") [.any, .any] .any },
    { spec := SiteSpec.new (.staticMethod "T" "m") [.cls Names.number] .any },
    { spec := SiteSpec.new (.instanceField "x") [.any] .any }]

/-- The kind of a failure, or whether a value is `nil`. -/
def summary? : EStateM.Result Fault World Value → Option (ErrorKind ⊕ Bool)
  | .ok v _ => some (.inr (v == .nil))
  | .error (.error { cause := .failure kind _, .. }) _ => some (.inl kind)
  | _ => none

theorem EndAlike.summary? {a b : EStateM.Result Fault World Value} (h : EndAlike a b) :
    Machine.summary? a = Machine.summary? b := by
  obtain rfl | ⟨kind, message, message', w, rfl, rfl⟩ := h
  · rfl
  · rfl

/-- A call through a site, behind an earlier one. -/
def againAt [Libraries] (index : Nat) (first args : List Value) : EStateM.Result Fault World Value :=
  invokeSite (call 1) index args (linked index first mixedWorld)

/-- The same call, decided anew. -/
def anewAt [Libraries] (index : Nat) (first args : List Value) : EStateM.Result Fault World Value :=
  runGeneric (call 1) ((mixedWorld.sites[index]?).map CallSite.LinkedSite.spec |>.getD default) args
    (linked index args (linked index first mixedWorld))

/-- Once `substring` was called with an integer, a text in its place is passed on to the method, which complains,
whereas deciding the call anew finds that no method fits.  Once a double and an integer were passed, two integers are
passed to the overload that takes anything, although they fit both overloads equally well, and the other is more
specific.  The type of a number decides on the overload for numbers, and an integer fits the one for anything better.
A field of an object is read although it cannot be linked when its class has lost it. -/
theorem remembered_members_differ :
    ¬ EndAlike (againAt 0 [.str "abc", .int 1] [.str "abc", .str "x"])
      (anewAt 0 [.str "abc", .int 1] [.str "abc", .str "x"]) ∧
    ¬ EndAlike (againAt 1 [.float ⟨0x3FF0000000000000⟩, .int 1] [.int 1, .int 1])
      (anewAt 1 [.float ⟨0x3FF0000000000000⟩, .int 1] [.int 1, .int 1]) ∧
    ¬ EndAlike (againAt 2 [.int 1] [.int 1]) (anewAt 2 [.int 1] [.int 1]) ∧
    ¬ EndAlike (againAt 3 [.object ⟨0, "T"⟩] [.object ⟨0, "T"⟩]) (anewAt 3 [.object ⟨0, "T"⟩] [.object ⟨0, "T"⟩]) := by
  obtain ⟨hunfit, hworse, hnumber, hlost⟩ :
      summary? (againAt 0 [.str "abc", .int 1] [.str "abc", .str "x"]) ≠
          summary? (anewAt 0 [.str "abc", .int 1] [.str "abc", .str "x"]) ∧
        summary? (againAt 1 [.float ⟨0x3FF0000000000000⟩, .int 1] [.int 1, .int 1]) ≠
            summary? (anewAt 1 [.float ⟨0x3FF0000000000000⟩, .int 1] [.int 1, .int 1]) ∧
          summary? (againAt 2 [.int 1] [.int 1]) ≠ summary? (anewAt 2 [.int 1] [.int 1]) ∧
            summary? (againAt 3 [.object ⟨0, "T"⟩] [.object ⟨0, "T"⟩]) ≠
              summary? (anewAt 3 [.object ⟨0, "T"⟩] [.object ⟨0, "T"⟩]) := by
    decide +kernel
  exact ⟨fun h => hunfit h.summary?, fun h => hworse h.summary?, fun h => hnumber h.summary?,
    fun h => hlost h.summary?⟩

end Mixed

end Machine

end LispMachine
