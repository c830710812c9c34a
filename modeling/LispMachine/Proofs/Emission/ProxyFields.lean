import LispMachine.Proofs.Agreement.Proxies
import LispMachine.Proofs.Emission.Instances
import LispMachine.Proofs.Machine.Conversions

/-! # The fields of a proxy

The class of a proxy has a field for each local that it captures, below those it inherits, and fields are found by name.
So a new proxy has in its fields what the constructor of the superclass has left there, except where a capture is named
like one of them (`proxy_fields`): an exception then loses its message to the local (`proxy_capture_overwrites`). -/

namespace LispMachine.Emission

open Form Machine

/-! ### Making a proxy -/

section Proxies

variable {h : Handlers} {d : Datum} {s t : FormState} {file : ClassFile} {m : Method} {captures : List Capture}
  {cls : ClassInfo} {w w' : World}

/-- A class that is built is a class that is finished. -/
theorem buildClass_finished {start : ClassFile} {mode : ClassMode} {methods : List (Registry → MethodPlan)}
    {plan : ConstructorPlan} (hrun : buildClass h start mode methods plan s = .ok (file, captures) t) :
    ∃ c, finishedFile c plan = .ok file ∧ c.captures = captures := by
  obtain ⟨⟨⟨⟩, c⟩, s₁, h₁, hrun⟩ := State.ok_of_bind hrun
  obtain ⟨finished, s₂, h₂, hrun⟩ := State.ok_of_bind hrun
  obtain ⟨hfinished, rfl⟩ := ofExcept_ok h₂
  cases hrun
  exact ⟨c, hfinished, rfl⟩

theorem buildProxy_finished (hrun : buildProxy h d s = .ok (file, m, captures) t) :
    ∃ c, finishedFile c (.viaSuper m.params) = .ok file ∧ c.captures = captures := by
  obtain ⟨parts, s₁, -, hrun⟩ := State.ok_of_bind hrun
  obtain ⟨w, s₂, -, hrun⟩ := State.ok_of_bind hrun
  obtain ⟨parents, s₃, -, hrun⟩ := State.ok_of_bind hrun
  obtain ⟨init, s₄, -, hrun⟩ := State.ok_of_bind hrun
  obtain ⟨methods, s₅, -, hrun⟩ := State.ok_of_bind hrun
  obtain ⟨className, s₇, -, hrun⟩ := State.ok_of_bind hrun
  obtain ⟨start, s₈, -, hrun⟩ := State.ok_of_bind hrun
  obtain ⟨⟨built, captured⟩, s₉, hbuilt, hrun⟩ := State.ok_of_bind hrun
  cases hrun
  exact buildClass_finished hbuilt

/-- Loading a class from an image that reads back registers what is in it. -/
theorem loadClass_ok [Libraries] (hread : ClassFile.ofBytes file.toBytes = .ok file)
    (hload : loadClass file s = .ok cls t) :
    Registered file cls s.world t.world := by
  obtain ⟨loaded, hloaded, hregistered⟩ := loadClass_loads hload
  cases hread.symm.trans hloaded
  exact hregistered

/-- What a new proxy has in its fields is what the constructor of the superclass has left there, except that the fields
named like its captures hold the captured values, whatever else is kept under those names. -/
theorem proxy_fields [Libraries] {args : List Value} {v : Value} {fuel : Nat}
    (hbuild : buildProxy h d s = .ok (file, m, captures) t) (hread : ClassFile.ofBytes file.toBytes = .ok file)
    (hother : ∀ k ∈ file.methods.dropLast, k.name = Names.constructor → k.params ≠ m.params ++ captures.map Capture.ty)
    {t' : FormState} (hload : loadClass file t = .ok cls t') (hfind : w.registry.find? cls.name = some cls)
    (hnew : newInstance (call fuel) cls.name (m.params ++ captures.map Capture.ty) args w = .ok v w') :
    ∃ o w₁ fuel', v = .object o ∧
      Machine.superConstructor (call fuel') file.superclass m.params (.object o)
        (passedValues args.toArray 0 m.params.zipIdx) (w.allocate cls).2 = .ok () w₁ ∧
      (∀ field, (∀ r ∈ captures, r.field ≠ field) → w'.getField o field = w₁.getField o field) ∧
      ∀ (i : Nat) (r : Capture), captures[i]? = some r →
        (∀ (j : Nat) (r' : Capture), i < j → captures[j]? = some r' → r'.field ≠ r.field) →
        w'.getField o r.field = .ok (held r.ty ((args[m.params.length + i]?).getD .nil)) := by
  obtain ⟨c, hfile, rfl⟩ := buildProxy_finished hbuild
  obtain ⟨_, k, _, hfound, hconcrete, -, -, hcall⟩ := newInstance_ok hnew
  cases hfind.symm.trans hfound
  cases fuel with
  | zero => cases hcall
  | succ fuel =>
    have hregistered := loadClass_ok hread hload
    have htypes : (storedFields c (.viaSuper m.params)).map Prod.snd = c.captures.map Capture.ty := List.map_map ..
    have hplan : ConstructorPlan.viaSuper m.params ≠ .none := by simp
    have hmade : Constructible cls c.file.superclass m.params (storedFields c (.viaSuper m.params)) := by
      obtain ⟨d', hd, -⟩ := exists_finishedFile c hplan
      obtain ⟨serial, layout, hcls⟩ := hregistered.info
      cases hd.symm.trans hfile
      refine constructible_of_finished hplan hfile ?_ ?_ hregistered
      · rw [hcls] at hconcrete
        exact hconcrete
      · rw [htypes]
        rwa [List.dropLast_concat] at hother
    rw [← htypes] at hnew
    obtain ⟨rfl, w₁, hsuper, hstore⟩ := (hmade.makes hfind fuel args).1 v w' hnew
    have hobject : w₁.Made (w.allocate cls).1 cls := by
      have hcourse := runs_superConstructor (call_course fuel) c.file.superclass m.params (.object (w.allocate cls).1)
        (passedValues args.toArray 0 m.params.zipIdx) (w.allocate cls).2
      rw [hsuper] at hcourse
      exact (World.made_allocate w cls).course hcourse
    obtain ⟨hkept, hgiven⟩ := storeCaptures_ok hobject hstore
    refine ⟨_, w₁, fuel, rfl, ?_, hkept, hgiven⟩
    rwa [(finishedFile_ok hfile).2.1]

/-! ### Proxies of exceptions -/

/-- The form `(proxy [lang.Exception] ["boom"] (hashCode [] name))`. -/
def throwableProxy (name : String) : Datum :=
  .ofList
    [.symbol "proxy" default, .ofVector [.symbol Names.exception default] default,
      .ofVector [.ofAtom (.str "boom") default] default,
      .ofList [.symbol "hashCode" default, .ofVector [] default, .symbol name default] default]
    default

/-- A method at work that has a local of unknown type in its first slot. -/
def methodWith (name : String) : FormState :=
  { Agreement.hostMethod with
    scopes := ⟨[{ kind := .methodLet, level := 1, bindings := [.inSlot name .any 0] }]⟩ }

/-- The value is the text. -/
def isText (text : String) : Value → Bool
  | .str s => s == text
  | _ => false

/-- The value is the number. -/
def isLong (n : Int64) : Value → Bool
  | .int m => m == n
  | _ => false

theorem eq_of_isText {text : String} {v : Value} (h : isText text v = true) : v = .str text := by
  unfold isText at h
  split at h
  · rw [beq_iff_eq.1 h]
  · cases h

theorem eq_of_isLong {n : Int64} {v : Value} (h : isLong n v = true) : v = .int n := by
  unfold isLong at h
  split at h
  · rw [beq_iff_eq.1 h]
  · cases h

/-- The field of the object holds a value that passes a test. -/
def fieldHolds (w : World) (o : ObjectRef) (field : String) (test : Value → Bool) : Bool :=
  match w.getField o field with
  | .ok v => test v
  | .error _ => false

theorem exists_of_fieldHolds {o : ObjectRef} {field : String} {test : Value → Bool}
    (h : fieldHolds w o field test = true) : ∃ v, w.getField o field = .ok v ∧ test v = true := by
  unfold fieldHolds at h
  split at h
  · exact ⟨_, ‹_›, h⟩
  · cases h

/-- The one capture of such a proxy. -/
def onlyCapture (name : String) : List Capture := [⟨name, name, .any⟩]

/-- The arguments of such a proxy. -/
def throwableArgs : List Value := [.str "boom", .int 5]

/-- Makes an instance of a class as it is, with no image in between, and tells whether all went well, and a test holds
of the object, of the world that the constructor of the superclass left, and of the one in the end. -/
def madeUnread [Libraries] (name : String) (parts : ClassFile × Method × List Capture) (s : FormState)
    (test : ObjectRef → World → World → Bool) : Bool :=
  Agreement.isLoadable parts.1 && parts.1.methods.dropLast.all (fun k => k.name != Names.constructor) &&
    (parts.2.1.params == [.string] && parts.2.2 == onlyCapture name) &&
    (State.answer? (Agreement.loadUnread parts.1 s)).any fun (cls, t) =>
      (State.answer? (newInstance (call 12) cls.name [.string, .any] throwableArgs t.world)).any fun (_, w') =>
        (State.answer? (Machine.superConstructor (call 11) parts.1.superclass [.string]
          (.object (t.world.allocate cls).1) [.str "boom"] (t.world.allocate cls).2)).any
            fun (_, w₁) => test (t.world.allocate cls).1 w₁ w'

/-- A proxy that was made, computed: digests of images take too long to evaluate. -/
theorem exists_made [Libraries] (name : String) (test : ObjectRef → World → World → Bool)
    (hq : (State.answer? (buildProxy h d s)).any (fun r => madeUnread name r.1 r.2 test) = true) :
    ∃ file m t cls t' v w' w₁, buildProxy h d s = .ok (file, m, onlyCapture name) t ∧ m.params = [.string] ∧
      ClassFile.ofBytes file.toBytes = .ok file ∧ (∀ k ∈ file.methods.dropLast, k.name ≠ Names.constructor) ∧
      loadClass file t = .ok cls t' ∧ newInstance (call 12) cls.name [.string, .any] throwableArgs t'.world = .ok v w' ∧
      Machine.superConstructor (call 11) file.superclass [.string] (.object (t'.world.allocate cls).1) [.str "boom"]
        (t'.world.allocate cls).2 = .ok () w₁ ∧
      test (t'.world.allocate cls).1 w₁ w' = true := by
  obtain ⟨⟨file, m, captures⟩, t, hbuild, hq⟩ := State.exists_answer hq
  simp only [madeUnread, Bool.and_eq_true, List.all_eq_true, bne_iff_ne, beq_iff_eq] at hq
  obtain ⟨⟨⟨hloadable, hother⟩, hparams, rfl⟩, hq⟩ := hq
  obtain ⟨cls, t', hload, hq⟩ := State.exists_answer hq
  obtain ⟨v, w', hnew, hq⟩ := State.exists_answer hq
  obtain ⟨⟨⟩, w₁, hsuper, htest⟩ := State.exists_answer hq
  rw [← Agreement.loadClass_eq hloadable] at hload
  simp only [Agreement.isLoadable, Bool.and_eq_true, List.isEmpty_iff, decide_eq_true_eq] at hloadable
  obtain ⟨⟨hfits, hdoubles⟩, hdepth⟩ := hloadable
  have hread : ClassFile.ofBytes file.toBytes = .ok file :=
    ClassFile.ofBytes_image _ (ClassFile.ofBody?_bodyText hfits (by simp [hdoubles]) hdepth)
  exact ⟨file, m, t, cls, t', v, w', w₁, hbuild, hparams, hread, hother, hload, hnew, hsuper, htest⟩

/-- A proxy of an exception that captures `x` has what the constructor of exceptions left in `message`, and `5` in
`x`. -/
theorem proxy_fields_apart :
    ∃ file m t cls t' o w₁ w' fuel,
      buildProxy (handlers 3) (throwableProxy "x") (methodWith "x") = .ok (file, m, onlyCapture "x") t ∧
      loadClass file t = .ok cls t' ∧
      newInstance (call 12) cls.name [.string, .any] throwableArgs t'.world = .ok (.object o) w' ∧
      Machine.superConstructor (call fuel) file.superclass [.string] (.object o) [.str "boom"] (t'.world.allocate cls).2
        = .ok () w₁ ∧
      w'.getField o "message" = w₁.getField o "message" ∧ w'.getField o "x" = .ok (.int 5) := by
  obtain ⟨file, m, t, cls, t', v, w', -, hbuild, hparams, hread, hother, hload, hnew, -, -⟩ :=
    exists_made (h := handlers 3) (d := throwableProxy "x") (s := methodWith "x") "x" (fun _ _ _ => true)
      (by decide +kernel)
  have hconstructor : newInstance (call 12) cls.name (m.params ++ (onlyCapture "x").map Capture.ty) throwableArgs
      t'.world = .ok v w' := by
    rw [hparams]
    exact hnew
  obtain ⟨o, w₁, fuel, rfl, hsuper, hkept, hgiven⟩ :=
    proxy_fields hbuild hread (fun k hk hname => absurd hname (hother k hk)) hload (loadClass_ok hread hload).find_self
      hconstructor
  have hlater : ∀ (j : Nat) (r : Capture), 0 < j → (onlyCapture "x")[j]? = some r → r.field ≠ "x" := by
    intro j r hj hr
    cases j with
    | zero => cases hj
    | succ j => cases hr
  rw [hparams] at hsuper hgiven
  exact ⟨file, m, t, cls, t', o, w₁, w', fuel, hbuild, hload, hnew, hsuper,
    hkept "message" (by simp [onlyCapture]), hgiven 0 ⟨"x", "x", .any⟩ rfl hlater⟩

/-- A proxy of an exception that captures a local called `message` has the captured value where the constructor of
exceptions left the text `boom`, and that is what exceptions give as their message. -/
theorem proxy_capture_overwrites :
    ∃ file m t cls t' o w₁ w',
      buildProxy (handlers 3) (throwableProxy "message") (methodWith "message")
        = .ok (file, m, onlyCapture "message") t ∧
      loadClass file t = .ok cls t' ∧
      newInstance (call 12) cls.name [.string, .any] throwableArgs t'.world = .ok (.object o) w' ∧
      Machine.superConstructor (call 11) file.superclass [.string] (.object o) [.str "boom"] (t'.world.allocate cls).2
        = .ok () w₁ ∧
      w₁.getField o "message" = .ok (.str "boom") ∧
      runHostMethod .message (some (.object o)) [] w' = .ok (.int 5) w' := by
  obtain ⟨file, m, t, cls, t', v, w', w₁, hbuild, -, hread, -, hload, hnew, hsuper, htest⟩ :=
    exists_made (h := handlers 3) (d := throwableProxy "message") (s := methodWith "message") "message"
      (fun o w₁ w' => fieldHolds w₁ o "message" (isText "boom") && fieldHolds w' o "message" (isLong 5))
      (by decide +kernel)
  obtain ⟨_, _, _, hfound, -, -, rfl, -⟩ := newInstance_ok hnew
  cases (loadClass_ok hread hload).find_self.symm.trans hfound
  rw [Bool.and_eq_true] at htest
  obtain ⟨v₁, hstored, hv₁⟩ := exists_of_fieldHolds htest.1
  obtain ⟨v', hread', hv'⟩ := exists_of_fieldHolds htest.2
  rw [eq_of_isText hv₁] at hstored
  rw [eq_of_isLong hv'] at hread'
  exact ⟨file, m, t, cls, t', _, w₁, w', hbuild, hload, hnew, hsuper, hstored, Action.read_of_ok hread'⟩

end Proxies

end LispMachine.Emission
