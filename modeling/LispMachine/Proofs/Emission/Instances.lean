import LispMachine.Proofs.Emission.Constructors
import LispMachine.Proofs.Registry.FieldLookup

/-! # Instances of emitted classes

The constructor of an emitted class is finished whatever it stores (`exists_finishedFile`).  Once the class is
registered, unless it is abstract or declares another constructor with the same parameters, making an instance makes an
object, has a constructor of the superclass work on it, and stores the rest of the arguments (`Constructible.makes`). -/

namespace LispMachine.Emission

open Form Machine

/-! ### Finished constructors -/

section Finish

variable {code : List Instruction} {tys tys' : List Ty} {i : Instruction}

/-- The records of values that are not known at compile time. -/
def unknownRecords (tys : List Ty) : List StackRecord := tys.map fun ty => .typed ty false

/-- Values of some types can be followed through code, and leave values of some other types. -/
def TypesThrough (code : List Instruction) (tys tys' : List Ty) : Prop :=
  ∀ m, ∃ m', straightLineStack ⟨unknownRecords tys, m⟩ code = .ok ⟨unknownRecords tys', m'⟩

theorem TypesThrough.nil (tys : List Ty) : TypesThrough [] tys tys := fun m => ⟨m, rfl⟩

theorem popAll_unknown {tops expected : List Ty} (hwidths : tops.map Ty.width = expected.map Ty.width) (m : Nat) :
    (⟨unknownRecords (tops ++ tys), m⟩ : TypeStack).popAll expected = (.ok (), ⟨unknownRecords tys, m⟩) := by
  induction expected generalizing tops with
  | nil =>
    rw [List.map_nil, List.map_eq_nil_iff] at hwidths
    rw [hwidths]
    rfl
  | cons ty expected ih =>
    cases tops with
    | nil => cases hwidths
    | cons top tops =>
      obtain ⟨hwidth, hwidths⟩ := List.cons_eq_cons.1 hwidths
      have hsame : ¬(StackRecord.typed top false).width ≠ ty.width := not_not_intro hwidth
      rw [← ih hwidths]
      exact if_neg hsame

/-- An instruction takes values as wide as its operands, and leaves its result. -/
theorem TypesThrough.cons (pops tops : List Ty) (result : Option Ty) (heffect : i.effect [] = .ok (.ops pops result))
    (hwidths : tops.map Ty.width = pops.reverse.map Ty.width) (h : TypesThrough code (result.toList ++ tys) tys') :
    TypesThrough (i :: code) (tops ++ tys) tys' := by
  intro m
  have hlive : (⟨unknownRecords (tops ++ tys), m⟩ : TypeStack).isUnreachable = false := by
    simp [TypeStack.isUnreachable, unknownRecords]
  cases result with
  | none =>
    obtain ⟨m', hm'⟩ := h m
    refine ⟨m', ?_⟩
    rw [straightLineStack, heffect]
    simp only [bind, Except.bind, TypeStack.apply, hlive, popAll_unknown hwidths, Bool.false_eq_true, if_false]
    exact hm'
  | some ty =>
    obtain ⟨m', hm'⟩ := h (Nat.max m (TypeStack.slots (unknownRecords (ty :: tys))))
    refine ⟨m', ?_⟩
    rw [straightLineStack, heffect]
    simp only [bind, Except.bind, TypeStack.apply, hlive, popAll_unknown hwidths, Bool.false_eq_true, if_false]
    exact hm'

theorem TypesThrough.load (slot : Nat) (ty : Ty) (h : TypesThrough code (ty :: tys) tys') :
    TypesThrough (.load slot ty :: code) tys tys' :=
  .cons [] [] (some ty) rfl rfl h

theorem TypesThrough.passCode {params : List (Ty × Nat)}
    (h : TypesThrough code ((params.map Prod.fst).reverse ++ tys) tys') :
    TypesThrough (passCode params ++ code) tys tys' := by
  induction params generalizing tys with
  | nil => exact h
  | cons p params ih =>
    refine .load _ _ (ih ?_)
    rwa [List.map_cons, List.reverse_cons, List.append_assoc] at h

theorem TypesThrough.storeCode (owner : String) (first : Nat) (stored : List ((String × Ty) × Nat))
    (h : TypesThrough code tys tys') : TypesThrough (storeCode owner first stored ++ code) tys tys' := by
  induction stored with
  | nil => exact h
  | cons f stored ih =>
    exact .load _ _ (.load _ _ (.cons [.any, f.1.2] [f.1.2, .cls owner] none rfl rfl ih))

/-- A constructor leaves nothing on the stack. -/
theorem typesThrough_constructorCode (owner superclass : String) (params : List Ty) (stored : List (String × Ty)) :
    TypesThrough (constructorCode owner superclass params stored) [] [] := by
  have hreturn : TypesThrough [.ret .void] [] [] := .cons [] [] none rfl rfl (.nil [])
  have hstores :
      TypesThrough (Emission.storeCode owner (1 + params.length) stored.zipIdx ++ [Instruction.ret .void]) [] [] :=
    TypesThrough.storeCode _ _ _ hreturn
  have hsuper := TypesThrough.cons (i := .invokeSuper superclass params) (.any :: params)
    (params.reverse ++ [Ty.cls owner]) none rfl (by simp [Ty.width]) hstores
  rw [List.append_nil] at hsuper
  rw [constructorCode_eq, setupCode, List.cons_append, List.append_assoc]
  refine .load _ _ (.passCode ?_)
  rwa [List.zipIdx_map_fst]

theorem foldl_push_names (code : List Instruction) (b : CodeBuffer) :
    (code.foldl CodeBuffer.push b).labels = b.labels ∧ (code.foldl CodeBuffer.push b).locals = b.locals := by
  induction code generalizing b with
  | nil => exact ⟨rfl, rfl⟩
  | cons i rest ih => exact ih (b.push i)

theorem layout_add_map (code : List Instruction) (out : CodeBuffer.Layout) :
    (code.map CodeBuffer.Item.instruction).foldl CodeBuffer.Layout.add out
      = { out with instructions := out.instructions ++ code.toArray } := by
  induction code generalizing out with
  | nil => simp
  | cons i rest ih =>
    rw [List.map_cons, List.foldl_cons, ih]
    simp [CodeBuffer.Layout.add]

/-- Code without branches is finished as it is. -/
theorem straightLine_eq {stack : TypeStack} (hstack : straightLineStack {} code = .ok stack)
    (htargets : ∀ i ∈ code, i.targets = []) (reserved : Nat) :
    straightLine reserved code = .ok
      { instructions := code.toArray, labels := #[], handlers := [], localVars := [], maxStack := stack.max
        maxLocals := reserved } := by
  obtain ⟨hitems, hholes, hhandlers, hslots⟩ := foldl_push code (.withReserved reserved)
  obtain ⟨hlabels, hlocals⟩ := foldl_push_names code (.withReserved reserved)
  have hlayout : (code.foldl CodeBuffer.push (.withReserved reserved)).layout = ⟨code.toArray, #[], #[]⟩ := by
    rw [CodeBuffer.layout, ← Array.foldl_toList, hitems, hholes, hlabels]
    exact (layout_add_map code _).trans (by simp [CodeBuffer.withReserved])
  have hnone : code.flatMap Instruction.targets = [] := List.flatMap_eq_nil_iff.2 htargets
  rw [straightLine, hstack]
  simp only [bind, Except.bind, CodeBuffer.finish, hlayout, hhandlers, hlocals, hslots, hnone]
  rfl

end Finish

/-! ### Finished classes -/

section Classes

variable {c : ClassContext} {plan : ConstructorPlan} {file : ClassFile}

/-- What the constructor of a class stores, with the types it is stored as. -/
def storedFields (c : ClassContext) (plan : ConstructorPlan) : List (String × Ty) :=
  plan.ownFields ++ c.captures.map fun r => (r.field, r.ty)

/-- A method hands its first arguments to a constructor of the superclass, and stores the others in fields. -/
structure Initializes (d : MethodDef) (owner superclass : String) (params : List Ty) (stored : List (String × Ty)) :
    Prop where
  name : d.name = Names.constructor
  takes : d.params = params ++ stored.map Prod.snd
  receives : d.isStatic = false
  code : ∃ code, d.code = some code ∧ code.instructions.toList = constructorCode owner superclass params stored ∧
    code.handlers = [] ∧ code.maxLocals = d.params.length + 1

theorem constructorCode_targets (owner superclass : String) (params : List Ty) (stored : List (String × Ty)) :
    ∀ i ∈ constructorCode owner superclass params stored, i.targets = [] := by
  rw [constructorCode_eq]
  intro i hi
  rcases List.mem_append.1 hi with hi | hi
  · exact (setupCode_plain hi).2.1
  · rw [List.mem_singleton.1 hi]
    rfl

/-- Every class but one without instances gets its constructor. -/
theorem exists_constructorOf (c : ClassContext) (hplan : plan ≠ .none) :
    ∃ d, constructorOf c plan = .ok (some d) ∧
      Initializes d c.file.name c.file.superclass plan.superParams (storedFields c plan) := by
  let code := constructorCode c.file.name c.file.superclass plan.superParams (storedFields c plan)
  obtain ⟨max, hstack⟩ : ∃ max, straightLineStack {} code = .ok ⟨[], max⟩ := typesThrough_constructorCode _ _ _ _ 0
  have hfinish := straightLine_eq hstack (constructorCode_targets _ _ _ _)
    ((plan.superParams ++ (storedFields c plan).map Prod.snd).length + 1)
  unfold constructorOf
  split
  · exact absurd rfl hplan
  · dsimp only [storedFields, code] at hfinish ⊢
    rw [hfinish]
    exact ⟨_, rfl, rfl, rfl, rfl, _, rfl, rfl, rfl, rfl⟩

/-- A class is finished with a constant field for each capture and with its constructor as its last method. -/
theorem exists_finishedFile (c : ClassContext) (hplan : plan ≠ .none) :
    ∃ d, finishedFile c plan = .ok
        { c.file with
          fields := plan.ownFields.foldl addField c.file.fields ++ c.captures.map fun r => constantField r.field r.ty
          methods := c.file.methods ++ [d] } ∧
      Initializes d c.file.name c.file.superclass plan.superParams (storedFields c plan) := by
  obtain ⟨d, hd, hinit⟩ := exists_constructorOf c hplan
  refine ⟨d, ?_, hinit⟩
  rw [finishedFile, hd]
  rfl

theorem finishedFile_ok (h : finishedFile c plan = .ok file) :
    file.name = c.file.name ∧ file.superclass = c.file.superclass ∧ file.interfaces = c.file.interfaces ∧
      ∀ r ∈ c.captures, constantField r.field r.ty ∈ file.fields := by
  obtain ⟨d, -, h⟩ := bind_ok h
  cases h
  exact ⟨rfl, rfl, rfl, fun r hr => List.mem_append_right _ (List.mem_map_of_mem hr)⟩

end Classes

/-! ### Defined classes -/

section Define

variable {file : ClassFile} {cls : ClassInfo} {w w' : World}

/-- A class is what a class file says, and stands in the registry under its name. -/
structure Registered (file : ClassFile) (cls : ClassInfo) (w w' : World) : Prop where
  info : ∃ serial layout, cls = { classInfo file w.sites.size with serial, layout }
  layout : ∀ f ∈ file.fields, f.isStatic = false → f.name ∈ cls.layout
  find : ∀ name, w'.registry.find? name = if file.name = name then some cls else w.registry.find? name

theorem Registered.name (h : Registered file cls w w') : cls.name = file.name := by
  obtain ⟨serial, layout, rfl⟩ := h.info
  rfl

theorem Registered.find_self (h : Registered file cls w w') : w'.registry.find? cls.name = some cls := by
  rw [h.find, if_pos h.name.symm]

theorem registerFile_ok (h : registerFile file w = .ok cls w') : Registered file cls w w' := by
  rw [registerFile, State.bind_of_ok (State.get_eq w)] at h
  cases hmade : w.registry.register (classInfo file w.sites.size) with
  | error e =>
    rw [hmade] at h
    cases h
  | ok made =>
    obtain ⟨cls', r⟩ := made
    rw [hmade] at h
    cases h
    obtain ⟨-, hfind⟩ := Registry.register_ok hmade
    obtain ⟨⟨inherited, rfl⟩, -⟩ := Registry.register_eq hmade
    refine ⟨⟨_, _, rfl⟩, fun f hf hstatic => ?_, hfind⟩
    refine List.mem_append_right _ (List.mem_map.2 ⟨fieldInfo f, List.mem_filter.2 ⟨List.mem_map_of_mem hf, ?_⟩, rfl⟩)
    simpa [fieldInfo] using hstatic

/-- Defining a class registers what its image loads as. -/
theorem defineClass_loads [Libraries] (h : defineClass file w = .ok cls w') :
    ∃ loaded, ClassFile.ofBytes file.toBytes = .ok loaded ∧ Registered loaded cls w w' := by
  rw [defineClass, defineImage] at h
  cases hread : ClassFile.ofBytes file.toBytes with
  | error e =>
    rw [hread] at h
    cases h
  | ok loaded =>
    refine ⟨loaded, rfl, ?_⟩
    rw [hread, State.bind_of_ok (Action.ofExcept_ok loaded w), State.bind_of_ok (State.get_eq w)] at h
    split at h
    · obtain ⟨⟨⟩, w₁, hcheck, h⟩ := State.ok_of_bind h
      cases hverified : Verifier.checkClass loaded with
      | error e =>
        rw [hverified] at hcheck
        cases hcheck
      | ok u =>
        rw [hverified] at hcheck
        cases hcheck
        exact registerFile_ok h
    · exact registerFile_ok h

theorem defineClass_ok [Libraries] (hread : ClassFile.ofBytes file.toBytes = .ok file)
    (h : defineClass file w = .ok cls w') :
    Registered file cls w w' := by
  obtain ⟨loaded, hloaded, hregistered⟩ := defineClass_loads h
  cases hread.symm.trans hloaded
  exact hregistered

/-- Loading a class does so too, while a form is worked on. -/
theorem loadClass_loads [Libraries] {s t : FormState} (h : loadClass file s = .ok cls t) :
    ∃ loaded, ClassFile.ofBytes file.toBytes = .ok loaded ∧ Registered loaded cls s.world t.world := by
  unfold loadClass FormM.lift at h
  cases hdefine : defineClass file s.world with
  | error e w =>
    simp only [hdefine] at h
    cases h
  | ok c w =>
    simp only [hdefine] at h
    cases h
    exact defineClass_loads hdefine

/-- A class can be defined once its parents are, if the verifier accepts it. -/
theorem exists_defineClass [Libraries] (hread : ClassFile.ofBytes file.toBytes = .ok file)
    (hverified : Verifier.checkClass file = .ok ())
    (hparents : ∀ name ∈ file.superclass :: file.interfaces, w.registry.contains name = true) :
    ∃ cls w', defineClass file w = .ok cls w' := by
  obtain ⟨cls, r, hmade⟩ := Registry.exists_register (r := w.registry) (c := classInfo file w.sites.size) hparents
  rw [defineClass, defineImage, hread, State.bind_of_ok (Action.ofExcept_ok file w),
    State.bind_of_ok (State.get_eq w)]
  have hregister : ∃ cls w', registerFile file w = .ok cls w' := by
    rw [registerFile, State.bind_of_ok (State.get_eq w), hmade]
    exact ⟨_, _, rfl⟩
  split
  · rwa [hverified]
  · exact hregister

end Define

/-! ### New instances -/

section Make

variable {cls : ClassInfo} {superclass : String} {params : List Ty} {stored : List (String × Ty)} {w w' : World}

/-- A class has instances, and the constructor that is found for the parameters is the one emitted for it. -/
structure Constructible (cls : ClassInfo) (superclass : String) (params : List Ty) (stored : List (String × Ty)) :
    Prop where
  concrete : cls.flags.isAbstract = false
  emitted : ∃ file site index d, cls.origin = .loaded file site ∧ file.methods[index]? = some d ∧
    Initializes d cls.name superclass params stored ∧
    cls.constructors.find? (fun k => k.params == params ++ stored.map Prod.snd) = some (methodInfo cls.name d index)

/-- A finished class is made by its constructor, unless it declares another with the same parameters. -/
theorem constructible_of_finished {c : ClassContext} {plan : ConstructorPlan} {file : ClassFile} (hplan : plan ≠ .none)
    (hfile : finishedFile c plan = .ok file) (hconcrete : c.file.flags.isAbstract = false)
    (hother : ∀ m ∈ c.file.methods, m.name = Names.constructor →
      m.params ≠ plan.superParams ++ (storedFields c plan).map Prod.snd)
    (hregistered : Registered file cls w w') :
    Constructible cls c.file.superclass plan.superParams (storedFields c plan) := by
  obtain ⟨d, hfinished, hinit⟩ := exists_finishedFile c hplan
  rw [hfinished] at hfile
  cases hfile
  obtain ⟨serial, layout, rfl⟩ := hregistered.info
  refine ⟨hconcrete, _, _, c.file.methods.length, d, rfl, List.getElem?_concat_length .., hinit, ?_⟩
  have hown : (methodInfo c.file.name d c.file.methods.length).name == Names.constructor := by
    simp [methodInfo, hinit.name]
  have htakes : (methodInfo c.file.name d c.file.methods.length).params
      == plan.superParams ++ (storedFields c plan).map Prod.snd := by simp [methodInfo, hinit.takes]
  simp only [classInfo, List.zipIdx_append, List.map_append, List.filter_append, List.find?_append]
  rw [List.find?_eq_none.2, Option.none_or]
  · simp [hown, htakes]
  · rintro k hk
    obtain ⟨hk, hname⟩ := List.mem_filter.1 hk
    obtain ⟨⟨m, i⟩, hm, rfl⟩ := List.mem_map.1 hk
    simpa [methodInfo] using hother m (List.fst_mem_of_mem_zipIdx hm) (by simpa [methodInfo] using hname)

/-- The arguments are in the locals behind the receiver. -/
theorem initialLocals_argument (code : Code) (this : Value) (args : List Value) (i : Nat) :
    ((initialLocals code (this :: args))[1 + i]?).getD .nil = ((args.toArray)[i]?).getD .nil := by
  rw [initialLocals, Array.getElem?_append, Nat.add_comm 1 i]
  simp only [List.getElem?_toArray, List.getElem?_cons_succ, List.size_toArray, List.length_cons,
    Array.getElem?_replicate]
  split
  · rfl
  · rw [List.getElem?_eq_none (by omega)]
    split <;> rfl

theorem storedValues_initialLocals (code : Code) (this : Value) (args : List Value) (first : Nat)
    (stored : List ((String × Ty) × Nat)) :
    storedValues (initialLocals code (this :: args)) (1 + first) stored = storedValues args.toArray first stored := by
  simp only [storedValues, Nat.add_assoc, initialLocals_argument]

theorem passedValues_initialLocals (code : Code) (this : Value) (args : List Value) (params : List (Ty × Nat)) :
    passedValues (initialLocals code (this :: args)) 1 params = passedValues args.toArray 0 params := by
  simp only [passedValues, Nat.zero_add, initialLocals_argument]

/-- Making an instance makes an object, has a constructor of the superclass work on it, and stores the other arguments;
it ends well just where the latter two do. -/
theorem Constructible.makes [Libraries] (h : Constructible cls superclass params stored) {name : String}
    (hfind : w.registry.find? name = some cls) (fuel : Nat) (args : List Value) :
    (∀ v w', newInstance (call (fuel + 1)) name (params ++ stored.map Prod.snd) args w = .ok v w' →
      v = .object (w.allocate cls).1 ∧ ∃ w₁,
        superConstructor (call fuel) superclass params (.object (w.allocate cls).1)
          (passedValues args.toArray 0 params.zipIdx) (w.allocate cls).2 = .ok () w₁ ∧
        Action.storeFields (w.allocate cls).1 (storedValues args.toArray params.length stored.zipIdx) w₁ = .ok () w') ∧
    ∀ w₁ w', 3 + params.length + 3 * stored.length ≤ fuel →
      superConstructor (call fuel) superclass params (.object (w.allocate cls).1)
        (passedValues args.toArray 0 params.zipIdx) (w.allocate cls).2 = .ok () w₁ →
      Action.storeFields (w.allocate cls).1 (storedValues args.toArray params.length stored.zipIdx) w₁ = .ok () w' →
      newInstance (call (fuel + 1)) name (params ++ stored.map Prod.snd) args w
        = .ok (.object (w.allocate cls).1) w' := by
  obtain ⟨file, site, index, d, horigin, hd, hinit, hfound⟩ := h.emitted
  obtain ⟨code, hcode, hinstructions, hhandlers, -⟩ := hinit.code
  let o := (w.allocate cls).1
  let locals := initialLocals code (.object o :: args)
  have hthis : locals[0]? = some (Value.object o) := Array.getElem?_append_left (Nat.succ_pos _)
  obtain ⟨hforth, hback⟩ := runFrame_constructor (call fuel) ⟨code, file.sites, site⟩ hinstructions hhandlers hthis
    (w.allocate cls).2
  rw [storedValues_initialLocals, passedValues_initialLocals] at hforth hback
  have hinvoke : call (fuel + 1) (.invoke cls (methodInfo cls.name d index) (some (.object o)) args)
      = runFrame (call fuel) ⟨code, file.sites, site⟩ fuel { locals } := by
    have hbody : (methodInfo cls.name d index).body = .code index := by simp [methodInfo, hcode]
    have hreceives : (methodInfo cls.name d index).isStatic = false := hinit.receives
    rw [call, perform, runMethod, hbody, hreceives]
    simp only [Bool.false_eq_true, if_false, execute, horigin, hd, hcode]
    rfl
  have hrun : newInstance (call (fuel + 1)) name (params ++ stored.map Prod.snd) args w
      = (runFrame (call fuel) ⟨code, file.sites, site⟩ fuel { locals } >>= fun _ => pure (.object o))
        (w.allocate cls).2 := by
    rw [newInstance, State.bind_of_ok (State.get_eq w), hfind]
    simp only [h.concrete, Bool.false_eq_true, if_false, hfound, ← hinvoke]
    rfl
  refine ⟨fun v w' hnew => ?_, fun w₁ w' hfuel hsuper hstore => ?_⟩
  · rw [hrun] at hnew
    obtain ⟨_, _, hframe, hnew⟩ := State.ok_of_bind hnew
    cases hnew
    exact ⟨rfl, hforth fuel _ _ hframe⟩
  · rw [hrun, State.bind_of_ok (hback fuel w₁ w' hfuel hsuper hstore)]
    rfl

end Make

/-! ### Captured values -/

section Captures

variable {captures : List Capture} {args : List Value} {first : Nat} {w w' : World} {o : ObjectRef} {cls : ClassInfo}

/-- The values that a constructor stores for captures, from its arguments from a position on. -/
def capturedValues (captures : List Capture) (args : List Value) (first : Nat) : List (String × Value) :=
  storedValues args.toArray first (captures.map fun r => (r.field, r.ty)).zipIdx

theorem getElem?_capturedValues (captures : List Capture) (args : List Value) (first i : Nat) :
    (capturedValues captures args first)[i]?
      = (captures[i]?).map fun r => (r.field, held r.ty ((args[first + i]?).getD .nil)) := by
  rw [capturedValues, storedValues, List.getElem?_map, List.getElem?_zipIdx, List.getElem?_map, Option.map_map,
    Option.map_map]
  simp [Function.comp_def]

theorem capturedValues_names (captures : List Capture) (args : List Value) (first : Nat) :
    (capturedValues captures args first).map Prod.fst = captures.map Capture.field := by
  refine List.ext_getElem? fun i => ?_
  rw [List.getElem?_map, getElem?_capturedValues, List.getElem?_map, Option.map_map]
  rfl

/-- Storing captured values leaves the fields of other names as they are; of captures with one name the last counts. -/
theorem storeCaptures_ok (hmade : w.Made o cls)
    (hstore : Action.storeFields o (capturedValues captures args first) w = .ok () w') :
    (∀ field, (∀ r ∈ captures, r.field ≠ field) → w'.getField o field = w.getField o field) ∧
      ∀ (i : Nat) (r : Capture), captures[i]? = some r →
        (∀ (j : Nat) (r' : Capture), i < j → captures[j]? = some r' → r'.field ≠ r.field) →
        w'.getField o r.field = .ok (held r.ty ((args[first + i]?).getD .nil)) := by
  obtain ⟨-, hkept, hgiven⟩ := hmade.storeFields_ok hstore
  refine ⟨fun field hfield => hkept field fun f hf => ?_, fun i r hr hlater => ?_⟩
  · have hname : f.1 ∈ captures.map Capture.field := capturedValues_names captures args first ▸ List.mem_map_of_mem hf
    obtain ⟨r, hr, heq⟩ := List.mem_map.1 hname
    exact heq ▸ hfield r hr
  · have hvalue := getElem?_capturedValues captures args first i
    rw [hr] at hvalue
    refine hgiven i _ hvalue fun j g hj hg => ?_
    rw [getElem?_capturedValues] at hg
    obtain ⟨r', hr', rfl⟩ := Option.map_eq_some_iff.1 hg
    exact hlater j r' hj hr'

end Captures

end LispMachine.Emission
