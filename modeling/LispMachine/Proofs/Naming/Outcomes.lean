import LispMachine.Proofs.Agreement.Templates
import LispMachine.Proofs.Emission.Instances
import LispMachine.Proofs.Naming.EvaluatedForms
import LispMachine.Proofs.World.TypeNames
import LispMachine.Session

/-! # Names in outcomes

Where something gives a name, the name is seen in what comes of it: the symbol that `gensym` answers, the temporary of
an expanded `and` or `or`, the name of a symbol of a template, and the name of a class that was built.  Each of them
is the name that the run begins with (`Produces.run`).  Of a whole template, evaluated or compiled, the log has one name
for each symbol that ends in `#`, and with these the template is filled in (`evaluate_meets`, `compile_meets`). -/

namespace LispMachine.Naming

open Form

/-! ### Names that can be read off -/

theorem symbolNamed_injective : Function.Injective Value.symbolNamed :=
  fun _ _ h => Symbol.parse_injective (Value.symbol.inj h)

theorem shortCircuit_temporary {op temp temp' : String} {first : Datum} {rest : List Datum} {span : Span}
    (h : Expansion.shortCircuit op temp first rest span = Expansion.shortCircuit op temp' first rest span) :
    temp = temp' := by
  simp only [Expansion.shortCircuit, Expansion.formOf, Datum.ofList, Datum.list.injEq, List.cons.injEq] at h
  obtain ⟨⟨-, h, -⟩, -⟩ := h
  simp only [Datum.ofVector, Datum.vector.injEq, List.cons.injEq] at h
  obtain ⟨⟨h, -⟩, -⟩ := h
  simp only [Datum.symbol, Datum.ofAtom, Datum.atom.injEq, Atom.symbol.injEq] at h
  exact h.1

/-! ### Classes that are built -/

theorem generatedName_run (use : ClassUse) (s : FormState) :
    generatedName use s = .ok (classNameIn s.world use)
      { s with world := s.world.nextId.2.note (classNameIn s.world use) } := rfl

section Classes

variable {h : Handlers} (hh : Working h) {file built : ClassFile} {mode : ClassMode}
  {methods : List (Registry → MethodPlan)} {plan : ConstructorPlan} {captures : List Capture} {s t : FormState}

include hh

/-- A class has the name that its file was begun with. -/
theorem buildClass_name (hrun : buildClass h file mode methods plan s = .ok (built, captures) t) :
    built.name = file.name := by
  obtain ⟨⟨⟨⟩, c⟩, s₁, h₁, hrun⟩ := State.ok_of_bind hrun
  obtain ⟨finished, s₂, h₂, hrun⟩ := State.ok_of_bind hrun
  obtain ⟨hfinished, rfl⟩ := Emission.ofExcept_ok h₂
  cases hrun
  obtain ⟨s₃, t₃, hentered, hmethods, hc, -⟩ := Emission.withClass_ok h₁
  have hwork : ∀ owner, Work (methods.forM fun m => do buildMethod h owner (m (← FormM.registry))) :=
    fun owner => work_forM fun m => work_registry.bind fun _ => work_buildMethod hh owner _
  have hkept := (hwork (Emission.view s).classes.size).classNames s₃
  rw [hmethods] at hkept
  have hnames : classNames s₃ = (classNames s).push file.name := by
    have hclasses : s₃.classes = s.classes.push ⟨file, mode, []⟩ := congrArg Emission.View.classes hentered
    rw [classNames, hclasses, Array.map_push, ← classNames]
  have hlast : (classNames t₃)[s.classes.size]? = some c.file.name := by
    have hc : t₃.classes[s.classes.size]? = some c := hc
    rw [classNames, Array.getElem?_map, hc, Option.map_some]
  have hfirst : (classNames t₃)[s.classes.size]? = some file.name := by
    rw [show classNames t₃ = (classNames s).push file.name from hkept.trans hnames, ← size_classNames,
      Array.getElem?_push_size]
  rw [(Emission.finishedFile_ok hfinished).1]
  exact Option.some.inj (hlast.symm.trans hfirst)

/-- A class is named, and built under this name. -/
theorem buildClass_run {opened : List Nat} {begun : Nat} (use : ClassUse)
    (hrun : buildClass h file mode methods plan
      { s with world := s.world.nextId.2.note (classNameIn s.world use) } = .ok (built, captures) t)
    (hname : file.name = classNameIn s.world use)
    (hS : Scene.Balanced ⟨s, opened, begun⟩) :
    ∃ log begun', Run ⟨s, opened, begun⟩ (⟨.cls use, built.name⟩ :: log) ⟨t, opened, begun'⟩ := by
  have hnamed := Run.single (.cls s opened begun use)
  obtain ⟨log, begun', hbuilt⟩ := (work_buildClass hh file mode methods plan).leads _ (hnamed.balanced hS)
  rw [hrun] at hbuilt
  rw [buildClass_name hh hrun, hname]
  exact ⟨log, begun', hnamed.trans hbuilt⟩

end Classes

/-! ### Outcomes -/

/-- Something gives a name: where it starts, the name and what it is for, and the state it ends in. -/
inductive Produces [Libraries] : Scene → Given → FormState → Prop
  /-- A call of `gensym`. -/
  | gensym {s : FormState} {opened : List Nat} {begun : Nat} {call : Caller} {args : List Value} {name : String}
    {w : World} (h : Machine.runNative call .gensym args s.world = .ok (.symbolNamed name) w) :
    Produces ⟨s, opened, begun⟩ ⟨.symbol, name⟩ { s with world := w }
  /-- A step of `and` or `or`. -/
  | junction {s t : FormState} {opened : List Nat} {begun : Nat} {op name : String} {empty first second d : Datum}
    {rest : List Datum} (h : Expansion.junction op empty (first :: second :: rest) d s =
      .ok (Expansion.shortCircuit op name first (second :: rest) d.span) t) :
    Produces ⟨s, opened, begun⟩ ⟨.symbol, name⟩ t
  /-- A symbol in a template that ends in `#`. -/
  | occurrence {s t : FormState} {i : Nat} {opened : List Nat} {begun : Nat} {x name : String}
    (hx : Template.isTemporary x = true) (h : Template.qualify x s = .ok name t) :
    Produces ⟨s, i :: opened, begun⟩ ⟨.temporary i x, name⟩ t
  /-- The class of a `fn`. -/
  | fn {s t : FormState} {opened : List Nat} {begun fuel : Nat} {d : Datum} {name : Option String}
    {arities : List FnArity} {file : ClassFile} {captures : List Capture}
    (hparts : fnParts d = .ok (name, arities)) (h : buildFn (handlers fuel) d s = .ok (file, captures) t) :
    Produces ⟨s, opened, begun⟩ ⟨.cls (.fn name), file.name⟩ t
  /-- The class of a `proxy`. -/
  | proxy {s t : FormState} {opened : List Nat} {begun fuel : Nat} {d : Datum} {file : ClassFile} {init : Method}
    {captures : List Capture} (h : buildProxy (handlers fuel) d s = .ok (file, init, captures) t) :
    Produces ⟨s, opened, begun⟩ ⟨.cls .proxy, file.name⟩ t
  /-- The class of a top-level form. -/
  | eval {s t : FormState} {opened : List Nat} {begun fuel : Nat} {d : Datum} {file : ClassFile}
    (h : Session.buildTop (handlers fuel) d s = .ok file t) :
    Produces ⟨s, opened, begun⟩ ⟨.cls .eval, file.name⟩ t

section Outcomes

variable {S : Scene} {g : Given} {t : FormState}

/-- The name that something gives is the first one in the log of a run to where it ends. -/
theorem Produces.run [Libraries] (h : Produces S g t) (hS : S.Balanced) :
    ∃ log begun, Run S (g :: log) ⟨t, S.opened, begun⟩ := by
  cases h with
  | @gensym s opened begun call args name w hrun =>
    obtain ⟨stem, w₁, h₁, hrun⟩ := State.ok_of_bind hrun
    obtain ⟨made, w₂, h₂, hrun⟩ := State.ok_of_bind hrun
    cases hstem : Machine.stemOf args.head? <;> rw [hstem] at h₁ <;> cases h₁
    cases h₂
    obtain ⟨hvalue, rfl⟩ := EStateM.Result.ok.inj hrun
    rw [← symbolNamed_injective hvalue]
    exact ⟨[], begun, .single (.symbol s opened begun stem)⟩
  | @junction s t opened begun op name empty first second d rest hrun =>
    obtain ⟨made, s₁, h₁, hrun⟩ := State.ok_of_bind hrun
    cases h₁
    obtain ⟨hexpansion, rfl⟩ := EStateM.Result.ok.inj hrun
    rw [← shortCircuit_temporary hexpansion]
    exact ⟨[], begun, .single (.symbol s opened begun op)⟩
  | occurrence hx hrun =>
    rw [Template.qualify, if_pos hx] at hrun
    exact ⟨[], _, .single (.occurrence hrun)⟩
  | @fn s t opened begun fuel d name arities file captures hparts hrun =>
    obtain ⟨parts, s₁, h₁, hrun⟩ := State.ok_of_bind hrun
    rw [hparts] at h₁
    cases h₁
    obtain ⟨made, s₁, hmade, hrun⟩ := State.ok_of_bind hrun
    cases (generatedName_run _ _).symm.trans hmade
    obtain ⟨start, s₁, hstart, hrun⟩ := State.ok_of_bind hrun
    have hname := newFile_name hstart
    obtain ⟨rfl, -⟩ := Emission.newFile_ok hstart
    exact buildClass_run (working_handlers fuel) (.fn name) hrun hname hS
  | @proxy s t opened begun fuel d file init captures hrun =>
    obtain ⟨parts, s₁, h₁, hrun⟩ := State.ok_of_bind hrun
    obtain ⟨-, rfl⟩ := Emission.ofExcept_ok h₁
    obtain ⟨w, s₁, h₁, hrun⟩ := State.ok_of_bind hrun
    cases h₁
    obtain ⟨parents, s₁, h₁, hrun⟩ := State.ok_of_bind hrun
    obtain ⟨-, rfl⟩ := Emission.ofExcept_ok h₁
    obtain ⟨init', s₁, h₁, hrun⟩ := State.ok_of_bind hrun
    obtain ⟨-, rfl⟩ := Emission.ofExcept_ok h₁
    obtain ⟨methods, s₁, h₁, hrun⟩ := State.ok_of_bind hrun
    obtain ⟨-, rfl⟩ := Emission.ofExcept_ok h₁
    obtain ⟨made, s₁, hmade, hrun⟩ := State.ok_of_bind hrun
    cases (generatedName_run _ _).symm.trans hmade
    obtain ⟨start, s₁, hstart, hrun⟩ := State.ok_of_bind hrun
    have hname := newFile_name hstart
    obtain ⟨rfl, -⟩ := Emission.newFile_ok hstart
    obtain ⟨built, s₁, h₁, hrun⟩ := State.ok_of_bind hrun
    cases hrun
    exact buildClass_run (working_handlers fuel) .proxy h₁ hname hS
  | @eval s t opened begun fuel d file hrun =>
    obtain ⟨made, s₁, hmade, hrun⟩ := State.ok_of_bind hrun
    cases (generatedName_run _ _).symm.trans hmade
    obtain ⟨start, s₁, hstart, hrun⟩ := State.ok_of_bind hrun
    have hname := newFile_name hstart
    obtain ⟨rfl, -⟩ := Emission.newFile_ok hstart
    obtain ⟨built, s₁, h₁, hrun⟩ := State.ok_of_bind hrun
    cases hrun
    exact buildClass_run (working_handlers fuel) .eval h₁ hname hS

end Outcomes

/-! ### Filled templates -/

section Fills

open Template

mutual
/-- An element is filled in: with the given names where its symbols end in `#`, and with anything where they do not or
where it is unquoted.  It is told whether the elements of the value are spliced in. -/
def Fills [Libraries] (name : String → String) : Datum → Value × Bool → Prop
  | .atom (.symbol x) _, r => ∃ made, r = (.symbolNamed made, false) ∧ (isTemporary x = true → made = name x)
  | .atom a _, r => r = (a.toValue, false)
  | .list items i, r =>
    match unquoted? (.list items i) with
    | some (_, splice) => r.2 = splice
    | none => ∃ vs, FillsItems name items vs ∧ r = (.list vs, false)
  | .vector items _, r => ∃ vs, FillsItems name items vs ∧ r = (.vector vs, false)
  | .set items _, r => ∃ vs, FillsItems name items vs ∧ r = (.setOf vs, false)
  | .map entries _, r => ∃ es, FillsEntries name entries es ∧ r = (.mapOf es, false)
termination_by structural d => d

/-- Elements in a row are filled in. -/
def FillsItems [Libraries] (name : String → String) : List Datum → List Value → Prop
  | [], vs => vs = []
  | d :: ds, vs => ∃ r part rest, Fills name d r ∧ contribution? r = some part ∧ FillsItems name ds rest ∧
      vs = part ++ rest
termination_by structural ds => ds

def FillsEntries [Libraries] (name : String → String) : List (Datum × Datum) → List (Value × Value) → Prop
  | [], es => es = []
  | (k, v) :: entries, es => ∃ key value rest, Fills name k (key, false) ∧ Fills name v (value, false) ∧
      FillsEntries name entries rest ∧ es = (key, value) :: rest
termination_by structural es => es
end

theorem whole?_eq {r : Value × Bool} {v : Value} (h : whole? r = some v) : r = (v, false) := by
  obtain ⟨w, _ | _⟩ := r <;> cases h
  rfl

variable {f : Filling} {name : String → String}

mutual
/-- What a template is filled to with some names and values is filled in with these names. -/
theorem fills_of_fill? [Libraries] (hf : ∀ x, isTemporary x = true → f.name x = name x) (d : Datum) {r : Value × Bool}
    (h : fill? f d = some r) : Fills name d r := by
  match d with
  | .atom a i =>
    cases a with
    | symbol x =>
      cases h
      exact ⟨f.name x, rfl, hf x⟩
    | _ =>
      cases h
      rfl
  | .list items i =>
    unfold fill? at h
    unfold Fills
    cases hinner : unquoted? (.list items i) with
    | some inner =>
      rw [hinner] at h
      cases h
      rfl
    | none =>
      rw [hinner] at h
      obtain ⟨vs, hvs, h⟩ := Option.bind_eq_some_iff.mp h
      cases h
      exact ⟨vs, fillsItems_of_fillItems? hf items hvs, rfl⟩
  | .vector items i =>
    obtain ⟨vs, hvs, h⟩ := Option.bind_eq_some_iff.mp h
    cases h
    exact ⟨vs, fillsItems_of_fillItems? hf items hvs, rfl⟩
  | .set items i =>
    obtain ⟨vs, hvs, h⟩ := Option.bind_eq_some_iff.mp h
    cases h
    exact ⟨vs, fillsItems_of_fillItems? hf items hvs, rfl⟩
  | .map entries i =>
    obtain ⟨es, hes, h⟩ := Option.bind_eq_some_iff.mp h
    cases h
    exact ⟨es, fillsEntries_of_fillEntries? hf entries hes, rfl⟩

theorem fillsItems_of_fillItems? [Libraries] (hf : ∀ x, isTemporary x = true → f.name x = name x) (ds : List Datum)
    {vs : List Value} (h : fillItems? f ds = some vs) : FillsItems name ds vs := by
  match ds with
  | [] =>
    cases h
    rfl
  | d :: ds =>
    obtain ⟨r, hr, h⟩ := Option.bind_eq_some_iff.mp h
    obtain ⟨part, hpart, h⟩ := Option.bind_eq_some_iff.mp h
    obtain ⟨rest, hrest, h⟩ := Option.bind_eq_some_iff.mp h
    cases h
    exact ⟨r, part, rest, fills_of_fill? hf d hr, hpart, fillsItems_of_fillItems? hf ds hrest, rfl⟩

theorem fillsEntries_of_fillEntries? [Libraries] (hf : ∀ x, isTemporary x = true → f.name x = name x)
    (entries : List (Datum × Datum)) {es : List (Value × Value)} (h : fillEntries? f entries = some es) :
    FillsEntries name entries es := by
  match entries with
  | [] =>
    cases h
    rfl
  | (k, v) :: entries =>
    obtain ⟨rk, hrk, h⟩ := Option.bind_eq_some_iff.mp h
    obtain ⟨key, hkey, h⟩ := Option.bind_eq_some_iff.mp h
    obtain ⟨rv, hrv, h⟩ := Option.bind_eq_some_iff.mp h
    obtain ⟨value, hvalue, h⟩ := Option.bind_eq_some_iff.mp h
    obtain ⟨rest, hrest, h⟩ := Option.bind_eq_some_iff.mp h
    cases h
    rw [whole?_eq hkey] at hrk
    rw [whole?_eq hvalue] at hrv
    exact ⟨key, value, rest, fills_of_fill? hf k hrk, fills_of_fill? hf v hrv,
      fillsEntries_of_fillEntries? hf entries hrest, rfl⟩
end

end Fills

/-! ### Templates that are evaluated -/

section Templates

open Template Agreement

/-- On a run in a template, the log has names for some symbols, and where they are the given ones something is filled
in. -/
def Meets (i : Nat) (S : Scene) (t : FormState) (symbols : List String) (filled : (String → String) → Prop) : Prop :=
  ∃ log begun, Run S log ⟨t, S.opened, begun⟩ ∧
    (∀ x ∈ symbols, isTemporary x = true → ∃ a, ⟨.temporary i x, a⟩ ∈ log) ∧
    ∀ name, (∀ x a, ⟨.temporary i x, a⟩ ∈ log → a = name x) → filled name

variable {i : Nat} {S : Scene} {s t : FormState} {xs ys : List String} {P Q : (String → String) → Prop}

theorem Scene.Leads.meets (h : S.Leads t) (hP : ∀ name, P name) : Meets i S t [] P := by
  obtain ⟨log, begun, hrun⟩ := h
  exact ⟨log, begun, hrun, nofun, fun name _ => hP name⟩

theorem Meets.imp (h : Meets i S t xs P) (himp : ∀ name, P name → Q name) : Meets i S t xs Q := by
  obtain ⟨log, begun, hrun, hmet, hP⟩ := h
  exact ⟨log, begun, hrun, hmet, fun name hname => himp name (hP name hname)⟩

theorem Meets.seq (hS : S.Balanced) (h : Meets i S s xs P)
    (h' : ∀ begun, Scene.Balanced ⟨s, S.opened, begun⟩ → Meets i ⟨s, S.opened, begun⟩ t ys Q) :
    Meets i S t (xs ++ ys) fun name => P name ∧ Q name := by
  obtain ⟨log, begun, hrun, hmet, hP⟩ := h
  obtain ⟨log', begun', hrun', hmet', hQ⟩ := h' begun (hrun.balanced hS)
  refine ⟨log ++ log', begun', hrun.trans hrun', fun x hx hsharp => ?_, fun name hname => ⟨?_, ?_⟩⟩
  · rcases List.mem_append.mp hx with hx | hx
    · obtain ⟨a, ha⟩ := hmet x hx hsharp
      exact ⟨a, List.mem_append_left _ ha⟩
    · obtain ⟨a, ha⟩ := hmet' x hx hsharp
      exact ⟨a, List.mem_append_right _ ha⟩
  · exact hP name fun x a ha => hname x a (List.mem_append_left _ ha)
  · exact hQ name fun x a ha => hname x a (List.mem_append_right _ ha)

/-- A symbol is met, and filled in with its name. -/
theorem meets_qualify {x made : String} {rest : List Nat} (hi : S.opened = i :: rest)
    (hrun : qualify x S.state = .ok made t) :
    Meets i S t [x] fun name => isTemporary x = true → made = name x := by
  obtain ⟨s, opened, begun⟩ := S
  obtain rfl : opened = i :: rest := hi
  unfold qualify at hrun
  split at hrun
  · refine ⟨[⟨.temporary i x, made⟩], begun, .single (.occurrence hrun), fun y hy _ => ?_, fun name hname _ => ?_⟩
    · rw [List.mem_singleton.mp hy]
      exact ⟨made, List.mem_singleton_self _⟩
    · exact hname x made (List.mem_singleton_self _)
  · rename_i hplain
    obtain rfl : s = t := by
      split at hrun <;> cases hrun <;> rfl
    refine ⟨[], begun, .refl _, fun y hy hsharp => ?_, fun name _ hsharp => absurd hsharp hplain⟩
    rw [List.mem_singleton.mp hy] at hsharp
    exact absurd hsharp hplain

variable {h : Handlers}

mutual
/-- Evaluating an element fills it in with the names that its symbols are given. -/
theorem evaluateElement_meets [Libraries] (hh : Working h) (d : Datum) {S : Scene} {rest : List Nat} {t : FormState}
    {r : Value × Bool} (hS : S.Balanced) (hi : S.opened = i :: rest)
    (hrun : evaluateElement h d S.state = .ok r t) : Meets i S t (symbolsOf d) fun name => Fills name d r := by
  match d with
  | .atom a info =>
    cases a with
    | symbol x =>
      obtain ⟨made, s₁, h₁, hrun⟩ := State.ok_of_bind hrun
      cases hrun
      exact (meets_qualify hi h₁).imp fun name hname => ⟨made, rfl, hname⟩
    | _ =>
      cases hrun
      exact (S.leads_aside (.refl _)).meets fun _ => rfl
  | .list items info =>
    unfold evaluateElement at hrun
    unfold symbolsOf Fills
    cases hinner : unquoted? (.list items info) with
    | some inner =>
      rw [hinner] at hrun
      obtain ⟨v, s₁, h₁, hrun⟩ := State.ok_of_bind hrun
      cases hrun
      have hleads := (work_evaluateAside hh inner.1).leads S hS
      rw [h₁] at hleads
      exact hleads.meets fun _ => rfl
    | none =>
      rw [hinner] at hrun
      obtain ⟨vs, s₁, h₁, hrun⟩ := State.ok_of_bind hrun
      cases hrun
      exact (evaluateItems_meets hh items hS hi h₁).imp fun name hvs => ⟨vs, hvs, rfl⟩
  | .vector items info =>
    obtain ⟨vs, s₁, h₁, hrun⟩ := State.ok_of_bind hrun
    cases hrun
    exact (evaluateItems_meets hh items hS hi h₁).imp fun name hvs => ⟨vs, hvs, rfl⟩
  | .set items info =>
    obtain ⟨vs, s₁, h₁, hrun⟩ := State.ok_of_bind hrun
    cases hrun
    exact (evaluateItems_meets hh items hS hi h₁).imp fun name hvs => ⟨vs, hvs, rfl⟩
  | .map entries info =>
    obtain ⟨es, s₁, h₁, hrun⟩ := State.ok_of_bind hrun
    cases hrun
    exact (evaluateEntries_meets hh entries hS hi h₁).imp fun name hes => ⟨es, hes, rfl⟩

theorem evaluateItems_meets [Libraries] (hh : Working h) (ds : List Datum) {S : Scene} {rest : List Nat} {t : FormState}
    {vs : List Value} (hS : S.Balanced) (hi : S.opened = i :: rest)
    (hrun : evaluateItems h ds S.state = .ok vs t) :
    Meets i S t (symbolsOfAll ds) fun name => FillsItems name ds vs := by
  match ds with
  | [] =>
    cases hrun
    exact (S.leads_aside (.refl _)).meets fun _ => rfl
  | d :: ds =>
    obtain ⟨r, s₁, part, others, h₁, hpart, h₂, rfl⟩ := evaluateItems_cons hrun
    have hfirst := evaluateElement_meets hh d hS hi h₁
    refine (hfirst.seq hS fun begun hbalanced => evaluateItems_meets hh ds hbalanced hi h₂).imp fun name hname => ?_
    exact ⟨r, part, others, hname.1, hpart, hname.2, rfl⟩

theorem evaluateEntries_meets [Libraries] (hh : Working h) (entries : List (Datum × Datum)) {misplaced : Error}
    {S : Scene}
    {rest : List Nat} {t : FormState} {es : List (Value × Value)} (hS : S.Balanced) (hi : S.opened = i :: rest)
    (hrun : evaluateEntries h misplaced entries S.state = .ok es t) :
    Meets i S t (symbolsOfEntries entries) fun name => FillsEntries name entries es := by
  match entries with
  | [] =>
    cases hrun
    exact (S.leads_aside (.refl _)).meets fun _ => rfl
  | (k, v) :: entries =>
    obtain ⟨key, value, s₁, s₂, others, h₁, h₂, h₃, rfl⟩ := evaluateEntries_cons hrun
    have hkey := evaluateElement_meets hh k hS hi h₁
    have hentry := hkey.seq hS fun begun hbalanced => evaluateElement_meets hh v hbalanced hi h₂
    refine (hentry.seq hS fun begun hbalanced => evaluateEntries_meets hh entries hbalanced hi h₃).imp
      fun name hname => ?_
    exact ⟨key, value, others, hname.1.1, hname.1.2, hname.2, rfl⟩
end

/-- A scene in which a template has been begun. -/
def Scene.inTemplate (S : Scene) : Scene :=
  ⟨{ S.state with templates := {} :: S.state.templates }, S.begun :: S.opened, S.begun + 1⟩

theorem Scene.enter (S : Scene) : Run S [] S.inTemplate := .single (.enter S.state S.opened S.begun)

/-- At the end of a template, its table holds just the names given in it. -/
theorem find?_tableOf {before log : List Given} {begun : Nat} (hsound : Sound S before)
    (hrun : Run S.inTemplate log ⟨t, S.begun :: S.opened, begun⟩) (x a : String) :
    (tableOf t).find? x = some a ↔ ⟨.temporary S.begun x, a⟩ ∈ log := by
  have hafter := hrun.sound (S.enter.sound hsound)
  have htables := hafter.tables
  obtain ⟨names, rest, hagrees, -, htemplates⟩ := List.forall₂_cons_left_iff.mp htables
  have htable : tableOf t = names := by
    have htemplates : t.templates = names :: rest := htemplates
    rw [tableOf, htemplates, List.headD_cons]
  have hnew : (⟨.temporary S.begun x, a⟩ : Given) ∉ before :=
    fun hin => Nat.lt_irrefl _ (hsound.begun _ hin S.begun x rfl)
  rw [htable, hagrees x a, List.append_nil, List.mem_append, or_iff_right hnew]

/-- A template is evaluated: its symbols that end in `#` have one name each, which is in the log, and with these names
it is filled in. -/
theorem evaluate_meets [Libraries] (hh : Working h) {before : List Given} (hsound : Sound S before) {d template : Datum}
    (hd : theTemplate d = .ok template) {v : Value} (hrun : Template.evaluate h d S.state = .ok v t) :
    ∃ name log begun, Run S log ⟨t, S.opened, begun⟩ ∧
      (∀ x ∈ temporaries template, ⟨.temporary S.begun x, name x⟩ ∈ log) ∧ Fills name template (v, false) := by
  obtain ⟨e, s₁, h₁, hrun⟩ := State.ok_of_bind hrun
  obtain ⟨he, rfl⟩ := Emission.ofExcept_ok h₁
  cases hd.symm.trans he
  obtain ⟨t₁, hvalue, rfl⟩ := withNames_ok hrun
  obtain ⟨⟨v, splice⟩, s₂, h₂, hvalue⟩ := State.ok_of_bind hvalue
  cases splice with
  | true => cases hvalue
  | false =>
    cases hvalue
    obtain ⟨log, begun, hinside, hmet, hfills⟩ :=
      evaluateElement_meets hh template (S := S.inTemplate) (S.enter.balanced hsound.balanced) rfl h₂
    have hnames : ∀ x a, ⟨.temporary S.begun x, a⟩ ∈ log → a = ((tableOf t₁).find? x).getD x := by
      intro x a ha
      rw [(find?_tableOf hsound hinside x a).mpr ha, Option.getD_some]
    refine ⟨_, _, begun, (S.enter.trans hinside).tail (.leave t₁ S.begun S.opened begun), fun x hx => ?_,
      hfills _ hnames⟩
    obtain ⟨hx, hsharp⟩ := List.mem_filter.mp hx
    obtain ⟨a, ha⟩ := hmet x hx hsharp
    rw [← hnames x a ha, List.nil_append, List.append_nil]
    exact ha

/-- A template is compiled: its symbols that end in `#` have one name each, which is in the log, and what its plan gives
is filled in with these names. -/
theorem compile_meets [Libraries] (hh : Working h) {before : List Given} (hsound : Sound S before) {d template : Datum}
    (hd : theTemplate d = .ok template) {u : Unit} (hrun : Template.compile h d S.state = .ok u t) :
    ∃ name p s log begun, Run S log ⟨t, S.opened, begun⟩ ∧
      plan template { S.state with templates := {} :: S.state.templates } = .ok (p, false) s ∧
      (∀ x ∈ temporaries template, ⟨.temporary S.begun x, name x⟩ ∈ log) ∧
      ∀ value v, Gives value p v → Fills name template (v, false) := by
  obtain ⟨e, s₁, h₁, hrun⟩ := State.ok_of_bind hrun
  obtain ⟨he, rfl⟩ := Emission.ofExcept_ok h₁
  cases hd.symm.trans he
  obtain ⟨t₁, hplan, rfl⟩ := withNames_ok hrun
  obtain ⟨⟨p, splice⟩, s₁, h₁, hemit⟩ := State.ok_of_bind hplan
  cases splice with
  | true => cases hemit
  | false =>
    have hplanned := plan_planned template h₁
    obtain ⟨name, -, hreads⟩ := exists_generated hplanned.settles
    have hname : ∀ x, isTemporary x = true → nameIn S.state.world name x = name x :=
      fun x hsharp => if_pos hsharp
    have hbalanced := S.enter.balanced hsound.balanced
    obtain ⟨log, begun, hplanning⟩ := (work_plan template).leads S.inTemplate hbalanced
    rw [show stateAfter (plan template S.inTemplate.state) = s₁ from congrArg stateAfter h₁] at hplanning
    obtain ⟨log', begun', hemitting⟩ := (work_emitPlan hh template p).leads _ (hplanning.balanced hbalanced)
    rw [show stateAfter (emitPlan h template p s₁) = t₁ from congrArg stateAfter hemit] at hemitting
    refine ⟨name, p, s₁, _, begun',
      ((S.enter.trans hplanning).trans hemitting).tail (.leave t₁ S.begun S.opened begun'), h₁, fun x hx => ?_,
      fun value v hv => fills_of_fill? hname template (hplanned.gives _ (hreads value) v hv)⟩
    obtain ⟨hx, hsharp⟩ := List.mem_filter.mp hx
    obtain ⟨a, ha⟩ := hplanned.settles.named x hx hsharp
    have hmade : name x = a := (hname x hsharp).symm.trans ((hreads fun _ => .nil).made x a hsharp ha)
    rw [hmade, List.nil_append, List.append_nil]
    exact List.mem_append_left _ ((find?_tableOf hsound hplanning x a).mp ha)

end Templates

end LispMachine.Naming
