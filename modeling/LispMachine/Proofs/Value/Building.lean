import LispMachine.Machine.Natives
import LispMachine.Proofs.Sequencing
import LispMachine.Proofs.Value.Coherence

/-! # What built-in functions build

A hereditary property that all arguments of a built-in function have is one that its result has
(`Hereditary.pureNative`): numbers, truths and names are simple, the items of a collection have the property if it has,
and what goes into a map or a set goes in by insertion.  So built-in functions make proper values of proper ones
(`isProper_pureNative`).  What they return is of the type that they declare (`conforms_pureNative`). -/

namespace LispMachine

open Value

/-! ### Arithmetic -/

namespace Arithmetic

variable {op : String} {a b v : Value} {args : List Value}

def IsNumber (v : Value) : Prop := (∃ n, v = .int n) ∨ ∃ x, v = .float x

theorem isNumber_checked {n : Int} (h : checked op n = .ok v) : IsNumber v := by
  unfold checked at h
  split at h
  · cases h
    exact .inl ⟨_, rfl⟩
  · cases h

theorem isNumber_arith {onInts : Int → Int → Int} {onDoubles : Double → Double → Double}
    (h : arith op onInts onDoubles a b = .ok v) : IsNumber v := by
  obtain ⟨x, -, h⟩ := bind_ok h
  obtain ⟨y, -, h⟩ := bind_ok h
  split at h
  · exact isNumber_checked h
  · cases h
    exact .inr ⟨_, rfl⟩

theorem isNumber_divide (h : divide a b = .ok v) : IsNumber v := by
  obtain ⟨x, -, h⟩ := bind_ok h
  obtain ⟨y, -, h⟩ := bind_ok h
  split at h
  · split at h
    · cases h
    split at h
    · cases h
    split at h
    · exact isNumber_checked h
    · cases h
      exact .inr ⟨_, rfl⟩
  · cases h
  · cases h
    exact .inr ⟨_, rfl⟩

theorem isNumber_modulo (h : modulo a b = .ok v) : IsNumber v := by
  obtain ⟨x, -, h⟩ := bind_ok h
  obtain ⟨y, -, h⟩ := bind_ok h
  split at h
  · split at h
    · cases h
    split at h
    · cases h
    · exact isNumber_checked h
  · cases h
  · cases h
    exact .inr ⟨_, rfl⟩

theorem isTruth_ordered {accept : Ordering → Bool} (h : ordered op accept args = .ok v) : ∃ b, v = .bool b := by
  fun_induction ordered op accept args with
  | case1 a b rest ih =>
    obtain ⟨o, -, h⟩ := bind_ok h
    split at h
    · exact ih h
    · cases h
      exact ⟨_, rfl⟩
  | case2 =>
    cases h
    exact ⟨_, rfl⟩

theorem isTruth_isZero (h : isZero a = .ok v) : ∃ b, v = .bool b := by
  obtain ⟨x, -, h⟩ := bind_ok h
  split at h <;> cases h <;> exact ⟨_, rfl⟩

theorem isTruth_parity {wantEven : Bool} (h : parity op wantEven a = .ok v) : ∃ b, v = .bool b := by
  unfold parity at h
  split at h
  · cases h
    exact ⟨_, rfl⟩
  · cases h

end Arithmetic

/-! ### Hereditary properties -/

namespace Value

open Arithmetic (IsNumber)

variable {P : Value → Prop} (hP : Hereditary P) {op : String} {u v w x : Value} {args items : List Value}

include hP

theorem Hereditary.truth (h : ∃ b, v = .bool b) : P v := by
  obtain ⟨b, rfl⟩ := h
  exact hP.bool b

theorem Hereditary.number (h : IsNumber v) : P v := by
  obtain ⟨n, rfl⟩ | ⟨x, rfl⟩ := h
  · exact hP.int n
  · exact hP.float x

theorem Hereditary.foldFrom {f : Value → Value → Except Error Value} (hf : ∀ {a b v}, f a b = .ok v → IsNumber v)
    (hv : P v) (h : Arithmetic.foldFrom f v args = .ok w) : P w := by
  induction args generalizing v with
  | nil =>
    cases h
    exact hv
  | cons x xs ih =>
    rw [Arithmetic.foldFrom] at h
    obtain ⟨acc, hacc, h⟩ := bind_ok h
    exact ih (hP.number (hf hacc)) h

theorem Hereditary.difference (hargs : ∀ x ∈ args, P x) (h : Arithmetic.difference args = .ok v) : P v := by
  unfold Arithmetic.difference at h
  split at h
  · cases h
  · exact hP.number (Arithmetic.isNumber_arith h)
  · exact hP.foldFrom Arithmetic.isNumber_arith (hargs _ List.mem_cons_self) h

theorem Hereditary.quotient (hargs : ∀ x ∈ args, P x) (h : Arithmetic.quotient args = .ok v) : P v := by
  unfold Arithmetic.quotient at h
  split at h
  · cases h
  · exact hP.number (Arithmetic.isNumber_divide h)
  · exact hP.foldFrom Arithmetic.isNumber_divide (hargs _ List.mem_cons_self) h

/-! ### Sequences, maps and sets -/

theorem Hereditary.itemsOf (hv : P v) (h : v.items? = some items) : ∀ x ∈ items, P x := by
  cases v with
  | nil =>
    cases h
    simp
  | list =>
    cases h
    exact hP.list.mp hv
  | vector =>
    cases h
    exact hP.vector.mp hv
  | set =>
    cases h
    exact hP.members hv
  | map entries =>
    cases h
    intro x hx
    obtain ⟨e, he, rfl⟩ := List.mem_map.mp hx
    obtain ⟨hk, hw⟩ := hP.entries hv e he
    exact hP.vector.mpr (by simp [hk, hw])
  | str s =>
    cases h
    intro x hx
    obtain ⟨c, -, rfl⟩ := List.mem_map.mp hx
    exact hP.char c
  | _ => cases h

theorem Hereditary.elements (hv : P v) (h : Sequence.elements op v = .ok items) : ∀ x ∈ items, P x := by
  unfold Sequence.elements at h
  split at h
  · rename_i hitems
    cases h
    exact hP.itemsOf hv hitems
  · cases h

omit hP in
theorem prop_pairs (hargs : ∀ x ∈ args, P x) : ∀ e ∈ Sequence.pairs args, P e.1 ∧ P e.2 := by
  fun_induction Sequence.pairs args with
  | case1 k v rest ih =>
    simp only [List.forall_mem_cons] at hargs ⊢
    exact ⟨⟨hargs.1, hargs.2.1⟩, ih hargs.2.2⟩
  | case2 => simp

theorem Hereditary.hashMap (hargs : ∀ x ∈ args, P x) (h : Sequence.hashMap args = .ok v) : P v := by
  unfold Sequence.hashMap at h
  split at h
  · cases h
    exact hP.ofMap (prop_pairs hargs)
  · cases h

theorem Hereditary.assoc (hv : P v) (hargs : ∀ x ∈ args, P x) (h : Sequence.assoc v args = .ok w) : P w := by
  unfold Sequence.assoc at h
  split at h
  · cases h
  dsimp only at h
  split at h
  · cases h
    exact hP.addEntries (prop_pairs hargs) hv
  · cases h
    exact hP.addEntries (prop_pairs hargs) hP.emptyMap
  · cases h

theorem Hereditary.conjOne (hv : P v) (hx : P x) (h : Sequence.conjOne v x = .ok w) : P w := by
  unfold Sequence.conjOne at h
  split at h
  · cases h
    exact hP.list.mpr (by simpa using hx)
  · cases h
    exact hP.list.mpr (List.forall_mem_cons.mpr ⟨hx, hP.list.mp hv⟩)
  · cases h
    exact hP.vector.mpr (List.forall_mem_append.mpr ⟨hP.vector.mp hv, by simpa using hx⟩)
  · cases h
    exact hP.addMember hx hv
  · cases h
    have hpair := hP.vector.mp hx
    exact hP.addEntry (hpair _ (by simp)) (hpair _ (by simp)) hv
  · cases h
  · cases h

theorem Hereditary.conj (hv : P v) (hargs : ∀ x ∈ args, P x) (h : Sequence.conj v args = .ok w) : P w := by
  induction args generalizing v with
  | nil =>
    cases h
    exact hv
  | cons x xs ih =>
    obtain ⟨hx, hxs⟩ := List.forall_mem_cons.mp hargs
    rw [Sequence.conj] at h
    obtain ⟨v', hv', h⟩ := bind_ok h
    exact ih (hP.conjOne hv hx hv') hxs h

theorem Hereditary.concat (hargs : ∀ x ∈ args, P x) (h : Sequence.concat args = .ok items) : ∀ x ∈ items, P x := by
  induction args generalizing items with
  | nil =>
    cases h
    simp
  | cons x xs ih =>
    obtain ⟨hx, hxs⟩ := List.forall_mem_cons.mp hargs
    rw [Sequence.concat] at h
    obtain ⟨front, hfront, h⟩ := bind_ok h
    obtain ⟨back, hback, h⟩ := bind_ok h
    cases h
    exact List.forall_mem_append.mpr ⟨hP.elements hx hfront, ih hxs hback⟩

theorem Hereditary.listStar (hargs : ∀ x ∈ args, P x) (h : Sequence.listStar args = .ok items) :
    ∀ x ∈ items, P x := by
  fun_induction Sequence.listStar args generalizing items with
  | case1 => cases h
  | case2 last => exact hP.elements (hargs last List.mem_cons_self) h
  | case3 v vs _ ih =>
    obtain ⟨hv, hvs⟩ := List.forall_mem_cons.mp hargs
    obtain ⟨rest, hrest, h⟩ := bind_ok h
    cases h
    exact List.forall_mem_cons.mpr ⟨hv, ih hvs hrest⟩

omit hP in
theorem item_mem {i : Int64} (h : Sequence.item? items i = some x) : x ∈ items := by
  unfold Sequence.item? at h
  split at h
  · cases h
  · exact List.mem_of_getElem? h

omit hP in
theorem prop_nth {index : Value} {default? : Option Value} (hitems : ∀ x ∈ items, P x)
    (hdefault : ∀ d ∈ default?, P d) (h : Sequence.nth items index default? = .ok v) : P v := by
  unfold Sequence.nth at h
  split at h
  · cases h
  split at h
  · rename_i hitem
    cases h
    exact hitems _ (item_mem hitem)
  · cases h
    exact hdefault _ rfl
  · cases h

omit hP in
theorem mem_of_lookup {key : Value} {es : List (Value × Value)} (h : lookup? key es = some v) : ∃ e ∈ es, e.2 = v := by
  fun_induction lookup? key es with
  | case1 => cases h
  | case2 k w es _ =>
    cases h
    exact ⟨_, List.mem_cons_self, rfl⟩
  | case3 k w es _ ih =>
    obtain ⟨e, he, rfl⟩ := ih h
    exact ⟨e, List.mem_cons_of_mem _ he, rfl⟩

theorem Hereditary.get {key fallback : Value} (hv : P v) (hkey : P key) (hfallback : P fallback) :
    P (Sequence.get v key fallback) := by
  unfold Sequence.get
  split
  · rename_i entries
    cases h : lookup? key entries with
    | none => exact hfallback
    | some w =>
      obtain ⟨e, he, rfl⟩ := mem_of_lookup h
      exact (hP.entries hv e he).2
  · split
    · exact hkey
    · exact hfallback
  · rename_i items
    cases h : key.int?.bind (Sequence.item? items) with
    | none => exact hfallback
    | some w =>
      obtain ⟨i, -, hi⟩ := Option.bind_eq_some_iff.mp h
      exact hP.vector.mp hv w (item_mem hi)
  · exact hfallback

theorem Hereditary.listOrNil (hitems : ∀ x ∈ items, P x) : P (Sequence.listOrNil items) := by
  unfold Sequence.listOrNil
  split
  · exact hP.nil
  · exact hP.list.mpr hitems

/-! ### All of them -/

theorem Hereditary.argument (hargs : ∀ x ∈ args, P x) (i : Nat) : P (Machine.argument args i) := by
  unfold Machine.argument
  cases h : args[i]? with
  | none => exact hP.nil
  | some x => exact hargs x (List.mem_of_getElem? h)

theorem Hereditary.symbolFrom (h : Machine.symbolFrom x = .ok v) : P v := by
  cases x <;> cases h <;> exact hP.symbol _

theorem Hereditary.keywordFrom (h : Machine.keywordFrom x = .ok v) : P v := by
  cases x <;> cases h <;> exact hP.keyword _

theorem Hereditary.nameOf (h : Machine.nameOf x = .ok v) : P v := by
  cases x <;> cases h <;> exact hP.str _

/-- Built-in functions give the result every hereditary property that their arguments have. -/
theorem Hereditary.pureNative {n : Native} (hargs : ∀ x ∈ args, P x) (h : Machine.pureNative n args = .ok v) :
    P v := by
  have hx := hP.argument hargs 0
  have hy := hP.argument hargs 1
  have hbehind : ∀ x ∈ args.drop 1, P x := fun x hx => hargs x (List.mem_of_mem_drop hx)
  cases n <;> simp only [Machine.pureNative] at h
  case add => exact hP.foldFrom Arithmetic.isNumber_arith (hP.int _) h
  case mul => exact hP.foldFrom Arithmetic.isNumber_arith (hP.int _) h
  case sub => exact hP.difference hargs h
  case div => exact hP.quotient hargs h
  case mod => exact hP.number (Arithmetic.isNumber_modulo h)
  case inc | dec => exact hP.number (Arithmetic.isNumber_arith h)
  case lt | gt | le | ge => exact hP.truth (Arithmetic.isTruth_ordered h)
  case isZero => exact hP.truth (Arithmetic.isTruth_isZero h)
  case isEven | isOdd => exact hP.truth (Arithmetic.isTruth_parity h)
  case eq | notEq | identical | not | isNil | contains =>
    cases h
    exact hP.bool _
  case identity =>
    cases h
    exact hx
  case symbol => exact hP.symbolFrom h
  case keyword => exact hP.keywordFrom h
  case name => exact hP.nameOf h
  case list =>
    cases h
    exact hP.list.mpr hargs
  case vector =>
    cases h
    exact hP.vector.mpr hargs
  case hashMap => exact hP.hashMap hargs h
  case hashSet =>
    cases h
    exact hP.ofSet hargs
  case vec =>
    obtain ⟨items, hitems, rfl⟩ := map_ok h
    exact hP.vector.mpr (hP.elements hx hitems)
  case seq =>
    obtain ⟨items, hitems, rfl⟩ := map_ok h
    exact hP.listOrNil (hP.elements hx hitems)
  case count =>
    obtain ⟨items, -, rfl⟩ := map_ok h
    exact hP.int _
  case isEmpty =>
    obtain ⟨items, -, rfl⟩ := map_ok h
    exact hP.bool _
  case first | second =>
    obtain ⟨items, hitems, rfl⟩ := map_ok h
    exact hP.argument (hP.elements hx hitems) _
  case rest =>
    obtain ⟨items, hitems, rfl⟩ := map_ok h
    exact hP.list.mpr fun x hx' => hP.elements hx hitems x (List.mem_of_mem_drop hx')
  case next =>
    obtain ⟨items, hitems, rfl⟩ := map_ok h
    exact hP.listOrNil fun x hx' => hP.elements hx hitems x (List.mem_of_mem_drop hx')
  case nth =>
    obtain ⟨items, hitems, h⟩ := bind_ok h
    exact prop_nth (hP.elements hx hitems) (fun d hd => hargs d (List.mem_of_getElem? hd)) h
  case cons =>
    obtain ⟨items, hitems, rfl⟩ := map_ok h
    exact hP.list.mpr (List.forall_mem_cons.mpr ⟨hx, hP.elements hy hitems⟩)
  case conj => exact hP.conj hx hbehind h
  case concat =>
    obtain ⟨items, hitems, rfl⟩ := map_ok h
    exact hP.list.mpr (hP.concat hargs hitems)
  case listStar =>
    obtain ⟨items, hitems, rfl⟩ := map_ok h
    exact hP.list.mpr (hP.listStar hargs hitems)
  case get =>
    cases h
    exact hP.get hx hy (hP.argument hargs 2)
  case assoc => exact hP.assoc hx hbehind h
  all_goals cases h

end Value

namespace Machine

/-- Built-in functions make proper values of proper values. -/
theorem isProper_pureNative {n : Native} {args : List Value} {v : Value}
    (hargs : ∀ x ∈ args, x.isProper = true) (h : pureNative n args = .ok v) : v.isProper = true :=
  hereditary_isProper.pureNative hargs h

/-- The value is what code takes a value of the type for: for classes by its own class alone. -/
def Conforms (ty : Ty) (v : Value) : Prop :=
  match ty with
  | .void => False
  | .any => True
  | .prim .boolean => ∃ b, v = .bool b
  | .prim .long => ∃ n, v = .int n
  | .prim .double => ∃ x, v = .float x
  | .prim .char => ∃ c, v = .char c
  | .cls name => v.className? = some name

/-- What a built-in function returns is of the type it declares. -/
theorem conforms_pureNative {n : Native} {args : List Value} {v : Value} (h : pureNative n args = .ok v) :
    Conforms n.result v := by
  cases n <;> simp only [pureNative] at h
  case lt | gt | le | ge => exact Arithmetic.isTruth_ordered h
  case isZero => exact Arithmetic.isTruth_isZero h
  case isEven | isOdd => exact Arithmetic.isTruth_parity h
  case symbol => unfold symbolFrom at h; split at h <;> cases h <;> rfl
  case keyword => unfold keywordFrom at h; split at h <;> cases h <;> rfl
  case name => unfold nameOf at h; split at h <;> cases h <;> rfl
  case hashMap =>
    unfold Sequence.hashMap at h
    split at h <;> cases h
    rfl
  case vec | rest | cons | concat | listStar =>
    obtain ⟨items, -, rfl⟩ := map_ok h
    rfl
  case count =>
    obtain ⟨items, -, rfl⟩ := map_ok h
    exact ⟨_, rfl⟩
  case isEmpty =>
    obtain ⟨items, -, rfl⟩ := map_ok h
    exact ⟨_, rfl⟩
  case eq | notEq | identical | not | isNil | contains =>
    cases h
    exact ⟨_, rfl⟩
  case list | vector | hashSet =>
    cases h
    rfl
  all_goals trivial

end Machine

end LispMachine
