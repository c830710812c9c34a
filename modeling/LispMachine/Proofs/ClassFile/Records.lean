import Mathlib.Algebra.Group.Nat.Defs
import LispMachine.ClassFile.Decoder
import LispMachine.Libraries.Basic

/-! # Class files that decode back

Every record of a class file and every case of its variants decodes to itself from what it is written as.
`Json.Encodes` says this of one value together with the fact that its text reads back; there is one lemma
for each type, which rests on those for the types of its parts.  What is asked of a class file is that its
numbers fit the words they are kept in (`fits`) and that its doubles read back. -/

namespace LispMachine

/-! ### Written values -/

namespace Json

/-- The value stands for `a`: its text reads back, and it decodes to `a`. -/
structure Encodes [Libraries] {α : Type} (decode : Json → Option α) (j : Json) (a : α) : Prop where
  readable : j.Readable Double.WritesExactly
  decoded : decode j = some a

/-! Records of a few fields, each of which decodes. -/

section Fields

variable {α β γ δ : Type} {x : Option α} {y : Option β} {z : Option γ} {a : α} {b : β} {c : γ}

theorem two_fields {make : α → β → δ} (hx : x = some a) (hy : y = some b) :
    (do return make (← x) (← y)) = some (make a b) := by
  rw [hx, hy]
  rfl

theorem three_fields {make : α → β → γ → δ} (hx : x = some a) (hy : y = some b) (hz : z = some c) :
    (do return make (← x) (← y) (← z)) = some (make a b c) := by
  rw [hx, hy, hz]
  rfl

end Fields

section Encodes

variable {α : Type} {decode : Json → Option α} {encode : α → Json}

theorem encodes_str [Libraries] (s : String) : Encodes str? (.str s) s := ⟨trivial, rfl⟩

theorem encodes_bool [Libraries] (b : Bool) : Encodes bool? (.bool b) b := ⟨trivial, rfl⟩

theorem encodes_word [Libraries] {bits n : Nat} (hbits : bits ≤ 64) (hn : n < 2 ^ bits) :
    Encodes (word? bits) (.ofNat n) n := by
  have hword : 2 ^ bits ≤ 2 ^ 64 := Nat.pow_le_pow_right (by decide) hbits
  refine ⟨⟨?_, ?_⟩, ?_⟩
  · omega
  · omega
  · simp [word?, nat?, ofNat, hn]

theorem encodes_int64 [Libraries] (n : Int64) : Encodes int64? (.int n.toInt) n := by
  have hlow := n.le_toInt
  have hhigh := n.toInt_lt
  refine ⟨⟨by omega, by omega⟩, ?_⟩
  have hfits : (decide (-0x8000000000000000 ≤ n.toInt) && decide (n.toInt < 0x8000000000000000)) = true := by
    simp
    omega
  rw [int64?, int?, Option.bind_some, if_pos hfits, Int64.ofInt_toInt]

theorem encodes_char [Libraries] (c : Char) : Encodes char? (.str c.toString) c := by
  refine ⟨trivial, ?_⟩
  simp [char?, str?]

theorem encodes_double [Libraries] {x : Double} (hx : x.WritesExactly) : Encodes float? (.float x) x := ⟨hx, rfl⟩

theorem Encodes.cons [Libraries] {a : α} {as : List α} {j : Json} {js : List Json} (ha : Encodes decode j a)
    (has : Encodes (list? decode) (.arr js) as) : Encodes (list? decode) (.arr (j :: js)) (a :: as) := by
  refine ⟨⟨ha.readable, has.readable⟩, ?_⟩
  have hrest : js.mapM decode = some as := has.decoded
  simp [list?, arr?, List.mapM_cons, ha.decoded, hrest]

theorem encodes_list [Libraries] {as : List α} (h : ∀ a ∈ as, Encodes decode (encode a) a) :
    Encodes (list? decode) (.arr (as.map encode)) as := by
  induction as with
  | nil => exact ⟨trivial, rfl⟩
  | cons a as ih => exact (h a List.mem_cons_self).cons (ih fun a' ha' => h a' (List.mem_cons_of_mem a ha'))

/-- A member that may be absent, written as null when it is. -/
theorem optionalField?_ofOption [Libraries] {key : String} {j : Json} {o : Option α}
    (hmember : j.member? key = some (ofOption (o.map encode))) (h : ∀ a ∈ o, Encodes decode (encode a) a)
    (hnull : decode .null = none) : j.optionalField? key decode = some o := by
  cases o with
  | none => simp [optionalField?, optional?, hmember, ofOption]
  | some a =>
    have ha := (h a rfl).decoded
    have hwritten : encode a ≠ .null := by
      intro heq
      rw [heq, hnull] at ha
      cases ha
    have hoptional : j.optional? key = some (encode a) := by
      rw [optional?, hmember]
      simp [ofOption, hwritten]
    rw [optionalField?, hoptional]
    simp [ha]

theorem readable_ofOption [Libraries] {o : Option α} (h : ∀ a ∈ o, Encodes decode (encode a) a) :
    (ofOption (o.map encode)).Readable Double.WritesExactly := by
  cases o with
  | none => trivial
  | some a => exact (h a rfl).readable

theorem encodes_strings [Libraries] (ss : List String) : Encodes (list? str?) (.ofStrings ss) ss :=
  encodes_list fun s _ => encodes_str s

end Encodes

end Json

open Json

/-! ### Types and places -/

theorem Prim.encodes [Libraries] (p : Prim) : Encodes Prim.ofJson? p.toJson p := by
  cases p <;> exact ⟨trivial, rfl⟩

theorem Ty.encodes [Libraries] (ty : Ty) : Encodes Ty.ofJson? ty.toJson ty := by
  cases ty with
  | any => exact ⟨trivial, rfl⟩
  | void => exact ⟨trivial, rfl⟩
  | prim p => cases p <;> exact ⟨⟨trivial, trivial⟩, rfl⟩
  | cls name => exact ⟨⟨trivial, trivial⟩, rfl⟩

def Span.fits (s : Span) : Bool := s.line < 2 ^ 64 && s.col < 2 ^ 64 && s.index < 2 ^ 64

theorem Span.encodes [Libraries] {s : Span} (hfits : s.fits = true) : Encodes Span.ofJson? s.toJson s := by
  simp only [Span.fits, Bool.and_eq_true, decide_eq_true_eq] at hfits
  obtain ⟨⟨hline, hcol⟩, hindex⟩ := hfits
  have hline := encodes_word (Nat.le_refl 64) hline
  have hcol := encodes_word (Nat.le_refl 64) hcol
  have hindex := encodes_word (Nat.le_refl 64) hindex
  exact ⟨⟨hline.readable, hcol.readable, hindex.readable, trivial⟩,
    three_fields hline.decoded hcol.decoded hindex.decoded⟩

/-! ### Data -/

def Atom.doubles : Atom → List Double
  | .float x => [x]
  | _ => []

theorem Atom.encodes [Libraries] {a : Atom} (hdoubles : ∀ x ∈ a.doubles, x.WritesExactly) :
    Encodes Atom.ofJson? a.toJson a := by
  cases a with
  | nil => exact ⟨trivial, rfl⟩
  | bool b => exact ⟨⟨trivial, trivial⟩, rfl⟩
  | char c =>
    have hc := encodes_char c
    exact ⟨⟨trivial, trivial⟩, congrArg (Option.map Atom.char) hc.decoded⟩
  | int n =>
    have hn := encodes_int64 n
    exact ⟨⟨hn.readable, trivial⟩, congrArg (Option.map Atom.int) hn.decoded⟩
  | float x =>
    have hx := encodes_double (hdoubles x List.mem_cons_self)
    exact ⟨⟨hx.readable, trivial⟩, rfl⟩
  | str s => exact ⟨⟨trivial, trivial⟩, rfl⟩
  | regex s => exact ⟨⟨trivial, trivial⟩, rfl⟩
  | keyword s => exact ⟨⟨trivial, trivial⟩, rfl⟩
  | symbol s => exact ⟨⟨trivial, trivial⟩, rfl⟩

namespace Datum

mutual

/-- The doubles in a datum. -/
def doubles : Datum → List Double
  | .atom a _ => a.doubles
  | .list items _ => itemDoubles items
  | .vector items _ => itemDoubles items
  | .set items _ => itemDoubles items
  | .map entries _ => entryDoubles entries

def itemDoubles : List Datum → List Double
  | [] => []
  | d :: ds => d.doubles ++ itemDoubles ds

def entryDoubles : List (Datum × Datum) → List Double
  | [] => []
  | (k, v) :: es => k.doubles ++ v.doubles ++ entryDoubles es

end

mutual

/-- All places in a datum fit their words. -/
def fits : Datum → Bool
  | .atom _ i => i.span.fits
  | .list items i => i.span.fits && itemsFit items
  | .vector items i => i.span.fits && itemsFit items
  | .set items i => i.span.fits && itemsFit items
  | .map entries i => i.span.fits && entriesFit entries

def itemsFit : List Datum → Bool
  | [] => true
  | d :: ds => d.fits && itemsFit ds

def entriesFit : List (Datum × Datum) → Bool
  | [] => true
  | (k, v) :: es => k.fits && v.fits && entriesFit es

end

theorem readable_withInfoJson [Libraries] {contents : Json} {i : Info}
    (hcontents : contents.Readable Double.WritesExactly) (hspan : i.span.fits = true) :
    (withInfoJson contents i).Readable Double.WritesExactly := by
  replace hspan := (Span.encodes hspan).readable
  have hflags := (encodes_strings i.flags).readable
  refine ⟨hcontents, hspan, ?_⟩
  obtain ⟨span, hint, flags⟩ := i
  cases hint with
  | none =>
    cases flags with
    | nil => trivial
    | cons f fs => exact ⟨hflags, trivial⟩
  | some h =>
    cases flags with
    | nil => exact ⟨trivial, trivial⟩
    | cons f fs => exact ⟨trivial, hflags, trivial⟩

theorem member?_kind (contents : Json) (i : Info) :
    (withInfoJson contents i).member? "kind" = some contents := by
  unfold withInfoJson infoMembers
  cases i.hint with
  | none =>
    cases i.flags with
    | nil => rfl
    | cons f fs => rfl
  | some h =>
    cases i.flags with
    | nil => rfl
    | cons f fs => rfl

theorem infoOfJson?_withInfoJson [Libraries] (contents : Json) {i : Info} (hspan : i.span.fits = true) :
    infoOfJson? (withInfoJson contents i) = some i := by
  replace hspan := (Span.encodes hspan).decoded
  have hflags := (encodes_strings i.flags).decoded
  obtain ⟨span, hint, flags⟩ := i
  dsimp only at hspan hflags
  cases hint with
  | none =>
    cases flags with
    | nil => simp [infoOfJson?, withInfoJson, infoMembers, field?, optionalField?, optional?, member?, hspan]
    | cons f fs =>
      simp [infoOfJson?, withInfoJson, infoMembers, field?, optionalField?, optional?, member?, hspan, hflags]
  | some h =>
    cases flags with
    | nil =>
      simp [infoOfJson?, withInfoJson, infoMembers, field?, optionalField?, optional?, member?, hspan, str?]
    | cons f fs =>
      simp [infoOfJson?, withInfoJson, infoMembers, field?, optionalField?, optional?, member?, hspan, hflags,
        str?]

/-- Decoding goes by the contents once the rest is known. -/
theorem ofJsonWithin?_withInfoJson [Libraries] (n : Nat) (contents : Json) {i : Info} (hspan : i.span.fits = true) :
    ofJsonWithin? (n + 1) (withInfoJson contents i)
      = match contents.variant? with
        | some ("List", some items) => (items.list? (ofJsonWithin? n)).map fun ds => .list ds i
        | some ("Vector", some items) => (items.list? (ofJsonWithin? n)).map fun ds => .vector ds i
        | some ("Set", some items) => (items.list? (ofJsonWithin? n)).map fun ds => .set ds i
        | some ("Map", some entries) =>
          (entries.list? (ofJsonWithin?.pairOfJson? (ofJsonWithin? n))).map fun es => .map es i
        | _ => (Atom.ofJson? contents).map fun a => .atom a i := by
  rw [ofJsonWithin?, infoOfJson?_withInfoJson contents hspan, member?_kind]
  rfl

/-- The items of a collection nest less deep than the collection. -/
theorem depths_lt {tag : String} {items : List Json} {i : Info} {n : Nat}
    (h : (withInfoJson (.tagged tag (.arr items)) i).depth < n + 1) : Json.depth.depths items < n := by
  have hcontents : (Json.tagged tag (.arr items)).depth < n :=
    Nat.lt_of_le_of_lt (Nat.le_max_left ..) (Nat.lt_of_succ_lt_succ h)
  have hitems : Json.depth.depths items + 1 ≤ Json.depth.memberDepths [(tag, .arr items)] :=
    Nat.le_max_left ..
  exact Nat.lt_of_le_of_lt (Nat.le_succ_of_le (Nat.le_of_succ_le hitems)) hcontents

/-- A collection of data is written as its items under a tag that says what is made of them. -/
theorem encodes_collection [Libraries] {α : Type} {decode : Json → Option α} {n : Nat} {tag : String} {js : List Json}
    {as : List α} {i : Info} (make : List α → Datum) (has : Encodes (Json.list? decode) (.arr js) as)
    (hspan : i.span.fits = true)
    (hmake : ofJsonWithin? (n + 1) (withInfoJson (.tagged tag (.arr js)) i)
      = ((Json.arr js).list? decode).map make) :
    Encodes (ofJsonWithin? (n + 1)) (withInfoJson (.tagged tag (.arr js)) i) (make as) := by
  refine ⟨readable_withInfoJson ⟨has.readable, trivial⟩ hspan, ?_⟩
  rw [hmake, has.decoded]
  rfl

mutual

theorem encodesWithin [Libraries] : ∀ {d : Datum} {n : Nat}, d.fits = true → (∀ x ∈ d.doubles, x.WritesExactly) →
    d.toJson.depth < n → Encodes (ofJsonWithin? n) d.toJson d
  | .atom a i, n + 1, hfits, hdoubles, _ => by
    have ha := Atom.encodes hdoubles
    refine ⟨readable_withInfoJson ha.readable hfits, ?_⟩
    rw [toJson, ofJsonWithin?_withInfoJson n _ hfits]
    have hatom := congrArg (Option.map fun a => Datum.atom a i) ha.decoded
    cases a <;> exact hatom
  | .list items i, n + 1, hfits, hdoubles, hdepth => by
    rw [fits, Bool.and_eq_true] at hfits
    have hitems := encodesItems hfits.2 hdoubles (depths_lt hdepth)
    exact encodes_collection (Datum.list · i) hitems hfits.1 (ofJsonWithin?_withInfoJson n _ hfits.1)
  | .vector items i, n + 1, hfits, hdoubles, hdepth => by
    rw [fits, Bool.and_eq_true] at hfits
    have hitems := encodesItems hfits.2 hdoubles (depths_lt hdepth)
    exact encodes_collection (Datum.vector · i) hitems hfits.1 (ofJsonWithin?_withInfoJson n _ hfits.1)
  | .set items i, n + 1, hfits, hdoubles, hdepth => by
    rw [fits, Bool.and_eq_true] at hfits
    have hitems := encodesItems hfits.2 hdoubles (depths_lt hdepth)
    exact encodes_collection (Datum.set · i) hitems hfits.1 (ofJsonWithin?_withInfoJson n _ hfits.1)
  | .map entries i, n + 1, hfits, hdoubles, hdepth => by
    rw [fits, Bool.and_eq_true] at hfits
    have hentries := encodesEntries hfits.2 hdoubles (depths_lt hdepth)
    exact encodes_collection (Datum.map · i) hentries hfits.1 (ofJsonWithin?_withInfoJson n _ hfits.1)

theorem encodesItems [Libraries] : ∀ {ds : List Datum} {n : Nat}, itemsFit ds = true →
    (∀ x ∈ itemDoubles ds, x.WritesExactly) → Json.depth.depths (toJsons ds) < n →
    Encodes (Json.list? (ofJsonWithin? n)) (.arr (toJsons ds)) ds
  | [], n, _, _, _ => ⟨trivial, rfl⟩
  | d :: ds, n, hfits, hdoubles, hdepth => by
    rw [itemsFit, Bool.and_eq_true] at hfits
    rw [itemDoubles, List.forall_mem_append] at hdoubles
    obtain ⟨hhead, htail⟩ := Nat.max_lt.mp hdepth
    exact (encodesWithin hfits.1 hdoubles.1 hhead).cons (encodesItems hfits.2 hdoubles.2 htail)

theorem encodesEntries [Libraries] : ∀ {es : List (Datum × Datum)} {n : Nat}, entriesFit es = true →
    (∀ x ∈ entryDoubles es, x.WritesExactly) → Json.depth.depths (toJsonPairs es) < n →
    Encodes (Json.list? (ofJsonWithin?.pairOfJson? (ofJsonWithin? n))) (.arr (toJsonPairs es)) es
  | [], n, _, _, _ => ⟨trivial, rfl⟩
  | (k, v) :: es, n, hfits, hdoubles, hdepth => by
    rw [entriesFit, Bool.and_eq_true, Bool.and_eq_true] at hfits
    rw [entryDoubles, List.forall_mem_append, List.forall_mem_append] at hdoubles
    obtain ⟨hhead, htail⟩ := Nat.max_lt.mp hdepth
    obtain ⟨hkeyDepth, hvalueDepth⟩ := Nat.max_lt.mp (Nat.lt_of_succ_lt hhead)
    have hkey := encodesWithin hfits.1.1 hdoubles.1.1 hkeyDepth
    have hvalue := encodesWithin hfits.1.2 hdoubles.1.2 (Nat.max_lt.mp hvalueDepth).1
    have hpair : Encodes (ofJsonWithin?.pairOfJson? (ofJsonWithin? n)) (.arr [toJson k, toJson v]) (k, v) :=
      ⟨⟨hkey.readable, hvalue.readable, trivial⟩, two_fields hkey.decoded hvalue.decoded⟩
    exact hpair.cons (encodesEntries hfits.2 hdoubles.2 htail)

end

theorem encodes [Libraries] {d : Datum} (hfits : d.fits = true) (hdoubles : ∀ x ∈ d.doubles, x.WritesExactly) :
    Encodes Datum.ofJson? d.toJson d := by
  have hd := encodesWithin hfits hdoubles (Nat.lt_succ_self _)
  exact ⟨hd.readable, hd.decoded⟩

end Datum

/-! ### Constants and instructions -/

theorem CollectionKind.encodes [Libraries] (k : CollectionKind) : Encodes CollectionKind.ofJson? k.toJson k := by
  cases k <;> exact ⟨trivial, rfl⟩

namespace Constant

def doubles : Constant → List Double
  | .double x => [x]
  | .quoted d => d.doubles
  | _ => []

def fits : Constant → Bool
  | .quoted d => d.fits
  | _ => true

theorem encodes [Libraries] {c : Constant} (hfits : c.fits = true) (hdoubles : ∀ x ∈ c.doubles, x.WritesExactly) :
    Encodes Constant.ofJson? c.toJson c := by
  cases c with
  | nil => exact ⟨trivial, rfl⟩
  | bool b => exact ⟨⟨trivial, trivial⟩, rfl⟩
  | char c => exact ⟨⟨trivial, trivial⟩, congrArg (Option.map Constant.char) (encodes_char c).decoded⟩
  | long n =>
    have hn := encodes_int64 n
    exact ⟨⟨hn.readable, trivial⟩, congrArg (Option.map Constant.long) hn.decoded⟩
  | double x => exact ⟨⟨hdoubles x List.mem_cons_self, trivial⟩, rfl⟩
  | str s => exact ⟨⟨trivial, trivial⟩, rfl⟩
  | keyword s => exact ⟨⟨trivial, trivial⟩, rfl⟩
  | symbol s => exact ⟨⟨trivial, trivial⟩, rfl⟩
  | regex s => exact ⟨⟨trivial, trivial⟩, rfl⟩
  | cls s => exact ⟨⟨trivial, trivial⟩, rfl⟩
  | nameSpace s => exact ⟨⟨trivial, trivial⟩, rfl⟩
  | quoted d =>
    have hd := Datum.encodes hfits hdoubles
    exact ⟨⟨hd.readable, trivial⟩, congrArg (Option.map Constant.quoted) hd.decoded⟩

end Constant

theorem VarFlags.encodes [Libraries] (f : VarFlags) : Encodes VarFlags.ofJson? f.toJson f :=
  ⟨⟨trivial, trivial, trivial, trivial, trivial⟩, rfl⟩

theorem Ty.encodes_list [Libraries] (ts : List Ty) : Encodes (Json.list? Ty.ofJson?) (Ty.listToJson ts) ts :=
  Json.encodes_list fun t _ => t.encodes

theorem encodes_label [Libraries] {l : Label} (hl : l < 2 ^ 32) : Encodes labelOfJson? (.ofNat l) l :=
  encodes_word (by decide) hl

theorem encodes_labels [Libraries] {ls : List Label} (hls : ∀ l ∈ ls, l < 2 ^ 32) :
    Encodes (Json.list? labelOfJson?) (labelsToJson ls) ls :=
  Json.encodes_list fun l hl => encodes_label (hls l hl)

theorem encodes_slot [Libraries] {slot : Nat} (hslot : slot < 2 ^ 16) : Encodes slotOfJson? (.ofNat slot) slot :=
  encodes_word (by decide) hslot

namespace Instruction

def doubles : Instruction → List Double
  | .const c => c.doubles
  | _ => []

/-- Slots and counts fit 16 bits, labels and call sites 32. -/
def fits : Instruction → Bool
  | .const c => c.fits
  | .load slot _ => slot < 2 ^ 16
  | .store slot _ => slot < 2 ^ 16
  | .invokeDynamic site => site < 2 ^ 32
  | .ifFalse l => l < 2 ^ 32
  | .goto l => l < 2 ^ 32
  | .lookupSwitch _ targets default => targets.all (· < 2 ^ 32) && default < 2 ^ 32
  | .tableSwitch _ targets default => targets.all (· < 2 ^ 32) && default < 2 ^ 32
  | .makeCollection _ count => count < 2 ^ 16
  | _ => true

theorem encodes [Libraries] {i : Instruction} (hfits : i.fits = true) (hdoubles : ∀ x ∈ i.doubles, x.WritesExactly) :
    Encodes Instruction.ofJson? i.toJson i := by
  cases i with
  | nop => exact ⟨trivial, rfl⟩
  | const c =>
    have hc := Constant.encodes hfits hdoubles
    exact ⟨⟨hc.readable, trivial⟩, congrArg (Option.map Instruction.const) hc.decoded⟩
  | load slot ty =>
    have hslot := encodes_slot (of_decide_eq_true hfits)
    have hty := ty.encodes
    exact ⟨⟨⟨hslot.readable, hty.readable, trivial⟩, trivial⟩, two_fields hslot.decoded hty.decoded⟩
  | store slot ty =>
    have hslot := encodes_slot (of_decide_eq_true hfits)
    have hty := ty.encodes
    exact ⟨⟨⟨hslot.readable, hty.readable, trivial⟩, trivial⟩, two_fields hslot.decoded hty.decoded⟩
  | getField owner name ty =>
    have hty := ty.encodes
    exact ⟨⟨⟨trivial, trivial, hty.readable, trivial⟩, trivial⟩, three_fields rfl rfl hty.decoded⟩
  | putField owner name ty =>
    have hty := ty.encodes
    exact ⟨⟨⟨trivial, trivial, hty.readable, trivial⟩, trivial⟩, three_fields rfl rfl hty.decoded⟩
  | getStatic owner name ty =>
    have hty := ty.encodes
    exact ⟨⟨⟨trivial, trivial, hty.readable, trivial⟩, trivial⟩, three_fields rfl rfl hty.decoded⟩
  | varRef space name => exact ⟨⟨⟨trivial, trivial, trivial⟩, trivial⟩, rfl⟩
  | defVar space name flags init =>
    exact ⟨⟨⟨trivial, trivial, flags.encodes.readable, trivial, trivial⟩, trivial⟩, rfl⟩
  | setVar space name => exact ⟨⟨⟨trivial, trivial, trivial⟩, trivial⟩, rfl⟩
  | invokeDynamic site =>
    have hsite := encodes_label (of_decide_eq_true hfits)
    exact ⟨⟨hsite.readable, trivial⟩, congrArg (Option.map Instruction.invokeDynamic) hsite.decoded⟩
  | invokeSuper owner params =>
    have hparams := Ty.encodes_list params
    exact ⟨⟨⟨trivial, hparams.readable, trivial⟩, trivial⟩, two_fields rfl hparams.decoded⟩
  | newInstance cls params =>
    have hparams := Ty.encodes_list params
    exact ⟨⟨⟨trivial, hparams.readable, trivial⟩, trivial⟩, two_fields rfl hparams.decoded⟩
  | box p => exact ⟨⟨trivial, trivial⟩, congrArg (Option.map Instruction.box) p.encodes.decoded⟩
  | unbox p => exact ⟨⟨trivial, trivial⟩, congrArg (Option.map Instruction.unbox) p.encodes.decoded⟩
  | convert source target =>
    exact ⟨⟨⟨trivial, trivial, trivial⟩, trivial⟩, two_fields source.encodes.decoded target.encodes.decoded⟩
  | checkCast cls => exact ⟨⟨trivial, trivial⟩, rfl⟩
  | truthy => exact ⟨trivial, rfl⟩
  | hashCode => exact ⟨trivial, rfl⟩
  | equiv => exact ⟨trivial, rfl⟩
  | instanceOf cls => exact ⟨⟨trivial, trivial⟩, rfl⟩
  | ifFalse l =>
    have hl := encodes_label (of_decide_eq_true hfits)
    exact ⟨⟨hl.readable, trivial⟩, congrArg (Option.map Instruction.ifFalse) hl.decoded⟩
  | goto l =>
    have hl := encodes_label (of_decide_eq_true hfits)
    exact ⟨⟨hl.readable, trivial⟩, congrArg (Option.map Instruction.goto) hl.decoded⟩
  | lookupSwitch keys targets default =>
    simp only [fits, Bool.and_eq_true, List.all_eq_true, decide_eq_true_eq] at hfits
    have hkeys := encodes_list fun k (_ : k ∈ keys) => encodes_int64 k
    have htargets := encodes_labels hfits.1
    have hdefault := encodes_label hfits.2
    exact ⟨⟨⟨hkeys.readable, htargets.readable, hdefault.readable, trivial⟩, trivial⟩,
      three_fields hkeys.decoded htargets.decoded hdefault.decoded⟩
  | tableSwitch low targets default =>
    simp only [fits, Bool.and_eq_true, List.all_eq_true, decide_eq_true_eq] at hfits
    have hlow := encodes_int64 low
    have htargets := encodes_labels hfits.1
    have hdefault := encodes_label hfits.2
    exact ⟨⟨⟨hlow.readable, htargets.readable, hdefault.readable, trivial⟩, trivial⟩,
      three_fields hlow.decoded htargets.decoded hdefault.decoded⟩
  | makeCollection kind count =>
    have hcount := encodes_slot (of_decide_eq_true hfits)
    exact ⟨⟨⟨trivial, hcount.readable, trivial⟩, trivial⟩, two_fields kind.encodes.decoded hcount.decoded⟩
  | buildSpliced kind splices =>
    have hsplices := encodes_list fun b (_ : b ∈ splices) => encodes_bool b
    exact ⟨⟨⟨trivial, hsplices.readable, trivial⟩, trivial⟩, two_fields kind.encodes.decoded hsplices.decoded⟩
  | switchSpace name => exact ⟨⟨trivial, trivial⟩, rfl⟩
  | importClass name => exact ⟨⟨trivial, trivial⟩, rfl⟩
  | pop => exact ⟨trivial, rfl⟩
  | pop2 => exact ⟨trivial, rfl⟩
  | dup => exact ⟨trivial, rfl⟩
  | throwTop => exact ⟨trivial, rfl⟩
  | ret ty =>
    have hty := ty.encodes
    exact ⟨⟨hty.readable, trivial⟩, congrArg (Option.map Instruction.ret) hty.decoded⟩

end Instruction

/-! ### Code -/

def Handler.fits (h : Handler) : Bool :=
  h.first < 2 ^ 64 && h.last < 2 ^ 64 && h.target < 2 ^ 64 && h.stackDepth < 2 ^ 16

theorem Handler.encodes [Libraries] {h : Handler} (hfits : h.fits = true) : Encodes Handler.ofJson? h.toJson h := by
  simp only [Handler.fits, Bool.and_eq_true, decide_eq_true_eq] at hfits
  obtain ⟨⟨⟨hfirst, hlast⟩, htarget⟩, hdepth⟩ := hfits
  have hfirst := encodes_word (Nat.le_refl 64) hfirst
  have hlast := encodes_word (Nat.le_refl 64) hlast
  have htarget := encodes_word (Nat.le_refl 64) htarget
  have hdepth := encodes_slot hdepth
  have hcatches : h.toJson.optionalField? "catch" str? = some h.catches :=
    optionalField?_ofOption rfl (fun s _ => encodes_str s) rfl
  refine ⟨⟨hfirst.readable, hlast.readable, htarget.readable, readable_ofOption fun s _ => encodes_str s,
    hdepth.readable, trivial⟩, ?_⟩
  rw [Handler.ofJson?, hcatches]
  simp [Handler.toJson, field?, member?, hfirst.decoded, hlast.decoded, htarget.decoded, hdepth.decoded]

def LocalVar.fits (v : LocalVar) : Bool := v.slot < 2 ^ 16 && v.first < 2 ^ 64 && v.last < 2 ^ 64

theorem LocalVar.encodes [Libraries] {v : LocalVar} (hfits : v.fits = true) : Encodes LocalVar.ofJson? v.toJson v := by
  simp only [LocalVar.fits, Bool.and_eq_true, decide_eq_true_eq] at hfits
  obtain ⟨⟨hslot, hfirst⟩, hlast⟩ := hfits
  have hslot := encodes_slot hslot
  have hty := v.ty.encodes
  have hfirst := encodes_word (Nat.le_refl 64) hfirst
  have hlast := encodes_word (Nat.le_refl 64) hlast
  refine ⟨⟨trivial, hslot.readable, hty.readable, hfirst.readable, hlast.readable, trivial⟩, ?_⟩
  simp [LocalVar.ofJson?, LocalVar.toJson, field?, member?, str?, hslot.decoded, hty.decoded, hfirst.decoded,
    hlast.decoded]

/-- A label stands nowhere or before the position that stands for nowhere. -/
theorem encodes_position [Libraries] {l : Option Nat} (hl : ∀ n ∈ l, n < unplacedPosition) :
    Encodes positionOfJson? (.ofNat (l.getD unplacedPosition)) l := by
  cases l with
  | none => exact ⟨⟨by decide, by decide⟩, rfl⟩
  | some n =>
    have hn : n < unplacedPosition := hl n rfl
    have hword := encodes_word (Nat.le_refl 64) (Nat.lt_trans hn (by decide))
    refine ⟨hword.readable, ?_⟩
    rw [positionOfJson?, Option.getD_some, hword.decoded, Option.map_some, if_neg (Nat.ne_of_lt hn)]

namespace Code

def doubles (c : Code) : List Double := c.instructions.toList.flatMap Instruction.doubles

def fits (c : Code) : Bool :=
  c.instructions.toList.all Instruction.fits && c.labels.toList.all (fun l => l.all (· < unplacedPosition))
    && c.handlers.all Handler.fits && c.localVars.all LocalVar.fits && c.maxStack < 2 ^ 16
    && c.maxLocals < 2 ^ 16

theorem encodes [Libraries] {c : Code} (hfits : c.fits = true) (hdoubles : ∀ x ∈ c.doubles, x.WritesExactly) :
    Encodes Code.ofJson? c.toJson c := by
  simp only [Code.fits, Bool.and_eq_true, List.all_eq_true, decide_eq_true_eq] at hfits
  obtain ⟨⟨⟨⟨⟨hinstructions, hlabels⟩, hhandlers⟩, hlocals⟩, hstack⟩, hslots⟩ := hfits
  have hinstructions := Json.encodes_list fun i hi => Instruction.encodes (hinstructions i hi) fun x hx =>
    hdoubles x (List.mem_flatMap.mpr ⟨i, hi, hx⟩)
  have hlabels := Json.encodes_list fun l hl => encodes_position
    (by simpa [Option.all_eq_true] using hlabels l hl)
  have hhandlers := Json.encodes_list fun h hh => Handler.encodes (hhandlers h hh)
  have hlocals := Json.encodes_list fun v hv => LocalVar.encodes (hlocals v hv)
  have hstack := encodes_slot hstack
  have hslots := encodes_slot hslots
  refine ⟨⟨hinstructions.readable, hlabels.readable, hhandlers.readable, hlocals.readable, hstack.readable,
    hslots.readable, trivial⟩, ?_⟩
  simp [Code.ofJson?, Code.toJson, field?, member?, hinstructions.decoded, hlabels.decoded, hhandlers.decoded,
    hlocals.decoded, hstack.decoded, hslots.decoded]

end Code

/-! ### Call sites -/

theorem SiteKind.encodes [Libraries] (k : SiteKind) : Encodes SiteKind.ofJson? k.toJson k := by
  cases k with
  | globalValue space name => exact ⟨⟨⟨trivial, trivial, trivial⟩, trivial⟩, rfl⟩
  | globalCall space name => exact ⟨⟨⟨trivial, trivial, trivial⟩, trivial⟩, rfl⟩
  | invoke => exact ⟨trivial, rfl⟩
  | instanceMethod name => exact ⟨⟨⟨trivial, trivial⟩, trivial⟩, rfl⟩
  | staticMethod cls name => exact ⟨⟨⟨trivial, trivial, trivial⟩, trivial⟩, rfl⟩
  | instanceField name => exact ⟨⟨⟨trivial, trivial⟩, trivial⟩, rfl⟩
  | construct cls => exact ⟨⟨⟨trivial, trivial⟩, trivial⟩, rfl⟩

namespace SiteSpec

def doubles (s : SiteSpec) : List Double := s.constant.toList.flatMap Constant.doubles

def fits (s : SiteSpec) : Bool :=
  s.anyMask < 2 ^ 64 && s.constant.all Constant.fits && s.span.all Span.fits

theorem encodes [Libraries] {s : SiteSpec} (hfits : s.fits = true) (hdoubles : ∀ x ∈ s.doubles, x.WritesExactly) :
    Encodes SiteSpec.ofJson? s.toJson s := by
  simp only [SiteSpec.fits, Bool.and_eq_true, Option.all_eq_true, decide_eq_true_eq] at hfits
  obtain ⟨⟨hmask, hconstant⟩, hspan⟩ := hfits
  have hkind := s.kind.encodes
  have hargs := Ty.encodes_list s.argTypes
  have hret := s.ret.encodes
  have hmask := encodes_word (Nat.le_refl 64) hmask
  have hconstants : ∀ c ∈ s.constant, Encodes Constant.ofJson? c.toJson c := fun c hc =>
    Constant.encodes (hconstant c hc) fun x hx =>
      hdoubles x (List.mem_flatMap.mpr ⟨c, Option.mem_toList.mpr hc, hx⟩)
  have hspans : ∀ p ∈ s.span, Encodes Span.ofJson? p.toJson p := fun p hp => Span.encodes (hspan p hp)
  have hconstantField : s.toJson.optionalField? "constant" Constant.ofJson? = some s.constant :=
    optionalField?_ofOption rfl hconstants rfl
  have hspanField : s.toJson.optionalField? "span" Span.ofJson? = some s.span :=
    optionalField?_ofOption rfl hspans rfl
  refine ⟨⟨hkind.readable, hargs.readable, hret.readable, hmask.readable, readable_ofOption hconstants,
    readable_ofOption hspans, trivial⟩, ?_⟩
  rw [SiteSpec.ofJson?, hconstantField, hspanField]
  simp [SiteSpec.toJson, field?, member?, hkind.decoded, hargs.decoded, hret.decoded, hmask.decoded]

end SiteSpec

/-! ### Classes -/

theorem ClassFlags.encodes [Libraries] (f : ClassFlags) : Encodes ClassFlags.ofJson? f.toJson f :=
  ⟨⟨trivial, trivial, trivial, trivial⟩, rfl⟩

namespace FieldDef

def doubles (f : FieldDef) : List Double := f.constant.toList.flatMap Constant.doubles

def fits (f : FieldDef) : Bool := f.constant.all Constant.fits

theorem encodes [Libraries] {f : FieldDef} (hfits : f.fits = true) (hdoubles : ∀ x ∈ f.doubles, x.WritesExactly) :
    Encodes FieldDef.ofJson? f.toJson f := by
  have hty := f.ty.encodes
  obtain ⟨name, ty, isStatic, isMutable, constant⟩ := f
  cases constant with
  | none =>
    refine ⟨⟨trivial, hty.readable, trivial, trivial, trivial⟩, ?_⟩
    simp [FieldDef.ofJson?, FieldDef.toJson, field?, optionalField?, optional?, member?, str?, bool?,
      hty.decoded]
  | some c =>
    have hc := Constant.encodes hfits fun x hx => hdoubles x (by simpa [doubles] using hx)
    let f : FieldDef := ⟨name, ty, isStatic, isMutable, some c⟩
    have hmember : f.toJson.member? "constant" = some (ofOption (f.constant.map Constant.toJson)) := rfl
    have hfield : f.toJson.optionalField? "constant" Constant.ofJson? = some (some c) :=
      optionalField?_ofOption hmember (fun c' hc' => by cases hc'; exact hc) rfl
    refine ⟨⟨trivial, hty.readable, trivial, trivial, hc.readable, trivial⟩, ?_⟩
    rw [FieldDef.ofJson?, hfield]
    simp [FieldDef.toJson, field?, member?, str?, bool?, hty.decoded]

end FieldDef

namespace MethodDef

def doubles (m : MethodDef) : List Double := m.code.toList.flatMap Code.doubles

def fits (m : MethodDef) : Bool := m.code.all Code.fits

theorem encodes [Libraries] {m : MethodDef} (hfits : m.fits = true) (hdoubles : ∀ x ∈ m.doubles, x.WritesExactly) :
    Encodes MethodDef.ofJson? m.toJson m := by
  have hparams := Ty.encodes_list m.params
  have hnames := encodes_strings m.paramNames
  have hret := m.ret.encodes
  have hcodes : ∀ c ∈ m.code, Encodes Code.ofJson? c.toJson c := fun c hc =>
    Code.encodes ((Option.all_eq_true ..).mp hfits c hc) fun x hx =>
      hdoubles x (List.mem_flatMap.mpr ⟨c, Option.mem_toList.mpr hc, hx⟩)
  have hcode : m.toJson.optionalField? "code" Code.ofJson? = some m.code :=
    optionalField?_ofOption rfl hcodes rfl
  refine ⟨⟨trivial, hparams.readable, hnames.readable, hret.readable, trivial, trivial,
    readable_ofOption hcodes, trivial⟩, ?_⟩
  rw [MethodDef.ofJson?, hcode]
  simp [MethodDef.toJson, field?, member?, str?, bool?, hparams.decoded, hnames.decoded, hret.decoded]

end MethodDef

namespace ClassFile

/-- The doubles in a class file. -/
def doubles (c : ClassFile) : List Double :=
  c.fields.flatMap FieldDef.doubles ++ c.methods.flatMap MethodDef.doubles ++ c.sites.flatMap SiteSpec.doubles

/-- All numbers in a class file fit the words they are kept in. -/
def fits (c : ClassFile) : Bool :=
  c.fields.all FieldDef.fits && c.methods.all MethodDef.fits && c.sites.all SiteSpec.fits

theorem encodes [Libraries] {c : ClassFile} (hfits : c.fits = true) (hdoubles : ∀ x ∈ c.doubles, x.WritesExactly) :
    Encodes ClassFile.ofJson? c.toJson c := by
  simp only [ClassFile.fits, Bool.and_eq_true, List.all_eq_true] at hfits
  rw [ClassFile.doubles, List.forall_mem_append, List.forall_mem_append] at hdoubles
  have hinterfaces := encodes_strings c.interfaces
  have hflags := c.flags.encodes
  have hfields := encodes_list fun f hf => FieldDef.encodes (hfits.1.1 f hf) fun x hx =>
    hdoubles.1.1 x (List.mem_flatMap.mpr ⟨f, hf, hx⟩)
  have hmethods := encodes_list fun m hm => MethodDef.encodes (hfits.1.2 m hm) fun x hx =>
    hdoubles.1.2 x (List.mem_flatMap.mpr ⟨m, hm, hx⟩)
  have hsites := encodes_list fun s hs => SiteSpec.encodes (hfits.2 s hs) fun x hx =>
    hdoubles.2 x (List.mem_flatMap.mpr ⟨s, hs, hx⟩)
  obtain ⟨name, superclass, interfaces, flags, fields, methods, sites, source⟩ := c
  cases source with
  | none =>
    refine ⟨⟨trivial, trivial, hinterfaces.readable, hflags.readable, hfields.readable, hmethods.readable,
      hsites.readable, trivial⟩, ?_⟩
    simp [ClassFile.ofJson?, ClassFile.toJson, field?, optionalField?, optional?, member?, str?,
      hinterfaces.decoded, hflags.decoded, hfields.decoded, hmethods.decoded, hsites.decoded]
  | some text =>
    refine ⟨⟨trivial, trivial, hinterfaces.readable, hflags.readable, hfields.readable, hmethods.readable,
      hsites.readable, trivial, trivial⟩, ?_⟩
    simp [ClassFile.ofJson?, ClassFile.toJson, field?, optionalField?, optional?, member?, str?,
      hinterfaces.decoded, hflags.decoded, hfields.decoded, hmethods.decoded, hsites.decoded]

end ClassFile

end LispMachine
