import LispMachine.Proofs.Datum.Spelling

/-! # Data further on in a text

Where a text stands in a longer one whose lines before it are complete, its places have more lines and more
characters before them, and the same columns (`Span.shift`).  A datum is moved with all the places in it
(`Datum.shift`); nothing the reader does with data it has read looks at places, so it does the same with the moved
ones (`applyMeta_shift`, `shiftEntries_pairUp`). -/

namespace LispMachine

/-- How far on a text stands in a longer one whose lines before it are complete. -/
structure Offset where
  lines : Nat := 0
  chars : Nat := 0

variable {k : Offset}

namespace Span

/-- The place in the longer text: lines and characters are counted on, columns are not. -/
def shift (k : Offset) (s : Span) : Span := ⟨s.line + k.lines, s.col, s.index + k.chars⟩

@[simp] theorem shift_none (s : Span) : s.shift {} = s := rfl

theorem shift_after (s : Span) (c : Char) : (s.after c).shift k = (s.shift k).after c := by
  simp only [after, shift]
  split
  · simp only [mk.injEq, true_and]
    omega
  · simp only [mk.injEq, true_and]
    omega

theorem shift_afterAll (s : Span) (cs : List Char) : (s.afterAll cs).shift k = (s.shift k).afterAll cs := by
  induction cs generalizing s with
  | nil => rfl
  | cons c cs ih => exact (ih _).trans (congrArg (fun t => t.afterAll cs) (shift_after s c))

theorem afterAll_append (s : Span) (cs cs' : List Char) : s.afterAll (cs ++ cs') = (s.afterAll cs).afterAll cs' :=
  List.foldl_append

/-- The lines and characters behind a text are those of the text. -/
theorem line_index_afterAll (s : Span) (cs : List Char) :
    (s.afterAll cs).line = s.line + cs.count '\n' ∧ (s.afterAll cs).index = s.index + cs.length := by
  induction cs generalizing s with
  | nil => exact ⟨rfl, rfl⟩
  | cons c cs ih =>
    obtain ⟨hline, hindex⟩ := ih (s.after c)
    have hcons : s.afterAll (c :: cs) = (s.after c).afterAll cs := rfl
    rw [hcons, hline, hindex, List.count_cons, List.length_cons]
    by_cases hc : c = '\n'
    · simp only [after, hc, beq_self_eq_true, if_true]
      omega
    · simp only [after, beq_iff_eq, hc, if_false]
      omega

/-- A line further on, the first column comes again. -/
theorem after_lineBreak_afterAll {s : Span} (hs : s.col = 1) (cs : List Char) :
    (s.afterAll cs).after '\n' = s.shift ⟨1 + cs.count '\n', 1 + cs.length⟩ := by
  obtain ⟨hline, hindex⟩ := line_index_afterAll s cs
  simp only [after, beq_self_eq_true, if_true, hline, hindex, shift, hs, mk.injEq, true_and]
  omega

end Span

namespace Datum

mutual

/-- The datum with its place and all places inside it further on; hints and flags stay. -/
def shift (k : Offset) : Datum → Datum
  | .atom a i => .atom a { i with span := i.span.shift k }
  | .list items i => .list (shiftAll k items) { i with span := i.span.shift k }
  | .vector items i => .vector (shiftAll k items) { i with span := i.span.shift k }
  | .set items i => .set (shiftAll k items) { i with span := i.span.shift k }
  | .map entries i => .map (shiftEntries k entries) { i with span := i.span.shift k }

def shiftAll (k : Offset) : List Datum → List Datum
  | [] => []
  | d :: ds => shift k d :: shiftAll k ds

def shiftEntries (k : Offset) : List (Datum × Datum) → List (Datum × Datum)
  | [] => []
  | (l, v) :: es => (shift k l, shift k v) :: shiftEntries k es

end

theorem shiftAll_eq_map (ds : List Datum) : shiftAll k ds = ds.map (shift k) := by
  induction ds with
  | nil => rfl
  | cons d ds ih => rw [shiftAll, ih, List.map_cons]

theorem shiftAll_reverse (ds : List Datum) : shiftAll k ds.reverse = (shiftAll k ds).reverse := by
  rw [shiftAll_eq_map, shiftAll_eq_map, List.map_reverse]

theorem length_shiftAll (ds : List Datum) : (shiftAll k ds).length = ds.length := by
  rw [shiftAll_eq_map, List.length_map]

theorem shiftEntries_pairUp (ds : List Datum) : shiftEntries k (pairUp ds) = pairUp (shiftAll k ds) := by
  fun_induction pairUp ds with
  | case1 l v rest ih => simp only [shiftEntries, shiftAll, pairUp, ih]
  | case2 ds hds =>
    match ds with
    | [] => rfl
    | [d] => rfl
    | l :: v :: rest => exact absurd rfl (hds l v rest)

mutual

theorem shift_none : ∀ d : Datum, d.shift {} = d
  | .atom a i => rfl
  | .list items i => by rw [shift, shiftAll_none items, Span.shift_none]
  | .vector items i => by rw [shift, shiftAll_none items, Span.shift_none]
  | .set items i => by rw [shift, shiftAll_none items, Span.shift_none]
  | .map entries i => by rw [shift, shiftEntries_none entries, Span.shift_none]

theorem shiftAll_none : ∀ ds : List Datum, shiftAll {} ds = ds
  | [] => rfl
  | d :: ds => by rw [shiftAll, shift_none d, shiftAll_none ds]

theorem shiftEntries_none : ∀ es : List (Datum × Datum), shiftEntries {} es = es
  | [] => rfl
  | (l, v) :: es => by rw [shiftEntries, shift_none l, shift_none v, shiftEntries_none es]

end

/-! ### Metadata -/

theorem applyMetaEntry_shift (d l v : Datum) :
    applyMetaEntry (d.shift k) (l.shift k) (v.shift k) = (applyMetaEntry d l v).shift k := by
  cases l with
  | atom a i =>
    cases a with
    | keyword name =>
      cases v with
      | atom b j =>
        cases b with
        | bool b =>
          cases b with
          | true => cases d <;> rfl
          | false => rfl
        | symbol hint =>
          simp only [applyMetaEntry, shift]
          split
          · cases d <;> rfl
          · rfl
        | _ => rfl
      | _ => rfl
    | _ => rfl
  | _ => rfl

theorem foldl_applyMetaEntry_shift (es : List (Datum × Datum)) (d : Datum) :
    (shiftEntries k es).foldl (fun d e => applyMetaEntry d e.1 e.2) (d.shift k)
      = (es.foldl (fun d e => applyMetaEntry d e.1 e.2) d).shift k := by
  induction es generalizing d with
  | nil => rfl
  | cons e es ih =>
    rw [shiftEntries, List.foldl_cons, List.foldl_cons, applyMetaEntry_shift, ih]

/-- Metadata is what it is wherever it stands. -/
theorem applyMeta_shift {m d d' : Datum} (h : applyMeta m d = .ok d') :
    applyMeta (m.shift k) (d.shift k) = .ok (d'.shift k) := by
  cases m with
  | atom a i =>
    cases a with
    | symbol | str | keyword =>
      obtain rfl := Except.ok.inj h
      cases d <;> rfl
    | _ => cases h
  | map entries i =>
    obtain rfl := Except.ok.inj h
    exact congrArg Except.ok (foldl_applyMetaEntry_shift entries d)
  | _ => cases h

end Datum

end LispMachine
