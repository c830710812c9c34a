import LispMachine.Proofs.Machine.Stretches

/-! # Code with handlers and copies of `finally`

How code runs that is laid out as a `try` with a `finally` is: a body and clauses, each of which stores its
value and goes on to a copy of `finally`; a handler for exceptions that no clause takes, with a copy of its
own; and handlers in the order of the code, so that inner ones come first.  The main result is
`TryLayout.Laid.run`: on every run that leaves such code, what was protected has come to a value or to an error,
then one copy of `finally` is run, from its start, and only then the value or the exception gets out. -/

namespace LispMachine.Machine

/-! ### Layout -/

/-- The body of a `try` or one of its clauses, and the copy of `finally` behind it. -/
structure Part where
  first : Nat
  /-- Where the value is stored. -/
  stored : Nat
  /-- Control gets to the end of the part. -/
  ends : Bool
  /-- The end of the copy, and whether control gets there. -/
  copied : Nat
  through : Bool
  /-- The handlers inside the part and inside the copy. -/
  own : List Handler
  copyOwn : List Handler

namespace Part

/-- The end of what handlers watch over: the value has been stored. -/
def last (p : Part) : Nat := if p.ends then p.stored + 1 else p.stored

/-- The end of all code of the part. -/
def close (p : Part) : Nat := if p.through then p.copied + 1 else p.copied

/-- A handler for what the part raises. -/
def handler (p : Part) (target : Nat) (catches : Option String) (depth : Nat) : Handler :=
  ⟨p.first, p.last, target, catches, depth⟩

/-- The code of a part: it stores its value, and goes through `finally` to a label behind. -/
structure Laid (p : Part) (code : Code) (result : Nat) (after : Label) : Prop where
  body : Stretch code [] p.own p.first p.stored p.ends
  store : p.ends = true → code.instructions[p.stored]? = some (.store result .any)
  copy : p.ends = true → Stretch code [result] p.copyOwn p.last p.copied p.through
  goto : p.through = true → code.instructions[p.copied]? = some (.goto after)
  dead : p.ends = false → p.copied = p.stored ∧ p.through = false ∧ p.copyOwn = []

end Part

/-- Where the code of a `try` with a `finally` stands. -/
structure TryLayout where
  body : Part
  /-- The clauses, each with the class it catches. -/
  clauses : List (String × Part)
  /-- The handler of exceptions that no clause takes, the end of its copy of `finally`, and whether control gets
  there. -/
  pending : Nat
  copied : Nat
  through : Bool
  copyOwn : List Handler
  /-- The slots of the value and of a pending exception. -/
  result : Nat
  held : Nat
  /-- The label at which all ways out meet. -/
  after : Label
  exit : Nat
  depth : Nat
  /-- The handlers of the method in front of those of the form, and behind them. -/
  earlier : List Handler
  later : List Handler

namespace TryLayout

variable (L : TryLayout)

def entry : Nat := L.body.first

/-- The body and the clauses. -/
def parts : List Part := L.body :: L.clauses.map Prod.snd

/-- The end of the handler of pending exceptions. -/
def close : Nat := if L.through then L.copied + 2 else L.copied

/-- The handlers of a clause: the one that starts it, and those inside it. -/
def clauseHandlers (c : String × Part) : List Handler :=
  L.body.handler c.2.first (some c.1) L.depth :: (c.2.own ++ c.2.copyOwn)

/-- The handlers that the form adds, in order. -/
def handlers : List Handler :=
  (L.body.own ++ L.body.copyOwn) ++ (L.clauses.flatMap L.clauseHandlers ++
    (L.parts.map fun p => p.handler L.pending none L.depth) ++ L.copyOwn)

/-- The code is laid out in this way. -/
structure Laid (code : Code) : Prop where
  parts : ∀ p ∈ L.parts, p.Laid code L.result L.after
  ordered : L.parts.Pairwise fun p q => p.close ≤ q.first
  before : ∀ p ∈ L.parts, p.close ≤ L.pending
  hold : code.instructions[L.pending]? = some (.store L.held .any)
  copy : Stretch code [L.held] L.copyOwn (L.pending + 1) L.copied L.through
  rethrow : L.through = true → code.instructions[L.copied]? = some (.load L.held .any) ∧
    code.instructions[L.copied + 1]? = some .throwTop
  inside : L.close ≤ L.exit
  leave : ∀ p ∈ L.parts, p.through = true → ∃ q, jumpTarget code L.after = .ok q ∧
    code.instructions[q]? = some (.load L.result .any) ∧ L.close ≤ q ∧ q + 1 = L.exit
  handlers : code.handlers = L.earlier ++ (L.handlers ++ L.later)
  earlier : ∀ h ∈ L.earlier, h.last ≤ L.entry
  later : ∀ h ∈ L.later, ¬(L.entry ≤ h.target ∧ h.target < L.exit)

end TryLayout

/-! ### Order -/

section Order

variable {code : Code} {result : Nat} {after : Label} {p : Part} {h : Handler} {pc : Nat}

theorem covers_iff : h.covers pc = true ↔ h.first ≤ pc ∧ pc < h.last := by
  simp [Handler.covers]

theorem Reaches.le {first last : Nat} {ends : Bool} (h : Reaches first last ends pc) : pc ≤ last := by
  rcases h.2 with hlt | ⟨heq, -⟩
  · exact Nat.le_of_lt hlt
  · exact Nat.le_of_eq heq

theorem Part.Laid.first_le (hp : p.Laid code result after) : p.first ≤ p.stored := hp.body.enters.le

theorem Part.stored_le_last (p : Part) : p.stored ≤ p.last := by
  unfold Part.last
  split <;> omega

theorem Part.Laid.last_le (hp : p.Laid code result after) : p.last ≤ p.copied := by
  cases hends : p.ends with
  | true => exact (hp.copy hends).enters.le
  | false =>
    obtain ⟨hcopied, -⟩ := hp.dead hends
    simp [Part.last, hends, hcopied]

/-- Only where the part comes to its end is there a copy to go through. -/
theorem Part.Laid.ends_of_through (hp : p.Laid code result after) (hthrough : p.through = true) : p.ends = true := by
  by_contra hends
  rw [Bool.not_eq_true] at hends
  rw [(hp.dead hends).2.1] at hthrough
  cases hthrough

theorem Part.copied_le_close (p : Part) : p.copied ≤ p.close := by
  unfold Part.close
  split <;> omega

/-- What is inside a part is in force there only. -/
theorem Part.Laid.own_covers (hp : p.Laid code result after) (hh : h ∈ p.own) (hpc : h.covers pc = true) :
    p.first ≤ pc ∧ pc < p.stored := by
  obtain ⟨hfirst, hlast, -⟩ := hp.body.handlers h hh
  have hcovers := covers_iff.mp hpc
  omega

theorem Part.Laid.copyOwn_covers (hp : p.Laid code result after) (hh : h ∈ p.copyOwn)
    (hpc : h.covers pc = true) : p.last ≤ pc ∧ pc < p.copied := by
  cases hends : p.ends with
  | true =>
    obtain ⟨hfirst, hlast, -⟩ := (hp.copy hends).handlers h hh
    have hcovers := covers_iff.mp hpc
    omega
  | false =>
    rw [(hp.dead hends).2.2] at hh
    cases hh

variable {L : TryLayout}

theorem TryLayout.Laid.pending_lt (hl : L.Laid code) : L.pending < L.copied ∨ L.pending + 1 = L.copied := by
  have hle := hl.copy.enters.le
  omega

theorem TryLayout.copied_le_close (L : TryLayout) : L.copied ≤ L.close := by
  unfold TryLayout.close
  split <;> omega

theorem TryLayout.Laid.pending_lt_exit (hl : L.Laid code) : L.pending + 1 ≤ L.exit :=
  Nat.le_trans hl.copy.enters.le (Nat.le_trans L.copied_le_close hl.inside)

theorem TryLayout.Laid.entry_le (hl : L.Laid code) (hp : p ∈ L.parts) : L.entry ≤ p.first := by
  rcases List.mem_cons.mp hp with rfl | hclause
  · exact Nat.le_refl _
  · have hbody := hl.parts L.body (List.mem_cons_self ..)
    have hclose := (List.pairwise_cons.mp hl.ordered).1 p hclause
    have hle := hbody.first_le
    have hlast := L.body.stored_le_last
    have hcopied := hbody.last_le
    have hends := L.body.copied_le_close
    unfold TryLayout.entry
    omega

theorem TryLayout.Laid.close_lt (hl : L.Laid code) (hp : p ∈ L.parts) : p.close < L.exit :=
  Nat.lt_of_le_of_lt (hl.before p hp) hl.pending_lt_exit

end Order

/-! ### The handler in force -/

section Handlers

variable {code : Code} {L : TryLayout} {p q : Part} {pc : Nat} {r : Registry} {exception : Value}
  {h : Handler}

/-- A handler is in force at a position and takes an exception. -/
def takesOver (r : Registry) (pc : Nat) (exception : Value) (h : Handler) : Bool :=
  h.covers pc && match h.catches with
    | some cls => r.instanceOf exception cls
    | none => true

theorem handlerFor_eq (r : Registry) (code : Code) (pc : Nat) (exception : Value) :
    handlerFor r code pc exception = code.handlers.find? (takesOver r pc exception) := rfl

theorem takesOver_of_outside {h : Handler} (hout : ¬(h.first ≤ pc ∧ pc < h.last)) :
    takesOver r pc exception h = false := by
  have hcovers : h.covers pc = false := by
    rw [Bool.eq_false_iff]
    exact fun hpc => hout (covers_iff.mp hpc)
  simp [takesOver, hcovers]

theorem find?_of_outside {hs : List Handler} (hout : ∀ h ∈ hs, ¬(h.first ≤ pc ∧ pc < h.last)) :
    hs.find? (takesOver r pc exception) = none := by
  rw [List.find?_eq_none]
  intro h hh
  rw [takesOver_of_outside (hout h hh)]
  exact Bool.false_ne_true

theorem Part.Laid.find?_outside {result : Nat} {after : Label} (hp : p.Laid code result after)
    (hpc : pc < p.first ∨ p.close ≤ pc) : (p.own ++ p.copyOwn).find? (takesOver r pc exception) = none := by
  refine find?_of_outside fun h hh hcovers => ?_
  have hlast := hp.last_le
  have hstored := p.stored_le_last
  have hclose := p.copied_le_close
  have hfirst := hp.first_le
  rcases List.mem_append.mp hh with hh | hh
  · have hown := hp.own_covers hh (covers_iff.mpr hcovers)
    omega
  · have hown := hp.copyOwn_covers hh (covers_iff.mpr hcovers)
    omega

/-- Where a part is protected, of all handlers inside parts only its own are in force. -/
theorem Part.Laid.find?_inside {result : Nat} {after : Label} (hp : p.Laid code result after)
    (hpc : pc < p.last) :
    (p.own ++ p.copyOwn).find? (takesOver r pc exception) = p.own.find? (takesOver r pc exception) := by
  have hcopy : p.copyOwn.find? (takesOver r pc exception) = none := by
    refine find?_of_outside fun h hh hcovers => ?_
    have hown := hp.copyOwn_covers hh (covers_iff.mpr hcovers)
    omega
  rw [List.find?_append, hcopy, Option.or_none]

/-- Parts other than the one that has a position are in front of it or behind. -/
theorem TryLayout.Laid.outside (hl : L.Laid code) {front back : List Part} (hsplit : L.parts = front ++ p :: back)
    (hpc : p.first ≤ pc ∧ pc < p.close) (hq : q ∈ front ++ back) : pc < q.first ∨ q.close ≤ pc := by
  have hordered := hl.ordered
  rw [hsplit] at hordered
  obtain ⟨-, hback, hfront⟩ := List.pairwise_append.mp hordered
  rcases List.mem_append.mp hq with hq | hq
  · have hle := hfront q hq p (List.mem_cons_self ..)
    omega
  · have hle := (List.pairwise_cons.mp hback).1 q hq
    omega

/-- The handlers of exceptions that no clause takes: that of the part that has the position. -/
theorem TryLayout.Laid.find?_pending (hl : L.Laid code) (hp : p ∈ L.parts)
    (hpc : p.first ≤ pc ∧ pc < p.last) :
    (L.parts.map fun p => p.handler L.pending none L.depth).find? (takesOver r pc exception)
      = some (p.handler L.pending none L.depth) := by
  obtain ⟨front, back, hsplit⟩ := List.append_of_mem hp
  have hlast := (hl.parts p hp).last_le
  have hclose := p.copied_le_close
  have hfront : (front.map fun p => p.handler L.pending none L.depth).find? (takesOver r pc exception) = none := by
    refine find?_of_outside fun h hh hcovers => ?_
    obtain ⟨q, hq, rfl⟩ := List.mem_map.mp hh
    have hq' : q ∈ L.parts := by rw [hsplit]; exact List.mem_append_left _ hq
    have hout := hl.outside hsplit ⟨hpc.1, by omega⟩ (List.mem_append_left back hq)
    have hlast' := (hl.parts q hq').last_le
    have hclose' := q.copied_le_close
    simp only [Part.handler] at hcovers
    omega
  have htakes : takesOver r pc exception (p.handler L.pending none L.depth) = true := by
    simp [takesOver, covers_iff, Part.handler, hpc]
  rw [hsplit, List.map_append, List.map_cons, List.find?_append, hfront, Option.none_or,
    List.find?_cons_of_pos htakes]

/-- An exception of the body that its own handlers do not take goes to the first clause for it, or else to the
handler of pending exceptions. -/
theorem TryLayout.Laid.body_handler (hl : L.Laid code) (hpc : L.body.first ≤ pc ∧ pc < L.body.last)
    (hown : ∀ h, handlerFor r code pc exception = some h → h ∉ L.body.own) :
    handlerFor r code pc exception = some (match L.clauses.find? fun c => r.instanceOf exception c.1 with
      | some c => L.body.handler c.2.first (some c.1) L.depth
      | none => L.body.handler L.pending none L.depth) := by
  have hbody := hl.parts L.body (List.mem_cons_self ..)
  have hlast := hbody.last_le
  have hclose := L.body.copied_le_close
  have hearlier : L.earlier.find? (takesOver r pc exception) = none := by
    refine find?_of_outside fun h hh hcovers => ?_
    have hle := hl.earlier h hh
    unfold TryLayout.entry at hle
    omega
  have hclauses : ∀ clauses : List (String × Part), (∀ c ∈ clauses, c ∈ L.clauses) →
      (clauses.flatMap L.clauseHandlers).find? (takesOver r pc exception)
        = (clauses.find? fun c => r.instanceOf exception c.1).map
            fun c => L.body.handler c.2.first (some c.1) L.depth := by
    intro clauses hsub
    induction clauses with
    | nil => rfl
    | cons c rest ih =>
      have htakes : takesOver r pc exception (L.body.handler c.2.first (some c.1) L.depth)
          = r.instanceOf exception c.1 := by
        have hcovers : (L.body.handler c.2.first (some c.1) L.depth).covers pc = true := covers_iff.mpr hpc
        rw [takesOver, hcovers, Bool.true_and]
        rfl
      rw [List.flatMap_cons, TryLayout.clauseHandlers, List.cons_append]
      cases hmatch : r.instanceOf exception c.1 with
      | true =>
        rw [List.find?_cons_of_pos (htakes.trans hmatch), List.find?_cons_of_pos (by exact hmatch)]
        rfl
      | false =>
        have hc : c.2 ∈ L.clauses.map Prod.snd := List.mem_map_of_mem (hsub c (List.mem_cons_self ..))
        have hsplit : L.parts = [] ++ L.body :: L.clauses.map Prod.snd := rfl
        have houtside : pc < c.2.first ∨ c.2.close ≤ pc :=
          hl.outside hsplit ⟨hpc.1, by omega⟩ hc
        have hinside : (c.2.own ++ c.2.copyOwn).find? (takesOver r pc exception) = none :=
          (hl.parts c.2 (List.mem_cons_of_mem _ hc)).find?_outside houtside
        rw [List.find?_cons_of_neg (by simp [htakes, hmatch]), List.find?_cons_of_neg (by simp [hmatch]),
          List.find?_append, hinside, Option.none_or, ih fun c hc => hsub c (List.mem_cons_of_mem _ hc)]
  have hfound : handlerFor r code pc exception
      = (L.body.own.find? (takesOver r pc exception)).or
          (some (match L.clauses.find? fun c => r.instanceOf exception c.1 with
            | some c => L.body.handler c.2.first (some c.1) L.depth
            | none => L.body.handler L.pending none L.depth)) := by
    rw [handlerFor_eq, hl.handlers, List.find?_append, hearlier, Option.none_or, TryLayout.handlers]
    simp only [List.append_assoc]
    rw [← List.append_assoc L.body.own, List.find?_append, hbody.find?_inside hpc.2, List.find?_append,
      hclauses L.clauses fun _ hc => hc, List.find?_append,
      hl.find?_pending (List.mem_cons_self ..) hpc, Option.some_or]
    cases L.clauses.find? fun c => r.instanceOf exception c.1 <;> rfl
  cases hfind : L.body.own.find? (takesOver r pc exception) with
  | none => rw [hfound, hfind, Option.none_or]
  | some h =>
    rw [hfind, Option.some_or] at hfound
    exact absurd (List.mem_of_find?_eq_some hfind) (hown h hfound)

/-- An exception of a clause that its own handlers do not take goes to the handler of pending exceptions. -/
theorem TryLayout.Laid.clause_handler (hl : L.Laid code) {c : String × Part} (hc : c ∈ L.clauses)
    (hpc : c.2.first ≤ pc ∧ pc < c.2.last)
    (hown : ∀ h, handlerFor r code pc exception = some h → h ∉ c.2.own) :
    handlerFor r code pc exception = some (c.2.handler L.pending none L.depth) := by
  have hmem : c.2 ∈ L.parts := List.mem_cons_of_mem _ (List.mem_map_of_mem hc)
  have hpart := hl.parts c.2 hmem
  have hlast := hpart.last_le
  have hclose := c.2.copied_le_close
  have hentry := hl.entry_le hmem
  have hbody := hl.parts L.body (List.mem_cons_self ..)
  have hlast' := hbody.last_le
  have hclose' := L.body.copied_le_close
  have hbehind : L.body.close ≤ c.2.first :=
    (List.pairwise_cons.mp hl.ordered).1 c.2 (List.mem_map_of_mem hc)
  have hearlier : L.earlier.find? (takesOver r pc exception) = none := by
    refine find?_of_outside fun h hh hcovers => ?_
    have hle := hl.earlier h hh
    omega
  obtain ⟨front, back, hsplit⟩ := List.append_of_mem hc
  have hparts : L.parts = (L.body :: front.map Prod.snd) ++ c.2 :: back.map Prod.snd := by
    rw [TryLayout.parts, hsplit]
    simp
  have hstart : ∀ c' : String × Part, takesOver r pc exception (L.body.handler c'.2.first (some c'.1) L.depth)
      = false := by
    intro c'
    refine takesOver_of_outside fun hcovers => ?_
    simp only [Part.handler] at hcovers
    omega
  have hothers : ∀ clauses : List (String × Part), (∀ c' ∈ clauses, c' ∈ front ∨ c' ∈ back) →
      (clauses.flatMap L.clauseHandlers).find? (takesOver r pc exception) = none := by
    intro clauses hsub
    rw [List.find?_flatMap, List.findSome?_eq_none_iff]
    intro c' hc'
    have hmem' : c'.2 ∈ (L.body :: front.map Prod.snd) ++ back.map Prod.snd := by
      rcases hsub c' hc' with hc' | hc'
      · exact List.mem_append_left _ (List.mem_cons_of_mem _ (List.mem_map_of_mem hc'))
      · exact List.mem_append_right _ (List.mem_map_of_mem hc')
    have hpart' : c'.2 ∈ L.parts := by
      rw [hparts]
      rcases List.mem_append.mp hmem' with hc' | hc'
      · exact List.mem_append_left _ hc'
      · exact List.mem_append_right _ (List.mem_cons_of_mem _ hc')
    have hout := hl.outside hparts ⟨hpc.1, by omega⟩ hmem'
    rw [TryLayout.clauseHandlers, List.find?_cons_of_neg (by simp [hstart c']),
      (hl.parts c'.2 hpart').find?_outside hout]
  have hinside : (L.clauses.flatMap L.clauseHandlers).find? (takesOver r pc exception)
      = c.2.own.find? (takesOver r pc exception) := by
    rw [hsplit, List.flatMap_append, List.flatMap_cons, List.find?_append, hothers front fun _ hc' => .inl hc',
      Option.none_or, List.find?_append, hothers back fun _ hc' => .inr hc', Option.or_none,
      TryLayout.clauseHandlers, List.find?_cons_of_neg (by simp [hstart c]), hpart.find?_inside hpc.2]
  have hfound : handlerFor r code pc exception
      = (c.2.own.find? (takesOver r pc exception)).or (some (c.2.handler L.pending none L.depth)) := by
    have houtside : pc < L.body.first ∨ L.body.close ≤ pc := .inr (by omega)
    rw [handlerFor_eq, hl.handlers, List.find?_append, hearlier, Option.none_or, TryLayout.handlers]
    simp only [List.append_assoc]
    rw [← List.append_assoc L.body.own, List.find?_append, hbody.find?_outside houtside, Option.none_or,
      List.find?_append, hinside, List.find?_append, hl.find?_pending hmem hpc, Option.some_or]
  cases hfind : c.2.own.find? (takesOver r pc exception) with
  | none => rw [hfound, hfind, Option.none_or]
  | some h =>
    rw [hfind, Option.some_or] at hfound
    exact absurd (List.mem_of_find?_eq_some hfind) (hown h hfound)

end Handlers

/-! ### Runs of parts -/

/-- A part comes to its end, and its value is stored. -/
inductive Completes [Libraries] (call : Caller) (body : Body) (p : Part) (result : Nat) (s : Running) :
    List Nat → Value → Running → Prop where
  | intro {front : List Nat} {u : Running} {v : Value} {rest : List Value}
      (hstays : Stays call body [] p.first p.stored s front u) (hpc : u.frame.pc = p.stored)
      (hstack : u.frame.stack = v :: rest) :
      Completes call body p result s (front ++ [p.stored]) v (u.stored result v rest)

/-- An error gets out of a part. -/
inductive Fails [Libraries] (call : Caller) (body : Body) (p : Part) (s : Running) :
    List Nat → Error → Value → Running → Prop where
  | intro {front : List Nat} {u t : Running} {e : Error} {exception : Value}
      (h : Escapes call body [] p.own p.first p.stored s front u e exception t) :
      Fails call body p s (front ++ [u.frame.pc]) e exception t

section Parts

variable {call : Caller} {body : Body} {L : TryLayout} {p : Part} {s t u : Running} {path : List Nat}
  {way : Departure} {pc : Nat} {h : Handler} {e : Error} {exception : Value}

theorem Part.lt_last_of_stored (hpc : pc < p.stored) : pc < p.last :=
  Nat.lt_of_lt_of_le hpc p.stored_le_last

/-- Whatever handler is in force at a position of the form watches over a part, is inside a copy of `finally`, or
comes behind those of the form. -/
theorem TryLayout.Laid.covering (hl : L.Laid body.code) (hh : h ∈ body.code.handlers) (hcovers : h.covers pc = true)
    (hpc : L.entry ≤ pc) : (∃ q ∈ L.parts, q.first ≤ pc ∧ pc < q.last) ∨ (∃ q ∈ L.parts, h ∈ q.copyOwn) ∨
      h ∈ L.copyOwn ∨ h ∈ L.later := by
  have hrange := covers_iff.mp hcovers
  have hparts : ∀ q ∈ L.parts, h ∈ q.own ++ q.copyOwn →
      (∃ q ∈ L.parts, q.first ≤ pc ∧ pc < q.last) ∨ ∃ q ∈ L.parts, h ∈ q.copyOwn := by
    intro q hq hh
    rcases List.mem_append.mp hh with hh | hh
    · have hown := (hl.parts q hq).own_covers hh hcovers
      exact .inl ⟨q, hq, hown.1, Part.lt_last_of_stored hown.2⟩
    · exact .inr ⟨q, hq, hh⟩
  rw [hl.handlers] at hh
  rcases List.mem_append.mp hh with hh | hh
  · have hle := hl.earlier h hh
    omega
  · rcases List.mem_append.mp hh with hh | hh
    · rcases List.mem_append.mp hh with hh | hh
      · exact (hparts L.body (List.mem_cons_self ..) hh).imp_right .inl
      · rcases List.mem_append.mp hh with hh | hh
        · rcases List.mem_append.mp hh with hh | hh
          · obtain ⟨c, hc, hh⟩ := List.mem_flatMap.mp hh
            rcases List.mem_cons.mp hh with rfl | hh
            · exact .inl ⟨L.body, List.mem_cons_self .., hrange⟩
            · exact (hparts c.2 (List.mem_cons_of_mem _ (List.mem_map_of_mem hc)) hh).imp_right .inl
          · obtain ⟨q, hq, rfl⟩ := List.mem_map.mp hh
            exact .inl ⟨q, hq, hrange⟩
        · exact .inr (.inr (.inl hh))
    · exact .inr (.inr (.inr hh))

/-- Only one part has a position. -/
theorem TryLayout.Laid.part_unique {q : Part} (hl : L.Laid body.code) (hp : p ∈ L.parts) (hq : q ∈ L.parts)
    (hpc : p.first ≤ pc ∧ pc < p.close) (hpc' : q.first ≤ pc ∧ pc < q.close) : q = p := by
  obtain ⟨front, back, hsplit⟩ := List.append_of_mem hp
  rw [hsplit] at hq
  rcases List.mem_append.mp hq with hq | hq
  · have hout := hl.outside hsplit hpc (List.mem_append_left back hq)
    omega
  · rcases List.mem_cons.mp hq with rfl | hq
    · rfl
    · have hout := hl.outside hsplit hpc (List.mem_append_right front hq)
      omega

/-- What a copy of `finally` behind a part raises is taken inside it, or behind the form. -/
theorem TryLayout.Laid.copy_handler (hl : L.Laid body.code) (hp : p ∈ L.parts)
    (hpc : p.last ≤ pc ∧ pc < p.copied) (hh : h ∈ body.code.handlers) (hcovers : h.covers pc = true) :
    h ∈ p.copyOwn ∨ h ∈ L.later := by
  have hpart := hl.parts p hp
  have hentry := hl.entry_le hp
  have hfirst := hpart.first_le
  have hstored := p.stored_le_last
  have hclose := p.copied_le_close
  have hbefore := hl.before p hp
  rcases hl.covering hh hcovers (by omega) with ⟨q, hq, hrange⟩ | ⟨q, hq, hh⟩ | hh | hh
  · have hlast := (hl.parts q hq).last_le
    have hclose' := q.copied_le_close
    obtain rfl : q = p := hl.part_unique hp hq (show p.first ≤ pc ∧ pc < p.close by omega) (by omega)
    omega
  · have hown := (hl.parts q hq).copyOwn_covers hh hcovers
    have hfirst' := (hl.parts q hq).first_le
    have hstored' := q.stored_le_last
    have hclose' := q.copied_le_close
    obtain rfl : q = p := hl.part_unique hp hq (show p.first ≤ pc ∧ pc < p.close by omega) (by omega)
    exact .inl hh
  · have hown := hl.copy.handlers h hh
    have hrange := covers_iff.mp hcovers
    omega
  · exact .inr hh

/-- What the copy of `finally` for pending exceptions raises is taken inside it, or behind the form. -/
theorem TryLayout.Laid.pending_handler (hl : L.Laid body.code) (hpc : L.pending < pc)
    (hh : h ∈ body.code.handlers) (hcovers : h.covers pc = true) : h ∈ L.copyOwn ∨ h ∈ L.later := by
  have hbody := hl.parts L.body (List.mem_cons_self ..)
  have hbefore := hl.before L.body (List.mem_cons_self ..)
  have hfirst := hbody.first_le
  have hstored := L.body.stored_le_last
  have hlast := hbody.last_le
  have hclose := L.body.copied_le_close
  have hentry : L.entry ≤ pc := by
    unfold TryLayout.entry
    omega
  rcases hl.covering hh hcovers hentry with ⟨q, hq, hrange⟩ | ⟨q, hq, hh⟩ | hh | hh
  · have hlast' := (hl.parts q hq).last_le
    have hclose' := q.copied_le_close
    have hbefore' := hl.before q hq
    omega
  · have hown := (hl.parts q hq).copyOwn_covers hh hcovers
    have hclose' := q.copied_le_close
    have hbefore' := hl.before q hq
    omega
  · exact .inl hh
  · exact .inr hh

/-- A part that is entered comes to its end, or an error gets out of it, which is taken inside the form. -/
theorem TryLayout.Laid.part_run [Libraries] (hl : L.Laid body.code) (hp : p ∈ L.parts) (hs : s.frame.pc = p.first)
    (htaken : ∀ pc r exception, p.first ≤ pc ∧ pc < p.last →
      (∀ h, handlerFor r body.code pc exception = some h → h ∉ p.own) →
      ∃ h, handlerFor r body.code pc exception = some h ∧ L.entry ≤ h.target ∧ h.target < L.exit)
    (h : Passes call body L.entry L.exit s path t way) :
    (∃ front back v u, path = front ++ back ∧ p.ends = true ∧ Completes call body p L.result s front v u ∧
      Passes call body L.entry L.exit u back t way) ∨
    ∃ front back e exception u handler, path = front ++ back ∧ Fails call body p s front e exception u ∧
      u.handler? body.code exception = some handler ∧
      Passes call body L.entry L.exit (u.handled handler exception) back t way := by
  have hpart := hl.parts p hp
  have hlast := hpart.last_le
  have hstored := p.stored_le_last
  have hclose := p.copied_le_close
  have hexit := hl.close_lt hp
  have hentry := hl.entry_le hp
  rcases hpart.body.passes (hs ▸ hpart.body.enters) hentry (.inl (by omega)) h with
    ⟨front, back, u, rfl, hstays, hu, hends, hrest⟩ | ⟨front, u, e, exception, u', hescapes, hway⟩
  · have hstore := hpart.store hends
    rw [← hu] at hstore
    have hnext : u.frame.pc + 1 < L.exit := by
      have heq : p.last = p.stored + 1 := by simp [Part.last, hends]
      omega
    obtain ⟨v, rest, back', hstack, rfl, hrest'⟩ := hrest.store hstore hnext
    refine .inl ⟨front ++ [p.stored], back', v, _, ?_, hends, .intro hstays hu hstack, hrest'⟩
    rw [hu, List.append_assoc]
    rfl
  · obtain ⟨handler, hfound, htarget⟩ := htaken u.frame.pc u'.world.registry exception
      ⟨hescapes.inside.1, Part.lt_last_of_stored hescapes.inside.2⟩ (by
        intro handler hfound
        refine hescapes.escapes handler ?_
        rw [Running.handler?, hescapes.raises.pinned.1]
        exact hfound)
    rw [← hescapes.raises.pinned.1] at hfound
    rcases hway with ⟨-, -, -, hout⟩ | ⟨handler', back, rfl, hfound', hrest⟩
    · exact absurd htarget (hout handler hfound)
    · refine .inr ⟨front ++ [u.frame.pc], back, e, exception, u', handler', ?_, .intro hescapes, hfound', hrest⟩
      rw [List.append_assoc]
      rfl

/-- Behind a part that stored its value, `finally` is run once: control then leaves the form with the value on
top, or an error has left it. -/
theorem TryLayout.Laid.copy_run [Libraries] (hl : L.Laid body.code) (hp : p ∈ L.parts) (hends : p.ends = true)
    {v : Value}
    (hs : s.frame.pc = p.last) (hv : s.frame.locals[L.result]? = some v)
    (h : Passes call body L.entry L.exit s path t way) :
    ∃ copy u, Stays call body [L.result] p.last p.copied s copy u ∧
      ((u.frame.pc = p.copied ∧ p.through = true ∧ path = copy ++ [p.copied] ∧
        ∃ t', way = .goes t' ∧ t'.frame.pc = L.exit ∧ t'.frame.stack = v :: u.frame.stack) ∨
      (p.last ≤ u.frame.pc ∧ u.frame.pc < p.copied ∧ path = copy ∧ t = u ∧
        ∃ e exception, way = .raises e exception)) := by
  have hpart := hl.parts p hp
  have hclose := p.copied_le_close
  have hexit := hl.close_lt hp
  have hentry : L.entry ≤ p.last :=
    Nat.le_trans (hl.entry_le hp) (Nat.le_trans hpart.first_le p.stored_le_last)
  rcases (hpart.copy hends).passes (hs ▸ (hpart.copy hends).enters) hentry (.inl (by omega)) h with
    ⟨copy, back, u, rfl, hstays, hu, hthrough, hrest⟩ | ⟨front, u, e, exception, u', hescapes, hway⟩
  · refine ⟨copy, u, hstays, .inl ⟨hu, hthrough, ?_⟩⟩
    have hgoto := hpart.goto hthrough
    rw [← hu] at hgoto
    obtain ⟨q, hq, hload, hle, hbehind⟩ := hl.leave p hp hthrough
    have hclosed := hl.pending_lt_exit
    obtain ⟨back', rfl, hrest'⟩ := hrest.jump hgoto (u := u) rfl hq ⟨by
      have hcopied := L.copied_le_close
      have hle' := hl.copy.enters.le
      have hbefore := hl.before p hp
      have hcopy := hpart.last_le
      omega, by omega⟩
    have hv' : u.frame.locals[L.result]? = some v := (hstays.kept _ (List.mem_singleton_self _)).trans hv
    have hstep : step call body (.load L.result .any) (u.at q u.frame.stack)
        = .ok .next ((u.at q u.frame.stack).withStack (slotsOf v .any ++ u.frame.stack)) :=
      step_load (s := u.at q u.frame.stack) hv' .any
    rcases hrest'.next hload hstep with ⟨rfl, -, rfl, -⟩ | ⟨back'', rfl, hrest''⟩
    · exact ⟨by rw [hu], _, rfl, hbehind, rfl⟩
    · have hinside : q + 1 < L.exit := hrest''.inside.2
      omega
  · refine ⟨front, u, hescapes.stays, .inr ?_⟩
    rcases hway with ⟨rfl, rfl, rfl, -⟩ | ⟨handler, back, rfl, hfound, hrest⟩
    · exact ⟨hescapes.inside.1, hescapes.inside.2, rfl, rfl, e, exception, rfl⟩
    · obtain ⟨hmem, hcovers⟩ := hescapes.raises.handler_covers hfound
      rcases hl.copy_handler hp hescapes.inside hmem hcovers with hown | hlater
      · exact absurd hown (hescapes.escapes handler hfound)
      · exact absurd hrest.inside (hl.later handler hlater)

/-- For a pending exception `finally` is run once: then the exception is thrown again, or an error has left the
form before. -/
theorem TryLayout.Laid.pending_run [Libraries] (hl : L.Laid body.code) (hheld : L.held < s.frame.locals.size)
    {rest : List Value} (hs : s.frame.pc = L.pending) (hstack : s.frame.stack = exception :: rest)
    (h : Passes call body L.entry L.exit s path t way) :
    ∃ copy u, Stays call body [L.held] (L.pending + 1) L.copied (s.stored L.held exception rest) copy u ∧
      ((u.frame.pc = L.copied ∧ path = L.pending :: (copy ++ [L.copied]) ∧ t.frame.pc = L.copied + 1 ∧
        ∃ raised, way = .raises (rethrown exception) raised) ∨
      (L.pending < u.frame.pc ∧ u.frame.pc < L.copied ∧ path = L.pending :: copy ∧ t = u ∧
        ∃ e raised, way = .raises e raised)) := by
  have hcopied := L.copied_le_close
  have hle := hl.copy.enters.le
  have hclosed := hl.inside
  have hentry : L.entry ≤ L.pending := hs ▸ h.inside.1
  have hclose : L.through = true → L.close = L.copied + 2 := fun hthrough => by
    simp [TryLayout.close, hthrough]
  have hnext : L.pending + 1 < L.exit := by
    rcases hl.copy.enters.2 with hlt | ⟨heq, hthrough⟩
    · omega
    · have heq' := hclose hthrough
      omega
  have hstore := hl.hold
  rw [← hs] at hstore
  obtain ⟨exception', rest', back, hstack', rfl, hrest⟩ := h.store hstore (hs ▸ hnext)
  obtain ⟨rfl, rfl⟩ := List.cons.inj (hstack.symm.trans hstack')
  rw [hs] at hstore ⊢
  have hstart : (s.stored L.held exception rest).frame.pc = L.pending + 1 := congrArg (· + 1) hs
  have hlast : L.copied < L.exit ∨ L.copied = L.exit ∧ L.through = false := by
    cases hthrough : L.through with
    | true =>
      have heq := hclose hthrough
      exact .inl (by omega)
    | false => exact (Nat.lt_or_eq_of_le (Nat.le_trans hcopied hclosed)).imp_right fun heq => ⟨heq, rfl⟩
  rcases hl.copy.passes (hstart ▸ hl.copy.enters) (by omega) hlast hrest with
    ⟨copy, back', u, rfl, hstays, hu, hthrough, hrest'⟩ | ⟨copy, u, e, raised, u', hescapes, hway⟩
  · refine ⟨copy, u, hstays, .inl ⟨hu, ?_⟩⟩
    obtain ⟨hload, hthrow⟩ := hl.rethrow hthrough
    rw [← hu] at hload
    have hheld' : u.frame.locals[L.held]? = some exception := by
      rw [hstays.kept _ (List.mem_singleton_self _)]
      exact Array.getElem?_setIfInBounds_self_of_lt hheld
    have heq := hclose hthrough
    rcases hrest'.next hload (step_load hheld' .any) with ⟨-, -, -, hout⟩ | ⟨back'', rfl, hrest''⟩
    · refine absurd ?_ hout
      simp only [Running.next, Running.withStack]
      omega
    · have hpc : (u.withStack (slotsOf exception .any ++ u.frame.stack)).next.frame.pc = L.copied + 1 :=
        congrArg (· + 1) hu
      rw [← hpc] at hthrow
      obtain ⟨rfl, rfl, hway⟩ := hrest''.throw hthrow rfl fun handler hmem hcovers => by
        rcases hl.pending_handler (by omega) hmem hcovers with hown | hlater
        · have hrange := hl.copy.handlers handler hown
          have hcovers := covers_iff.mp hcovers
          omega
        · exact hl.later handler hlater
      exact ⟨by rw [hu], hpc, hway⟩
  · refine ⟨copy, u, hescapes.stays, .inr ?_⟩
    rcases hway with ⟨rfl, rfl, rfl, -⟩ | ⟨handler, back, rfl, hfound, hrest⟩
    · exact ⟨hescapes.inside.1, hescapes.inside.2, rfl, rfl, e, raised, rfl⟩
    · obtain ⟨hmem, hcovers⟩ := hescapes.raises.handler_covers hfound
      rcases hl.pending_handler hescapes.inside.1 hmem hcovers with hown | hlater
      · exact absurd hown (hescapes.escapes handler hfound)
      · exact absurd hrest.inside (hl.later handler hlater)

end Parts

/-! ### Runs of the whole form -/

section Whole

variable (call : Caller) (body : Body) (L : TryLayout) (s : Running)

/-- What is protected comes to a value: the body does, or it fails and the first clause for its exception does. -/
inductive Succeeds [Libraries] : List Nat → Part → Value → Running → Prop where
  | body {path : List Nat} {v : Value} {t : Running} (hends : L.body.ends = true)
      (h : Completes call body L.body L.result s path v t) : Succeeds path L.body v t
  | caught {front back : List Nat} {e : Error} {exception v : Value} {u t : Running} {c : String × Part}
      (h : Fails call body L.body s front e exception u)
      (hc : (L.clauses.find? fun c => u.world.registry.instanceOf exception c.1) = some c)
      (hends : c.2.ends = true)
      (h' : Completes call body c.2 L.result
        (u.handled (L.body.handler c.2.first (some c.1) L.depth) exception) back v t) :
      Succeeds (front ++ back) c.2 v t

/-- What is protected fails: the body does and there is no clause for its exception, or the first clause for it
does.  The exception of the error is then pending. -/
inductive Errs [Libraries] : List Nat → Error → Value → Running → Prop where
  | uncaught {path : List Nat} {e : Error} {exception : Value} {u : Running}
      (h : Fails call body L.body s path e exception u)
      (hc : (L.clauses.find? fun c => u.world.registry.instanceOf exception c.1) = none) :
      Errs path e exception (u.handled (L.body.handler L.pending none L.depth) exception)
  | caught {front back : List Nat} {e e' : Error} {exception exception' : Value} {u u' : Running}
      {c : String × Part} (h : Fails call body L.body s front e exception u)
      (hc : (L.clauses.find? fun c => u.world.registry.instanceOf exception c.1) = some c)
      (h' : Fails call body c.2 (u.handled (L.body.handler c.2.first (some c.1) L.depth) exception) back e'
        exception' u') :
      Errs (front ++ back) e' exception' (u'.handled (c.2.handler L.pending none L.depth) exception')

/-- A run of a `try` with a `finally`: where it was, where it ended, and how it left.

What is protected comes first, and it meets no copy of `finally`.  One copy follows, from its start.  If it is
gone through, the value is on top behind the form, or the exception is thrown again; else an error of the copy
has left the form at once. -/
inductive TryRun [Libraries] : List Nat → Running → Departure → Prop where
  | value {front copy : List Nat} {p : Part} {v : Value} {u w t t' : Running}
      (h : Succeeds call body L s front p v u) (hcopy : Stays call body [L.result] p.last p.copied u copy w)
      (hu : u.frame.pc = p.last) (hw : w.frame.pc = p.copied) (hthrough : p.through = true)
      (ht : t'.frame.pc = L.exit)
      (hv : t'.frame.stack = v :: w.frame.stack) : TryRun (front ++ (copy ++ [p.copied])) t (.goes t')
  | valueLost {front copy : List Nat} {p : Part} {v raised : Value} {u w : Running} {e : Error}
      (h : Succeeds call body L s front p v u) (hcopy : Stays call body [L.result] p.last p.copied u copy w)
      (hu : u.frame.pc = p.last) (hw : p.last ≤ w.frame.pc ∧ w.frame.pc < p.copied) :
      TryRun (front ++ copy) w (.raises e raised)
  | thrown {front copy : List Nat} {e : Error} {exception raised : Value} {rest : List Value} {u w t : Running}
      (h : Errs call body L s front e exception u)
      (hcopy : Stays call body [L.held] (L.pending + 1) L.copied (u.stored L.held exception rest) copy w)
      (hu : u.frame.pc = L.pending ∧ u.frame.stack = exception :: rest) (hw : w.frame.pc = L.copied)
      (ht : t.frame.pc = L.copied + 1) :
      TryRun (front ++ L.pending :: (copy ++ [L.copied])) t (.raises (rethrown exception) raised)
  | thrownLost {front copy : List Nat} {e e' : Error} {exception raised : Value} {rest : List Value}
      {u w : Running} (h : Errs call body L s front e exception u)
      (hcopy : Stays call body [L.held] (L.pending + 1) L.copied (u.stored L.held exception rest) copy w)
      (hu : u.frame.pc = L.pending ∧ u.frame.stack = exception :: rest)
      (hw : L.pending < w.frame.pc ∧ w.frame.pc < L.copied) :
      TryRun (front ++ L.pending :: copy) w (.raises e' raised)

variable {call body L s} {t u : Running} {path : List Nat} {way : Departure} {p : Part} {v : Value}

theorem Completes.ends [Libraries] {result : Nat} (h : Completes call body p result s path v t) (hends : p.ends = true)
    (hresult : result < s.frame.locals.size) :
    t.frame.pc = p.last ∧ t.frame.locals[result]? = some v ∧ t.frame.locals.size = s.frame.locals.size := by
  obtain ⟨hstays, hpc, -⟩ := h
  refine ⟨?_, ?_, ?_⟩
  · simp [Running.stored, hpc, Part.last, hends]
  · exact Array.getElem?_setIfInBounds_self_of_lt (hstays.size ▸ hresult)
  · simp [Running.stored, hstays.size]

theorem Fails.size [Libraries] {e : Error} {exception : Value} (h : Fails call body p s path e exception t) :
    t.frame.locals.size = s.frame.locals.size := by
  obtain ⟨h⟩ := h
  rw [h.raises.pinned.2, h.stays.size]

/-- The handler that takes what gets out of the body is that of a clause, or the one of pending exceptions. -/
theorem TryLayout.Laid.body_taken [Libraries] (hl : L.Laid body.code) {e : Error} {exception : Value}
    {handler : Handler}
    (h : Fails call body L.body s path e exception u) (hfound : u.handler? body.code exception = some handler) :
    handler = match L.clauses.find? fun c => u.world.registry.instanceOf exception c.1 with
      | some c => L.body.handler c.2.first (some c.1) L.depth
      | none => L.body.handler L.pending none L.depth := by
  obtain ⟨h⟩ := h
  have hown := h.escapes
  rw [Running.handler?, h.raises.pinned.1] at hfound hown
  have htaken := hl.body_handler ⟨h.inside.1, Part.lt_last_of_stored h.inside.2⟩ hown
  exact Option.some.inj (hfound.symm.trans htaken)

theorem TryLayout.Laid.clause_taken [Libraries] (hl : L.Laid body.code) {c : String × Part} (hc : c ∈ L.clauses)
    {e : Error}
    {exception : Value} {handler : Handler} (h : Fails call body c.2 s path e exception u)
    (hfound : u.handler? body.code exception = some handler) :
    handler = c.2.handler L.pending none L.depth := by
  obtain ⟨h⟩ := h
  have hown := h.escapes
  rw [Running.handler?, h.raises.pinned.1] at hfound hown
  have htaken := hl.clause_handler hc ⟨h.inside.1, Part.lt_last_of_stored h.inside.2⟩ hown
  exact Option.some.inj (hfound.symm.trans htaken)

/-- All handlers that the form puts up for its parts are inside it. -/
theorem TryLayout.Laid.body_handled (hl : L.Laid body.code) (pc : Nat) (r : Registry) (exception : Value)
    (hpc : L.body.first ≤ pc ∧ pc < L.body.last)
    (hown : ∀ h, handlerFor r body.code pc exception = some h → h ∉ L.body.own) :
    ∃ h, handlerFor r body.code pc exception = some h ∧ L.entry ≤ h.target ∧ h.target < L.exit := by
  refine ⟨_, hl.body_handler hpc hown, ?_⟩
  have hbefore := hl.before L.body (List.mem_cons_self ..)
  have hpending := hl.pending_lt_exit
  split
  · rename_i c hc
    have hmem : c.2 ∈ L.parts := List.mem_cons_of_mem _ (List.mem_map_of_mem (List.mem_of_find?_eq_some hc))
    have hpart := hl.parts c.2 hmem
    have hfirst := hpart.first_le
    have hstored := c.2.stored_le_last
    have hlast := hpart.last_le
    have hclose := c.2.copied_le_close
    have hexit := hl.close_lt hmem
    exact ⟨hl.entry_le hmem, by simp only [Part.handler]; omega⟩
  · have hpart := hl.parts L.body (List.mem_cons_self ..)
    have hlast := hpart.last_le
    have hclose := L.body.copied_le_close
    exact ⟨by simp only [TryLayout.entry, Part.handler]; omega, by simp only [Part.handler]; omega⟩

theorem TryLayout.Laid.clause_handled (hl : L.Laid body.code) {c : String × Part} (hc : c ∈ L.clauses) (pc : Nat)
    (r : Registry) (exception : Value) (hpc : c.2.first ≤ pc ∧ pc < c.2.last)
    (hown : ∀ h, handlerFor r body.code pc exception = some h → h ∉ c.2.own) :
    ∃ h, handlerFor r body.code pc exception = some h ∧ L.entry ≤ h.target ∧ h.target < L.exit := by
  have hmem : c.2 ∈ L.parts := List.mem_cons_of_mem _ (List.mem_map_of_mem hc)
  have hentry := hl.entry_le hmem
  have hpart := hl.parts c.2 hmem
  have hlast := hpart.last_le
  have hclose := c.2.copied_le_close
  have hbefore := hl.before c.2 hmem
  have hpending := hl.pending_lt_exit
  exact ⟨_, hl.clause_handler hc hpc hown, by simp only [Part.handler]; omega,
    by simp only [Part.handler]; omega⟩

/-- What is protected comes to a value or to an error. -/
theorem TryLayout.Laid.protected_run [Libraries] (hl : L.Laid body.code) (hs : s.frame.pc = L.entry)
    (h : Passes call body L.entry L.exit s path t way) :
    (∃ front back p v u, path = front ++ back ∧ p ∈ L.parts ∧ p.ends = true ∧
      Succeeds call body L s front p v u ∧ (L.result < s.frame.locals.size →
        u.frame.pc = p.last ∧ u.frame.locals[L.result]? = some v) ∧
      Passes call body L.entry L.exit u back t way) ∨
    ∃ front back e exception rest u, path = front ++ back ∧ Errs call body L s front e exception u ∧
      u.frame.pc = L.pending ∧ u.frame.stack = exception :: rest ∧
      u.frame.locals.size = s.frame.locals.size ∧ Passes call body L.entry L.exit u back t way := by
  rcases hl.part_run (List.mem_cons_self ..) hs hl.body_handled h with
    ⟨front, back, v, u, rfl, hends, hcompletes, hrest⟩ |
    ⟨front, back, e, exception, u, handler, rfl, hfails, hfound, hrest⟩
  · refine .inl ⟨front, back, L.body, v, u, rfl, List.mem_cons_self .., hends, .body hends hcompletes, ?_, hrest⟩
    intro hresult
    obtain ⟨hpc, hv, -⟩ := hcompletes.ends hends hresult
    exact ⟨hpc, hv⟩
  have htaken := hl.body_taken hfails hfound
  cases hc : L.clauses.find? fun c => u.world.registry.instanceOf exception c.1 with
  | none =>
    rw [hc] at htaken
    subst htaken
    exact .inr ⟨front, back, e, exception, _, _, rfl, .uncaught hfails hc, rfl, rfl, hfails.size, hrest⟩
  | some c =>
    rw [hc] at htaken
    subst htaken
    have hmem := List.mem_of_find?_eq_some hc
    have hpart : c.2 ∈ L.parts := List.mem_cons_of_mem _ (List.mem_map_of_mem hmem)
    rcases hl.part_run hpart rfl (hl.clause_handled hmem) hrest with
      ⟨front', back', v, u', rfl, hends, hcompletes, hrest'⟩ |
      ⟨front', back', e', exception', u', handler, rfl, hfails', hfound', hrest'⟩
    · refine .inl ⟨front ++ front', back', c.2, v, u', by simp, hpart, hends, .caught hfails hc hends hcompletes, ?_,
        hrest'⟩
      intro hresult
      obtain ⟨hpc, hv, -⟩ := hcompletes.ends hends (hfails.size ▸ hresult)
      exact ⟨hpc, hv⟩
    · have htaken' := hl.clause_taken hmem hfails' hfound'
      subst htaken'
      exact .inr ⟨front ++ front', back', e', exception', _, _, by simp, .caught hfails hc hfails', rfl, rfl,
        hfails'.size.trans hfails.size, hrest'⟩

/-- Every run that leaves the form has run `finally` once, behind all that is protected. -/
theorem TryLayout.Laid.run [Libraries] (hl : L.Laid body.code) (hs : s.frame.pc = L.entry)
    (hresult : L.result < s.frame.locals.size) (hheld : L.held < s.frame.locals.size)
    (h : Passes call body L.entry L.exit s path t way) : TryRun call body L s path t way := by
  rcases hl.protected_run hs h with
    ⟨front, back, p, v, u, rfl, hp, hends, hsucceeds, hstored, hrest⟩ |
    ⟨front, back, e, exception, rest, u, rfl, herrs, hpc, hstack, hsize, hrest⟩
  · obtain ⟨hpc, hv⟩ := hstored hresult
    obtain ⟨copy, w, hcopy, ⟨hw, hthrough, rfl, t', rfl, ht, hv'⟩ | ⟨hw, hw', rfl, rfl, e, raised, rfl⟩⟩ :=
      hl.copy_run hp hends hpc hv hrest
    · exact .value hsucceeds hcopy hpc hw hthrough ht hv'
    · exact .valueLost hsucceeds hcopy hpc ⟨hw, hw'⟩
  · obtain ⟨copy, w, hcopy, ⟨hw, rfl, ht, raised, rfl⟩ | ⟨hw, hw', rfl, rfl, e', raised, rfl⟩⟩ :=
      hl.pending_run (hsize ▸ hheld) hpc hstack hrest
    · exact .thrown herrs hcopy ⟨hpc, hstack⟩ hw ht
    · exact .thrownLost herrs hcopy ⟨hpc, hstack⟩ ⟨hw, hw'⟩

end Whole

/-! ### Copies of `finally` -/

section Copies

variable {call : Caller} {body : Body} {L : TryLayout} {s t : Running} {path : List Nat} {p : Part} {pc : Nat}

/-- Where the copies of `finally` stand. -/
def TryLayout.copies (L : TryLayout) : List (Nat × Nat) :=
  ((L.parts.filter Part.ends).map fun p => (p.last, p.copied)) ++ [(L.pending + 1, L.copied)]

/-- A position is in none of the copies. -/
def TryLayout.Apart (L : TryLayout) (pc : Nat) : Prop := ∀ c ∈ L.copies, ¬(c.1 ≤ pc ∧ pc < c.2)

/-- All positions of a path that are in copies are in one, where the path has been without a break. -/
def TryLayout.RunsOnce (L : TryLayout) (path : List Nat) : Prop :=
  ∃ front copy back, path = front ++ (copy ++ back) ∧ (∀ pc ∈ front ++ back, L.Apart pc) ∧
    ∃ c ∈ L.copies, ∀ pc ∈ copy, c.1 ≤ pc ∧ pc < c.2

theorem TryLayout.mem_copies {c : Nat × Nat} (hc : c ∈ L.copies) :
    (∃ p ∈ L.parts, p.ends = true ∧ c = (p.last, p.copied)) ∨ c = (L.pending + 1, L.copied) := by
  rcases List.mem_append.mp hc with hc | hc
  · obtain ⟨p, hp, rfl⟩ := List.mem_map.mp hc
    obtain ⟨hmem, hends⟩ := List.mem_filter.mp hp
    exact .inl ⟨p, hmem, hends, rfl⟩
  · exact .inr (List.mem_singleton.mp hc)

theorem TryLayout.copy_mem (hp : p ∈ L.parts) (hends : p.ends = true) : (p.last, p.copied) ∈ L.copies :=
  List.mem_append_left _ (List.mem_map_of_mem (List.mem_filter.mpr ⟨hp, hends⟩))

theorem TryLayout.pending_mem (L : TryLayout) : (L.pending + 1, L.copied) ∈ L.copies :=
  List.mem_append_right _ (List.mem_singleton_self _)

/-- What is inside a part but in front of its copy, or behind the copy, is in no copy at all. -/
theorem TryLayout.Laid.apart (hl : L.Laid body.code) (hp : p ∈ L.parts) (hpc : p.first ≤ pc ∧ pc < p.close)
    (hout : pc < p.last ∨ p.copied ≤ pc) : L.Apart pc := by
  intro c hc hinside
  rcases L.mem_copies hc with ⟨q, hq, -, rfl⟩ | rfl
  · have hfirst := (hl.parts q hq).first_le
    have hstored := q.stored_le_last
    have hclose := q.copied_le_close
    dsimp only at hinside
    obtain rfl : q = p := hl.part_unique hp hq hpc (by omega)
    omega
  · have hbefore := hl.before p hp
    dsimp only at hinside
    omega

theorem TryLayout.Laid.apart_pending (hl : L.Laid body.code) (hpc : pc = L.pending ∨ L.copied ≤ pc) :
    L.Apart pc := by
  intro c hc hinside
  have hle := hl.copy.enters.le
  rcases L.mem_copies hc with ⟨q, hq, -, rfl⟩ | rfl
  · have hbefore := hl.before q hq
    have hclose := q.copied_le_close
    dsimp only at hinside
    omega
  · dsimp only at hinside
    omega

theorem TryLayout.Laid.completes_apart [Libraries] (hl : L.Laid body.code) (hp : p ∈ L.parts) (hends : p.ends = true)
    {v : Value}
    (h : Completes call body p L.result s path v t) : ∀ pc ∈ path, L.Apart pc := by
  obtain ⟨hstays, -, -⟩ := h
  have hlast : p.last = p.stored + 1 := by simp [Part.last, hends]
  have hfirst := (hl.parts p hp).first_le
  have hcopied := (hl.parts p hp).last_le
  have hclose := p.copied_le_close
  intro pc hpc
  rcases List.mem_append.mp hpc with hpc | hpc
  · obtain ⟨hle, hlt⟩ := hstays.within pc hpc
    exact hl.apart hp ⟨hle, by omega⟩ (.inl (by omega))
  · obtain rfl := List.mem_singleton.mp hpc
    exact hl.apart hp ⟨hfirst, by omega⟩ (.inl (by omega))

theorem TryLayout.Laid.fails_apart [Libraries] (hl : L.Laid body.code) (hp : p ∈ L.parts) {e : Error}
    {exception : Value}
    (h : Fails call body p s path e exception t) : ∀ pc ∈ path, L.Apart pc := by
  obtain ⟨h⟩ := h
  have hstored := p.stored_le_last
  have hcopied := (hl.parts p hp).last_le
  have hclose := p.copied_le_close
  intro pc hpc
  have hinside : p.first ≤ pc ∧ pc < p.stored := by
    rcases List.mem_append.mp hpc with hpc | hpc
    · exact h.stays.within pc hpc
    · rw [List.mem_singleton.mp hpc]
      exact h.inside
  exact hl.apart hp ⟨hinside.1, by omega⟩ (.inl (by omega))

theorem TryLayout.clause_mem {c : String × Part} {r : Registry} {exception : Value}
    (hc : (L.clauses.find? fun c => r.instanceOf exception c.1) = some c) : c.2 ∈ L.parts :=
  List.mem_cons_of_mem _ (List.mem_map_of_mem (List.mem_of_find?_eq_some hc))

/-- What is protected meets no copy of `finally`. -/
theorem TryLayout.Laid.succeeds_apart [Libraries] (hl : L.Laid body.code) {v : Value}
    (h : Succeeds call body L s path p v t) : p ∈ L.parts ∧ p.ends = true ∧ ∀ pc ∈ path, L.Apart pc := by
  cases h with
  | body hends h => exact ⟨List.mem_cons_self .., hends, hl.completes_apart (List.mem_cons_self ..) hends h⟩
  | caught h hc hends h' =>
    refine ⟨L.clause_mem hc, hends, fun pc hpc => ?_⟩
    rcases List.mem_append.mp hpc with hpc | hpc
    · exact hl.fails_apart (List.mem_cons_self ..) h pc hpc
    · exact hl.completes_apart (L.clause_mem hc) hends h' pc hpc

theorem TryLayout.Laid.errs_apart [Libraries] (hl : L.Laid body.code) {e : Error} {exception : Value}
    (h : Errs call body L s path e exception t) : ∀ pc ∈ path, L.Apart pc := by
  cases h with
  | uncaught h _ => exact hl.fails_apart (List.mem_cons_self ..) h
  | caught h hc h' =>
    intro pc hpc
    rcases List.mem_append.mp hpc with hpc | hpc
    · exact hl.fails_apart (List.mem_cons_self ..) h pc hpc
    · exact hl.fails_apart (L.clause_mem hc) h' pc hpc

/-- So each run that leaves the form has been in one copy of `finally` only. -/
theorem TryRun.runsOnce [Libraries] {way : Departure} (hl : L.Laid body.code) (h : TryRun call body L s path t way) :
    L.RunsOnce path := by
  have hpending : L.Apart L.pending := hl.apart_pending (.inl rfl)
  have hcopied : L.Apart L.copied := hl.apart_pending (.inr (Nat.le_refl _))
  cases h with
  | @value front copy p v u w t t' h hcopy hu hw hthrough ht hv =>
    obtain ⟨hp, hends, hfront⟩ := hl.succeeds_apart h
    refine ⟨front, copy, [p.copied], rfl, ?_, _, L.copy_mem hp hends, hcopy.within⟩
    intro pc hpc
    rcases List.mem_append.mp hpc with hpc | hpc
    · exact hfront pc hpc
    · obtain rfl := List.mem_singleton.mp hpc
      have hpart := hl.parts p hp
      have hfirst := hpart.first_le
      have hstored := p.stored_le_last
      have hlast := hpart.last_le
      have hclose : p.close = p.copied + 1 := by simp [Part.close, hthrough]
      exact hl.apart hp ⟨by omega, by omega⟩ (.inr (Nat.le_refl _))
  | @valueLost front copy p v raised u w e h hcopy hu hw =>
    obtain ⟨hp, hends, hfront⟩ := hl.succeeds_apart h
    exact ⟨front, copy, [], by simp, by simpa using hfront, _, L.copy_mem hp hends, hcopy.within⟩
  | @thrown front copy e exception raised rest u w t h hcopy hu hw ht =>
    refine ⟨front ++ [L.pending], copy, [L.copied], by simp, ?_, _, L.pending_mem, hcopy.within⟩
    have hfront := hl.errs_apart h
    simp only [List.mem_append, List.mem_singleton]
    rintro pc ((hpc | rfl) | rfl)
    · exact hfront pc hpc
    · exact hpending
    · exact hcopied
  | @thrownLost front copy e e' exception raised rest u w h hcopy hu hw =>
    refine ⟨front ++ [L.pending], copy, [], by simp, ?_, _, L.pending_mem, hcopy.within⟩
    have hfront := hl.errs_apart h
    simp only [List.append_nil, List.mem_append, List.mem_singleton]
    rintro pc (hpc | rfl)
    · exact hfront pc hpc
    · exact hpending

end Copies

end LispMachine.Machine
