/-!
# Tables

Finite maps as association lists.  Inserting under a key that is present replaces its value in place;
a new key goes to the front.
-/

namespace LispMachine

/-- A finite map from `α` to `β`. -/
structure Table (α β : Type) where
  entries : List (α × β) := []
deriving Inhabited

namespace Table

variable {α β : Type} [DecidableEq α]

def empty : Table α β := ⟨[]⟩

/-- The value under a key in an association list. -/
def lookup (k : α) : List (α × β) → Option β
  | [] => none
  | (k', v) :: rest => if k' = k then some v else lookup k rest

/-- The value under a key. -/
def find? (t : Table α β) (k : α) : Option β := lookup k t.entries

def contains (t : Table α β) (k : α) : Bool := (t.find? k).isSome

/-- Replaces the value under a present key. -/
def replace (k : α) (v : β) : List (α × β) → List (α × β)
  | [] => []
  | (k', v') :: rest => if k' = k then (k, v) :: rest else (k', v') :: replace k v rest

/-- Sets the value under a key; a new key goes in front. -/
def insert (t : Table α β) (k : α) (v : β) : Table α β :=
  if t.contains k then ⟨replace k v t.entries⟩ else ⟨(k, v) :: t.entries⟩

/-- Takes a key out. -/
def erase (t : Table α β) (k : α) : Table α β := ⟨t.entries.filter fun e => !decide (e.1 = k)⟩

/-- The keys, the latest first. -/
def keys (t : Table α β) : List α := t.entries.map Prod.fst

/-- Replacing the value under a key changes no other lookup. -/
theorem lookup_replace (k : α) (v : β) (es : List (α × β)) (h : (lookup k es).isSome) (j : α) :
    lookup j (replace k v es) = if k = j then some v else lookup j es := by
  induction es with
  | nil => simp [lookup] at h
  | cons e rest ih =>
    obtain ⟨k', v'⟩ := e
    by_cases hk : k' = k
    · subst hk
      by_cases hj : k' = j <;> simp [replace, lookup, hj]
    · simp only [lookup, hk, if_false] at h
      by_cases hj : k' = j
      · subst hj
        simp [replace, lookup, hk, Ne.symm hk]
      · simp [replace, lookup, hk, hj, ih h]

/-- Inserting changes the value under its own key and no other. -/
theorem find?_insert (t : Table α β) (k j : α) (v : β) :
    (t.insert k v).find? j = if k = j then some v else t.find? j := by
  unfold insert
  split
  · next h => exact lookup_replace k v t.entries h j
  · simp [find?, lookup]

end Table

end LispMachine
