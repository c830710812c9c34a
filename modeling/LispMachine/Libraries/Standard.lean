import LispMachine.Digest.Sha256
import LispMachine.Libraries.Basic
import LispMachine.Pattern.Parser
import LispMachine.Proofs.Json.Likeness

/-!
# The libraries at hand

The libraries a session runs on: patterns as `Pattern` reads and matches them, JSON text as `Json` writes and
reads it, and SHA-256.  That they keep the laws is `Json.parse?_print` and `Json.like_of_parse?`, and
counting the bytes of a digest.

Of the Unicode properties that patterns may name, `Pattern` knows the decimal digits, white space and the trivial
ones only, and takes a pattern that names another for malformed.
-/

namespace LispMachine

namespace Sha256

theorem length_bigEndian (n x : Nat) : (bigEndian n x).length = n := by
  induction n generalizing x with
  | zero => rfl
  | succ n ih => rw [bigEndian, List.length_append, ih, List.length_singleton]

theorem length_digest (message : List UInt8) : (digest message).length = 32 := by
  simp [digest, wordBytes, length_bigEndian]

end Sha256

namespace Json

theorem toList_render (j : Json) : j.render.toList = j.print [] := by rw [render, String.toList_ofList]

/-- A number that comes back from its text is the number its numeral is read as. -/
theorem hasNumeral_of_parse? {x : Double} {depth : Nat} (hfinite : x.isFinite = true)
    (h : parse? depth (print (.float x) []) = some (.float x)) : x.HasNumeral := by
  have htext : print (.float x) [] = x.finiteText Double.imageFormat := by
    rw [print, floatChars, if_pos hfinite, List.append_nil]
  obtain ⟨c, cs, hcs, hc⟩ := head_finiteText Double.imageFormat x
  refine ⟨hfinite, ?_⟩
  rw [htext, parse?, hcs, List.length_cons, value_of_numeric hc, ← hcs] at h
  cases hnumber : number (x.finiteText Double.imageFormat) with
  | none =>
    rw [hnumber] at h
    cases h
  | some p =>
    obtain ⟨j, rest⟩ := p
    simp only [hnumber] at h
    split at h
    · rename_i hrest
      cases h
      cases rest with
      | nil => rfl
      | cons d rest =>
        have hd : Double.isNumeral d = true :=
          Datum.isNumeral_finiteText ((number_suffix hnumber).subset List.mem_cons_self)
        rw [skipBlanks_cons (numeral_ne hd).1] at hrest
        cases hrest
    · cases h

mutual

theorem Readable.imp {p q : Double → Prop} (hpq : ∀ x, p x → q x) : ∀ {j : Json}, j.Readable p → j.Readable q
  | .null, _ | .bool _, _ | .str _, _ => trivial
  | .int _, h => h
  | .float x, h => hpq x h
  | .arr _, h => Readable.imp_each hpq h
  | .obj _, h => Readable.imp_members hpq h

theorem Readable.imp_each {p q : Double → Prop} (hpq : ∀ x, p x → q x) :
    ∀ {js : List Json}, Readable.EachReadable p js → Readable.EachReadable q js
  | [], _ => trivial
  | _ :: _, h => ⟨Readable.imp hpq h.1, Readable.imp_each hpq h.2⟩

theorem Readable.imp_members {p q : Double → Prop} (hpq : ∀ x, p x → q x) :
    ∀ {ms : List (String × Json)}, Readable.MembersReadable p ms → Readable.MembersReadable q ms
  | [], _ => trivial
  | _ :: _, h => ⟨Readable.imp hpq h.1, Readable.imp_members hpq h.2⟩

end

end Json

instance Libraries.standard : Libraries where
  isPattern := Pattern.isWellFormed
  matchesIn source text := ((Pattern.parse? source).map fun p => p.matchesIn text).getD false
  printJson := Json.render
  parseJson? text := Json.parse? Json.imageDepth text.toList
  digest := Sha256.digest
  length_digest := Sha256.length_digest
  parse_print j hj hdepth := by
    simp only [Json.toList_render] at hj ⊢
    exact Json.parse?_print (hj.imp fun x hx => Json.hasNumeral_of_parse? hx.1 hx.2) hdepth
  like_of_parse j j' h := by
    rw [Json.toList_render] at h
    exact Json.like_of_parse? h

theorem Double.HasNumeral.readsBack {x : Double} (h : x.HasNumeral) : x.ReadsBack := by
  have hparse : Json.parse? Json.imageDepth (Json.print (.float x) []) = some (.float x) :=
    Json.parse?_print h (Nat.zero_le _)
  rw [← Json.toList_render] at hparse
  exact hparse

end LispMachine
