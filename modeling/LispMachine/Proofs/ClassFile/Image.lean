import LispMachine.ClassFile.Image
import LispMachine.Libraries.Standard
import LispMachine.Proofs.ClassFile.Records

/-! # Images that load back

`ofBytes_toBytes`: the image of a class file loads as the class file.  The header has a fixed size, the body
is valid UTF-8, its digest is the one in the header, and its text decodes to the class. -/

namespace LispMachine

/-! ### Bytes -/

theorem loop_toList (bytes : ByteArray) (i : Nat) (taken : List UInt8) :
    ByteArray.toList.loop bytes i taken = taken.reverse ++ bytes.data.toList.drop i := by
  fun_induction ByteArray.toList.loop bytes i taken with
  | case1 i taken hi ih =>
    have hget : bytes.get! i = bytes.data.toList[i] := getElem!_pos bytes.data i hi
    rw [ih, List.reverse_cons, List.append_assoc, hget, List.singleton_append, List.getElem_cons_drop]
  | case2 i taken hi =>
    have hdone : bytes.data.toList.drop i = [] := List.drop_eq_nil_of_le (Nat.le_of_not_lt hi)
    rw [hdone, List.append_nil]

theorem toArray_toList (bytes : ByteArray) : (⟨bytes.toList.toArray⟩ : ByteArray) = bytes := by
  rw [ByteArray.toList, loop_toList]
  simp

theorem fromUTF8?_toUTF8 (s : String) : String.fromUTF8? ⟨s.toUTF8.toList.toArray⟩ = some s := by
  rw [toArray_toList, String.fromUTF8?, String.toUTF8_eq_toByteArray, dif_pos s.isValidUTF8]
  rfl

namespace ClassFile

/-! ### Images -/

theorem ofBody?_bodyText [Libraries] {c : ClassFile} (hfits : c.fits = true)
    (hdoubles : ∀ x ∈ c.doubles, x.WritesExactly) (hdepth : c.toJson.depth ≤ Json.imageDepth) :
    ofBody? c.bodyText.toUTF8.toList = some c := by
  have hc := encodes hfits hdoubles
  rw [ofBody?, fromUTF8?_toUTF8]
  simp only [Option.bind_eq_bind, Option.bind_some]
  rw [bodyText, Libraries.parse_print _ hc.readable hdepth]
  exact hc.decoded

section Header

variable [Libraries] (body : List UInt8)

/-- The header and the body of an image. -/
def image : List UInt8 := magic ++ versionBytes ++ Libraries.digest body ++ body

theorem length_digest : (Libraries.digest body).length = digestSize := Libraries.length_digest body

theorem image_magic : (image body).take magic.length = magic := by
  rw [image, List.append_assoc, List.append_assoc, List.take_left]

theorem image_version : ((image body).drop magic.length).take versionBytes.length = versionBytes := by
  rw [image, List.append_assoc, List.append_assoc, List.drop_left, List.take_left]

theorem image_digest :
    ((image body).drop (magic.length + versionBytes.length)).take digestSize = Libraries.digest body := by
  rw [image, List.append_assoc, ← List.length_append, List.drop_left, ← length_digest body,
    List.take_left]

theorem image_body : (image body).drop (magic.length + versionBytes.length + digestSize) = body := by
  rw [image, ← length_digest body, ← List.length_append, ← List.length_append, List.drop_left]

theorem length_image :
    (image body).length = magic.length + versionBytes.length + digestSize + body.length := by
  simp only [image, List.length_append, length_digest]

/-- An image loads as its body decodes. -/
theorem ofBytes_eq : ofBytes (image body) = match ofBody? body with
    | some c => .ok c
    | none => .error (Error.classFormat malformedMessage) := by
  have hstart : ¬(decide ((image body).length < magic.length + versionBytes.length + digestSize)
      || (image body).take magic.length != magic) = true := by
    simp [image_magic, length_image]
  have hversion : ¬(versionBytes != versionBytes) = true := by simp
  have hdigest : ¬(Libraries.digest body != Libraries.digest body) = true := by simp
  unfold ofBytes
  dsimp only
  rw [if_neg hstart, image_version, if_neg hversion, image_digest, image_body]
  exact if_neg hdigest

theorem ofBytes_image {c : ClassFile} (hbody : ofBody? body = some c) : ofBytes (image body) = .ok c := by
  rw [ofBytes_eq, hbody]

theorem ofBody?_of_ofBytes {c : ClassFile} (h : ofBytes (image body) = .ok c) : ofBody? body = some c := by
  rw [ofBytes_eq] at h
  split at h
  · cases h
    assumption
  · cases h

end Header

/-- The image of a class file loads as the class file, if its numbers fit their words, its doubles are finite
and their texts read back, and its text does not nest too deep. -/
theorem ofBytes_toBytes [Libraries] (c : ClassFile) (hfits : c.fits = true)
    (hfinite : ∀ x ∈ c.doubles, x.isFinite = true) (hreads : ∀ x ∈ c.doubles, x.ReadsBack)
    (hdepth : c.toJson.depth ≤ Json.imageDepth) : ofBytes (toBytes c) = .ok c :=
  ofBytes_image _ (ofBody?_bodyText hfits (fun x hx => ⟨hfinite x hx, hreads x hx⟩) hdepth)

/-- A method that pushes a quoted vector with a hint and a flag and a negative zero inside a handler, and
branches to a label that stands nowhere. -/
def sampleCode : Code where
  instructions := #[
    .const (.quoted (.vector
      [.atom (.float ⟨0x3FB999999999999A⟩) { span := ⟨1, 9, 8⟩ }, .atom .nil { span := ⟨1, 13, 12⟩ }]
      { span := ⟨1, 2, 1⟩, hint := some "Long", flags := ["const"] })),
    .const (.double ⟨0x8000000000000000⟩), .invokeDynamic 0, .goto 0, .ret .any]
  labels := #[none]
  handlers := [{ first := 0, last := 3, target := 4, catches := none, stackDepth := 0 }]
  maxStack := 2

/-- A class whose names hold a quote, a control character and letters of several bytes. -/
def sample : ClassFile where
  name := "user.Größe\n\x22"
  superclass := "lang.Object"
  fields := [{ name := "mass", ty := .double, isStatic := true, isMutable := false,
               constant := some (.double ⟨0x7FEFFFFFFFFFFFFF⟩) }]
  methods := [{ name := "invoke", params := [.any], paramNames := ["this"], ret := .any, isStatic := false,
                isVariadic := false, code := some sampleCode }]
  sites := [{ SiteSpec.new .invoke [.any, .any] .any with
              constant := some (.keyword "k"), span := some ⟨1, 1, 0⟩ }]
  source := some "sample"

theorem ofBytes_toBytes_sample : sample.doubles.length = 3 ∧ ofBytes (toBytes sample) = .ok sample :=
  have hnumerals : ∀ x ∈ sample.doubles, x.HasNumeral := by decide +kernel
  ⟨rfl, ofBytes_toBytes sample (by decide) (by decide) (fun x hx => (hnumerals x hx).readsBack) (by decide)⟩

end ClassFile

end LispMachine
