import LispMachine.ClassFile.Decoder
import LispMachine.Error
import LispMachine.Libraries.Basic

/-!
# Class images

The bytes a class is loaded from: four magic bytes, a format version in two bytes, the digest of the body,
and the body, which is the class file as JSON text.
-/

namespace LispMachine.ClassFile

/-- What an image starts with. -/
def magic : List UInt8 := [0x53, 0x50, 0x52, 0x47]

/-- The bytes of the format version, the lower one first. -/
def versionBytes : List UInt8 := [1, 0]

def digestSize : Nat := 32

/-- The body of an image as text. -/
def bodyText [Libraries] (c : ClassFile) : String := Libraries.printJson c.toJson

/-- The image of a class file. -/
def toBytes [Libraries] (c : ClassFile) : List UInt8 :=
  let body := c.bodyText.toUTF8.toList
  magic ++ versionBytes ++ Libraries.digest body ++ body

/-- What the message about a malformed body starts with. -/
def malformedMessage : String := "malformed class body"

/-- The class file in the text of a body. -/
def ofBody? [Libraries] (body : List UInt8) : Option ClassFile := do
  let text ← String.fromUTF8? ⟨body.toArray⟩
  let j ← Libraries.parseJson? text
  ofJson? j

/-- Reads an image back. -/
def ofBytes [Libraries] (bytes : List UInt8) : Except Error ClassFile :=
  let headerSize := magic.length + versionBytes.length + digestSize
  if bytes.length < headerSize || bytes.take magic.length != magic then
    .error (Error.classFormat "bad magic")
  else
    let version := (bytes.drop magic.length).take versionBytes.length
    if version != versionBytes then
      let number := version.foldr (fun b n => b.toNat + 256 * n) 0
      .error (Error.classFormat ("unsupported class version " ++ toString number))
    else
      let digest := (bytes.drop (magic.length + versionBytes.length)).take digestSize
      let body := bytes.drop headerSize
      if Libraries.digest body != digest then .error (Error.classFormat "digest mismatch")
      else
        match ofBody? body with
        | some c => .ok c
        | none => .error (Error.classFormat malformedMessage)

end LispMachine.ClassFile
