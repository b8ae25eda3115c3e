import CeMail.Lib.Bincode

/-!
# Attachments

A named, typed byte payload. It is sealed as a whole and stored as a blob of its own, so
the name and the type are as confidential as the bytes.
-/

namespace CeMail

/-- A single attachment. -/
structure Attachment where
  /-- The original filename. -/
  filename : String
  /-- The MIME content type. -/
  contentType : String
  /-- The raw file bytes. -/
  bytes : List UInt8
deriving DecidableEq

instance : Bincode Attachment :=
  Bincode.via (fun a => (a.filename, a.contentType, a.bytes)) (fun (f, c, b) => some ⟨f, c, b⟩)
    (fun _ => rfl)

namespace Attachment

/-- The plaintext that gets sealed. Writing to memory has no way to fail. -/
def encode (a : Attachment) : List UInt8 := Bincode.enc a

/-- Decode from the decrypted blob. (After the colon the source adds bincode's own words.) -/
def decode (bytes : List UInt8) : Except String Attachment :=
  Bincode.deserialize "malformed attachment: " bytes

end Attachment

end CeMail
