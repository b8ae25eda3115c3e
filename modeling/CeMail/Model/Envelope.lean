import CeMail.Model.NodeId

/-!
# The signed envelope

The metadata that travels over the mesh and waits at a mailbox. The signature and
hash functions are not part of this repository; they are the two functions of
`Crypto`, about which nothing is assumed here.
-/

namespace CeMail

/-- What `ce_identity` and `sha2` supply. -/
class Crypto where
  /-- `ce_identity::verify`: does the key vouch for these bytes with this signature? -/
  verify : NodeId → List UInt8 → Signature → Bool
  /-- `Sha256::digest` -/
  sha256 : List UInt8 → Bytes 32

/-- The unsigned envelope contents. -/
structure EnvelopeBody where
  /-- Sender NodeId (hex). The signer. -/
  «from» : String
  /-- Recipient NodeId (hex). -/
  «to» : String
  subject : String
  /-- Hash of the sealed body blob. Empty for a bodiless ping. -/
  bodyCid : String
  attachmentCids : List String
  /-- The message this one replies to. Empty if a new thread. -/
  inReplyTo : String
  sentAt : UInt64
  /-- Payment-channel receipt. Empty if none. -/
  postageReceipt : String
deriving DecidableEq

/-- A body and the sender's signature over its signing bytes. -/
structure Envelope where
  body : EnvelopeBody
  sig : Signature
deriving DecidableEq

/-! ## Wire form -/

/-- Domain tag so an envelope signature can never be confused with another CE signature. -/
def envelopeDomain : List UInt8 := "ce-mail-envelope-v1".toUTF8.data.toList

/-- Canonical signing bytes for an envelope. -/
def envelopeSigningBytes (e : EnvelopeBody) : List UInt8 :=
  Bincode.enc (envelopeDomain, e.from, e.to, e.subject, e.bodyCid, e.attachmentCids, e.inReplyTo,
    e.sentAt, e.postageReceipt)

/-- The derived serialization: the fields in order. -/
instance : Bincode EnvelopeBody :=
  Bincode.via
    (fun e => (e.from, e.to, e.subject, e.bodyCid, e.attachmentCids, e.inReplyTo, e.sentAt,
      e.postageReceipt))
    (fun (f, t, s, b, a, i, n, p) => some ⟨f, t, s, b, a, i, n, p⟩)
    (fun _ => rfl)

/-- `sig_serde`: the signature goes out as a byte sequence and must come back as 64 bytes. -/
instance : Bincode Envelope :=
  Bincode.via (fun e => (e.body, e.sig.val))
    (fun (b, s) => if h : s.length = 64 then some ⟨b, ⟨s, h⟩⟩ else none)
    (fun e => by simp only [dif_pos e.sig.property])

namespace Envelope

/-- Encode to deterministic wire bytes. Writing to memory has no way to fail. -/
def encode (e : Envelope) : List UInt8 := Bincode.enc e

/-- Decode from wire bytes. (After the colon the source adds bincode's own words.) -/
def decode (bytes : List UInt8) : Except String Envelope :=
  Bincode.deserialize "malformed envelope: " bytes

/-- The exact serialized byte length of this envelope. -/
def encodedLen (e : Envelope) : Nat := (Bincode.enc e).length

end Envelope

/-! ## Identity and authenticity -/

section Crypto

variable [Crypto]

/-- The content-addressed message id for an envelope: `sha256(signing_bytes)`, hex. -/
def messageId (e : EnvelopeBody) : String := hexEncode (Crypto.sha256 (envelopeSigningBytes e)).val

namespace Envelope

/-- This envelope's content-addressed message id. -/
def messageId (e : Envelope) : String := CeMail.messageId e.body

/--
Verify the sender's signature. The key it is checked against is the id that `from`
parses to, whatever its spelling.
-/
def verify (e : Envelope) : Except String Unit :=
  match parseNodeId e.body.from with
  | .error err => .error err
  | .ok «from» =>
      if Crypto.verify «from» (envelopeSigningBytes e.body) e.sig then .ok ()
      else .error "envelope signature does not verify (forged or tampered)"

end Envelope

end Crypto

end CeMail
