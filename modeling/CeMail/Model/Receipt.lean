import CeMail.Model.Envelope

/-!
# Delivery and read receipts

A tiny acknowledgement signed by the recipient of a message. Two receipts with the
same `dedupKey` are the same acknowledgement.
-/

namespace CeMail

/-- What a receipt attests. -/
inductive ReceiptKind where
  /-- The message reached the recipient's inbox. -/
  | delivered
  /-- The recipient opened the message. -/
  | read
deriving DecidableEq

def ReceiptKind.tag : ReceiptKind → UInt8
  | .delivered => 1
  | .read => 2

/-- The unsigned receipt contents. -/
structure ReceiptBody where
  /-- The message being acknowledged. -/
  messageId : String
  /-- The acknowledging recipient's NodeId (hex). The signer. -/
  «by» : String
  kind : ReceiptKind
  /-- Unix seconds the recipient stamped the receipt. -/
  «at» : UInt64
deriving DecidableEq

/-- A body and the recipient's signature. -/
structure Receipt where
  body : ReceiptBody
  sig : Signature
deriving DecidableEq

/-- Domain tag so a receipt signature can never be confused with an envelope signature. -/
def receiptDomain : List UInt8 := "ce-mail-receipt-v1".toUTF8.data.toList

/-- Canonical signing bytes for a receipt. -/
def receiptSigningBytes (b : ReceiptBody) : List UInt8 :=
  Bincode.enc (receiptDomain, b.messageId, b.by, b.kind.tag, b.at)

/-- A variant goes out as its index. -/
instance : Bincode ReceiptKind :=
  Bincode.via (fun | .delivered => (0 : UInt32) | .read => 1)
    (fun n => if n = 0 then some .delivered else if n = 1 then some .read else none)
    (fun k => by cases k <;> rfl)

instance : Bincode ReceiptBody :=
  Bincode.via (fun b => (b.messageId, b.by, b.kind, b.at)) (fun (m, b, k, a) => some ⟨m, b, k, a⟩)
    (fun _ => rfl)

instance : Bincode Receipt :=
  Bincode.via (fun r => (r.body, r.sig.val))
    (fun (b, s) => if h : s.length = 64 then some ⟨b, ⟨s, h⟩⟩ else none)
    (fun r => by simp only [dif_pos r.sig.property])

namespace Receipt

/-- Encode to wire bytes. -/
def encode (r : Receipt) : List UInt8 := Bincode.enc r

/-- Decode from wire bytes. -/
def decode (bytes : List UInt8) : Except String Receipt :=
  Bincode.deserialize "malformed receipt: " bytes

/-- Verify the recipient's signature against the id that `by` parses to. -/
def verify [Crypto] (r : Receipt) : Except String Unit :=
  match parseNodeId r.body.by with
  | .error err => .error err
  | .ok «by» =>
      if Crypto.verify «by» (receiptSigningBytes r.body) r.sig then .ok ()
      else .error "receipt signature does not verify (forged or tampered)"

/-- A stable de-dup key: `(message_id, kind, by)`. -/
def dedupKey (r : Receipt) : String :=
  r.body.messageId ++ ":" ++ toString r.body.kind.tag ++ ":" ++ r.body.by

/-- The acknowledging recipient as a NodeId. -/
def byNode (r : Receipt) : Except String NodeId := parseNodeId r.body.by

end Receipt

end CeMail
