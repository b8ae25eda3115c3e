import CeMail.Model.Service

/-!
# Requests and replies on the wire

A variant of an enumeration goes out as its index, a `u32`, and then its fields in order.
The capabilities of a chain come from another crate; all that is known of their wire form
here is what the codec class says of any type.
-/

namespace CeMail

/-- The app-messaging topic of all requests. -/
def mailTopic : String := "ce-mail/v1"

/-! ## Requests -/

namespace MailRequest

/-- The variants, in the order of their indices. -/
inductive Variant where
  | deliver
  | drain
  | ack
  | drainPage
  | putReceipt
  | collectReceipts
deriving DecidableEq

instance : Bincode Variant :=
  Bincode.via
    (fun | .deliver => (0 : UInt32) | .drain => 1 | .ack => 2 | .drainPage => 3
         | .putReceipt => 4 | .collectReceipts => 5)
    (fun n =>
      if n = 0 then some .deliver
      else if n = 1 then some .drain
      else if n = 2 then some .ack
      else if n = 3 then some .drainPage
      else if n = 4 then some .putReceipt
      else if n = 5 then some .collectReceipts
      else none)
    (fun v => by cases v <;> rfl)

/-- The fields of a variant. -/
@[reducible] def Fields (Cap : Type) : Variant → Type
  | .deliver => Envelope × List Cap
  | .drain => String × UInt64 × List Cap
  | .ack => String × UInt64 × List Cap
  | .drainPage => String × UInt64 × UInt64 × List Cap
  | .putReceipt => String × Receipt × List Cap
  | .collectReceipts => String × List Cap

variable {Cap : Type}

instance [Bincode Cap] : ∀ v, Bincode (Fields Cap v)
  | .deliver => inferInstance
  | .drain => inferInstance
  | .ack => inferInstance
  | .drainPage => inferInstance
  | .putReceipt => inferInstance
  | .collectReceipts => inferInstance

/-- The variant of a request and its fields. -/
def toFields : MailRequest Cap → Σ v, Fields Cap v
  | .deliver envelope grant => ⟨.deliver, envelope, grant⟩
  | .drain recipient since grant => ⟨.drain, recipient, since, grant⟩
  | .ack recipient cursor grant => ⟨.ack, recipient, cursor, grant⟩
  | .drainPage recipient since limit grant => ⟨.drainPage, recipient, since, limit, grant⟩
  | .putReceipt forSender receipt grant => ⟨.putReceipt, forSender, receipt, grant⟩
  | .collectReceipts sender grant => ⟨.collectReceipts, sender, grant⟩

def ofFields : (Σ v, Fields Cap v) → MailRequest Cap
  | ⟨.deliver, envelope, grant⟩ => .deliver envelope grant
  | ⟨.drain, recipient, since, grant⟩ => .drain recipient since grant
  | ⟨.ack, recipient, cursor, grant⟩ => .ack recipient cursor grant
  | ⟨.drainPage, recipient, since, limit, grant⟩ => .drainPage recipient since limit grant
  | ⟨.putReceipt, forSender, receipt, grant⟩ => .putReceipt forSender receipt grant
  | ⟨.collectReceipts, sender, grant⟩ => .collectReceipts sender grant

instance [Bincode Cap] : Bincode (MailRequest Cap) :=
  Bincode.via toFields (fun p => some (ofFields p)) (fun r => by cases r <;> rfl)

/-- Encode to wire bytes. Writing to memory has no way to fail. -/
def encode [Bincode Cap] (r : MailRequest Cap) : List UInt8 := Bincode.enc r

/-- Decode from wire bytes. (After the colon the source adds bincode's own words.) -/
def decode [Bincode Cap] (bytes : List UInt8) : Except String (MailRequest Cap) :=
  Bincode.deserialize "malformed mail request: " bytes

end MailRequest

/-! ## Replies -/

namespace MailReply

/-- The variants, in the order of their indices. -/
inductive Variant where
  | delivered
  | drained
  | page
  | acked
  | receiptAccepted
  | receipts
  | error
deriving DecidableEq

instance : Bincode Variant :=
  Bincode.via
    (fun | .delivered => (0 : UInt32) | .drained => 1 | .page => 2 | .acked => 3
         | .receiptAccepted => 4 | .receipts => 5 | .error => 6)
    (fun n =>
      if n = 0 then some .delivered
      else if n = 1 then some .drained
      else if n = 2 then some .page
      else if n = 3 then some .acked
      else if n = 4 then some .receiptAccepted
      else if n = 5 then some .receipts
      else if n = 6 then some .error
      else none)
    (fun v => by cases v <;> rfl)

/-- The fields of a variant. -/
@[reducible] def Fields : Variant → Type
  | .delivered => Bool
  | .drained => List Envelope × UInt64
  | .page => List Envelope × UInt64 × Bool
  | .acked => UInt64
  | .receiptAccepted => Bool
  | .receipts => List Receipt
  | .error => String

instance : ∀ v, Bincode (Fields v)
  | .delivered => inferInstance
  | .drained => inferInstance
  | .page => inferInstance
  | .acked => inferInstance
  | .receiptAccepted => inferInstance
  | .receipts => inferInstance
  | .error => inferInstance

/-- The variant of a reply and its fields. -/
def toFields : MailReply → Σ v, Fields v
  | .delivered duplicate => ⟨.delivered, duplicate⟩
  | .drained envelopes cursor => ⟨.drained, envelopes, cursor⟩
  | .page envelopes cursor more => ⟨.page, envelopes, cursor, more⟩
  | .acked removed => ⟨.acked, removed⟩
  | .receiptAccepted duplicate => ⟨.receiptAccepted, duplicate⟩
  | .receipts rs => ⟨.receipts, rs⟩
  | .error message => ⟨.error, message⟩

def ofFields : (Σ v, Fields v) → MailReply
  | ⟨.delivered, duplicate⟩ => .delivered duplicate
  | ⟨.drained, envelopes, cursor⟩ => .drained envelopes cursor
  | ⟨.page, envelopes, cursor, more⟩ => .page envelopes cursor more
  | ⟨.acked, removed⟩ => .acked removed
  | ⟨.receiptAccepted, duplicate⟩ => .receiptAccepted duplicate
  | ⟨.receipts, rs⟩ => .receipts rs
  | ⟨.error, message⟩ => .error message

instance : Bincode MailReply :=
  Bincode.via toFields (fun p => some (ofFields p)) (fun r => by cases r <;> rfl)

/-- Encode to wire bytes. -/
def encode (r : MailReply) : List UInt8 := Bincode.enc r

/-- Decode from wire bytes. -/
def decode (bytes : List UInt8) : Except String MailReply :=
  Bincode.deserialize "malformed mail reply: " bytes

end MailReply

end CeMail
