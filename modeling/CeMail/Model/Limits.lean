import CeMail.Model.Envelope

/-!
# Resource bounds

Hard caps on the sizes accepted from the network. A `usize` of the source is a
`UInt64`; a length is the `Nat` it is in memory.
-/

namespace CeMail

/-- Hard caps on the sizes accepted from the network. -/
structure Limits where
  maxSubjectBytes : UInt64
  maxCidBytes : UInt64
  maxAttachments : UInt64
  maxPostageBytes : UInt64
  /-- Max total serialized size of an inbound envelope. -/
  maxEnvelopeBytes : UInt64
  /-- Server-side ceiling on a single `DrainPage` limit. -/
  maxPage : UInt64
  maxAttachmentBytes : UInt64
  maxBodyBytes : UInt64
deriving DecidableEq

/-- An operation that ends in a panic instead of a value. -/
inductive Panic where
  /-- `Ord::clamp` with its bounds the wrong way round. -/
  | clampBounds
  /-- The end of a page past the largest `usize`. -/
  | pageEnd
deriving DecidableEq

/-- `anyhow::ensure!` -/
def ensure (cond : Bool) (message : String) : Except String Unit :=
  if cond then .ok () else .error message

theorem ensure_eq_ok {cond : Bool} {message : String} :
    ensure cond message = .ok () ↔ cond = true := by
  cases cond <;> simp [ensure]

namespace Limits

instance : Inhabited Limits where
  default := {
    maxSubjectBytes := 4 * 1024
    maxCidBytes := 256
    maxAttachments := 64
    maxPostageBytes := 1024
    maxEnvelopeBytes := 256 * 1024
    maxPage := 500
    maxAttachmentBytes := 40 * 1024 * 1024
    maxBodyBytes := 25 * 1024 * 1024 }

/-- One size against its cap, in the words of the error. -/
def checkSize (field : String) (size : Nat) (max : UInt64) : Except String Unit :=
  ensure (size ≤ max.toNat) s!"{field} too large: {size} > {max} bytes"

/-- The loop over the attachment CIDs, from index `i` on. -/
def checkCids (l : Limits) (i : Nat) : List String → Except String Unit
  | [] => .ok ()
  | cid :: cids => do
      checkSize s!"attachment_cid[{i}]" cid.utf8ByteSize l.maxCidBytes
      checkCids l (i + 1) cids

/-- Validate an inbound envelope; the error names the first limit exceeded. -/
def checkEnvelope (l : Limits) (env : Envelope) : Except String Unit := do
  let b := env.body
  checkSize "subject" b.subject.utf8ByteSize l.maxSubjectBytes
  checkSize "body_cid" b.bodyCid.utf8ByteSize l.maxCidBytes
  checkSize "in_reply_to" b.inReplyTo.utf8ByteSize l.maxCidBytes
  checkSize "postage_receipt" b.postageReceipt.utf8ByteSize l.maxPostageBytes
  let count := b.attachmentCids.length
  let most := l.maxAttachments
  ensure (count ≤ most.toNat) s!"too many attachments: {count} > {most}"
  checkCids l 0 b.attachmentCids
  -- The backstop over the field checks.
  checkSize "envelope" env.encodedLen l.maxEnvelopeBytes

/-- Clamp a requested page to the server-side ceiling, treating 0 as 1. -/
def clampPage (l : Limits) (limit : UInt64) : Except Panic UInt64 :=
  if 1 ≤ l.maxPage then .ok (max 1 (min limit l.maxPage)) else .error .clampBounds

/-! ## What a check that passes says -/

/-- A check followed by more checks passes when both do. -/
theorem bind_eq_ok {ε β : Type} {x : Except ε Unit} {f : Unit → Except ε β} {b : β} :
    (x >>= f) = .ok b ↔ x = .ok () ∧ f () = .ok b := by
  cases x with
  | error e => simp [bind, Except.bind]
  | ok a => simp [bind, Except.bind]

theorem checkSize_eq_ok {field : String} {size : Nat} {max : UInt64} :
    checkSize field size max = .ok () ↔ size ≤ max.toNat := by
  simp [checkSize, ensure_eq_ok]

theorem checkCids_eq_ok {l : Limits} {cids : List String} {i : Nat} :
    checkCids l i cids = .ok () ↔ ∀ cid ∈ cids, cid.utf8ByteSize ≤ l.maxCidBytes.toNat := by
  induction cids generalizing i with
  | nil => simp [checkCids]
  | cons cid cids ih =>
    rw [checkCids, bind_eq_ok, List.forall_mem_cons, checkSize_eq_ok, ih]

/-- **An envelope passes exactly when every field and the whole are within their caps.** -/
theorem checkEnvelope_eq_ok {l : Limits} {env : Envelope} :
    checkEnvelope l env = .ok () ↔
      env.body.subject.utf8ByteSize ≤ l.maxSubjectBytes.toNat
      ∧ env.body.bodyCid.utf8ByteSize ≤ l.maxCidBytes.toNat
      ∧ env.body.inReplyTo.utf8ByteSize ≤ l.maxCidBytes.toNat
      ∧ env.body.postageReceipt.utf8ByteSize ≤ l.maxPostageBytes.toNat
      ∧ env.body.attachmentCids.length ≤ l.maxAttachments.toNat
      ∧ (∀ cid ∈ env.body.attachmentCids, cid.utf8ByteSize ≤ l.maxCidBytes.toNat)
      ∧ env.encodedLen ≤ l.maxEnvelopeBytes.toNat := by
  simp only [checkEnvelope, bind_eq_ok, checkSize_eq_ok, ensure_eq_ok, checkCids_eq_ok,
    decide_eq_true_eq]

end Limits

end CeMail
