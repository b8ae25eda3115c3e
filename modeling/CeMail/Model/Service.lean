import CeMail.Model.Mailbox

/-!
# The mailbox service

What a mailbox node does with an inbound request. Every branch of the dispatcher first
checks whether the requester may do this at all and only then touches the store, so the
dispatcher is two functions of the request, `gate` and `perform`, and `handle` is the
second behind the first. A request the gate refuses is answered with the gate's message
and changes nothing.
-/

namespace CeMail

/-- A request to a mailbox node, with capabilities of type `Cap`. -/
inductive MailRequest (Cap : Type) where
  /-- Deliver an envelope. `grant` proves the mailbox may accept mail for its `to`. -/
  | deliver (envelope : Envelope) (grant : List Cap)
  /-- Drain an inbox from cursor `since`. -/
  | drain (recipient : String) (since : UInt64) (grant : List Cap)
  /-- Acknowledge delivery up to `cursor`. -/
  | ack (recipient : String) (cursor : UInt64) (grant : List Cap)
  /-- Drain at most `limit` envelopes. -/
  | drainPage (recipient : String) (since limit : UInt64) (grant : List Cap)
  /-- Deposit a receipt for the sender of the mail it acknowledges. -/
  | putReceipt (forSender : String) (receipt : Receipt) (grant : List Cap)
  /-- Collect the receipts addressed to `sender`. -/
  | collectReceipts (sender : String) (grant : List Cap)
deriving DecidableEq

/-- A reply from a mailbox node. -/
inductive MailReply where
  | delivered (duplicate : Bool)
  | drained (envelopes : List Envelope) (cursor : UInt64)
  | page (envelopes : List Envelope) (cursor : UInt64) (more : Bool)
  | acked (removed : UInt64)
  | receiptAccepted (duplicate : Bool)
  | receipts (receipts : List Receipt)
  | error (message : String)
deriving DecidableEq

/-- The reply to a deposit: whether it was a duplicate, or why it was refused. -/
def MailReply.ofAccepted (reply : Bool → MailReply) : Except String Accepted → MailReply
  | .ok .stored => reply false
  | .ok .duplicate => reply true
  | .error e => .error e

/-- A reply that says the deposit was new comes of one that was stored. -/
theorem MailReply.stored_of_ofAccepted {reply : Bool → MailReply} {x : Except String Accepted}
    (h : ofAccepted reply x = reply false) (hnew : reply true ≠ reply false)
    (herr : ∀ m, .error m ≠ reply false) : x = .ok .stored := by
  cases x with
  | error m => exact absurd h (herr m)
  | ok a =>
      cases a with
      | stored => rfl
      | duplicate => exact absurd h hnew

/-- A service over a store, with its resource limits. -/
structure MailService where
  store : MailboxStore
  limits : Limits

namespace MailService

/-- Wrap a store in a service with explicit limits. -/
def withLimits (store : MailboxStore) (limits : Limits) : MailService := ⟨store, limits⟩

/-- Wrap a store in a service with the default limits. -/
def new (store : MailboxStore) : MailService := ⟨store, default⟩

/-- `parse_node_id`, in the words the replies use for a string that does not parse. -/
def parseAs (role hexStr : String) : Except String NodeId :=
  match parseNodeId hexStr with
  | .ok id => .ok id
  | .error e => .error s!"bad {role}: {e}"

section Gate

variable {Cap : Type} [Iam Cap]

/-- Authorize a delegate `requester` to act for `recipient`. -/
def gateDelegate (recipient requester : NodeId) (grant : List Cap) (now : UInt64)
    (isRevoked : NodeId → UInt64 → Bool) : Except String Unit :=
  Iam.authorize recipient [recipient] now requester abilityAccept grant isRevoked

/-- The gate of `Drain`, `Ack`, `DrainPage` and `CollectReceipts`: the owner or a delegate. -/
def gateOwner (role owner : String) (requester : NodeId) (grant : List Cap) (now : UInt64)
    (isRevoked : NodeId → UInt64 → Bool) : Except String Unit := do
  let id ← parseAs role owner
  if requester = id then .ok () else gateDelegate id requester grant now isRevoked

/-- What a request must pass before it reaches the store. -/
def gate (svc : MailService) (requester : NodeId) (now : UInt64)
    (isRevoked : NodeId → UInt64 → Bool) : MailRequest Cap → Except String Unit
  | .deliver envelope grant => do
      let recipient ← parseAs "recipient" envelope.body.to
      -- Oversized payloads are refused before the capability check.
      svc.limits.checkEnvelope envelope
      svc.store.checkAcceptGrant recipient grant now isRevoked
  | .drain recipient _ grant => gateOwner "recipient" recipient requester grant now isRevoked
  | .ack recipient _ grant => gateOwner "recipient" recipient requester grant now isRevoked
  | .drainPage recipient _ _ grant =>
      gateOwner "recipient" recipient requester grant now isRevoked
  | .putReceipt forSender _ grant => do
      let sender ← parseAs "sender" forSender
      svc.store.checkAcceptGrant sender grant now isRevoked
  | .collectReceipts sender grant => gateOwner "sender" sender requester grant now isRevoked

end Gate

section Handle

variable {Cap : Type} [Crypto]

/-- What a request does once it has passed. -/
def perform (svc : MailService) (now : UInt64) :
    MailRequest Cap → MailboxStore × Except Panic MailReply
  | .deliver envelope _ =>
      ((svc.store.accept envelope now).1,
        .ok (.ofAccepted .delivered (svc.store.accept envelope now).2))
  | .drain recipient since _ =>
      let (stored, cursor) := svc.store.readFrom recipient since
      (svc.store, .ok (.drained (stored.map StoredEnvelope.envelope) cursor))
  | .ack recipient cursor _ =>
      ((svc.store.ack recipient cursor).1, .ok (.acked (svc.store.ack recipient cursor).2))
  | .drainPage recipient since limit _ =>
      (svc.store, do
        let limit ← svc.limits.clampPage limit
        let (stored, cursor, more) ← svc.store.readPage recipient since limit
        .ok (.page (stored.map StoredEnvelope.envelope) cursor more))
  | .putReceipt forSender receipt _ =>
      ((svc.store.putReceipt forSender receipt).1,
        .ok (.ofAccepted .receiptAccepted (svc.store.putReceipt forSender receipt).2))
  | .collectReceipts sender _ =>
      ((svc.store.collectReceipts sender).1, .ok (.receipts (svc.store.collectReceipts sender).2))

variable [Iam Cap]

/-- Handle a request from `requester` at unix time `now`. -/
def handle (svc : MailService) (requester : NodeId) (request : MailRequest Cap) (now : UInt64)
    (isRevoked : NodeId → UInt64 → Bool) : MailService × Except Panic MailReply :=
  match svc.gate requester now isRevoked request with
  | .error message => (svc, .ok (.error message))
  | .ok () => ({ svc with store := (svc.perform now request).1 }, (svc.perform now request).2)

end Handle

/-! ## What the gates say -/

/-- A check that needs an id passes when there is one and it passes for that one. -/
theorem parseAs_bind_eq_ok {role hexStr : String} {f : NodeId → Except String Unit} :
    (parseAs role hexStr >>= f) = .ok () ↔ ∃ id, parseNodeId hexStr = .ok id ∧ f id = .ok () := by
  rw [parseAs]
  cases parseNodeId hexStr <;> simp [bind, Except.bind]

section Gate

variable {Cap : Type} [Iam Cap] {svc : MailService} {requester : NodeId} {now : UInt64}
  {isRevoked : NodeId → UInt64 → Bool}

theorem checkAcceptGrant_eq_ok {s : MailboxStore} {recipient : NodeId} {chain : List Cap} :
    s.checkAcceptGrant recipient chain now isRevoked = .ok () ↔
      Iam.authorize recipient [recipient] now s.selfId abilityAccept chain isRevoked = .ok () := by
  rw [MailboxStore.checkAcceptGrant]
  cases Iam.authorize recipient [recipient] now s.selfId abilityAccept chain isRevoked <;> simp

/-- **A delivery passes** when its envelope is for some node, within limits, and granted. -/
theorem gate_deliver {e : Envelope} {grant : List Cap} :
    svc.gate requester now isRevoked (.deliver e grant) = .ok () ↔
      ∃ recipient, parseNodeId e.body.to = .ok recipient ∧ svc.limits.checkEnvelope e = .ok ()
        ∧ Iam.authorize recipient [recipient] now svc.store.selfId abilityAccept grant isRevoked
          = .ok () := by
  simp only [gate, parseAs_bind_eq_ok, Limits.bind_eq_ok, checkAcceptGrant_eq_ok]

/-- **A receipt passes** when it is for some node, and granted. -/
theorem gate_putReceipt {forSender : String} {r : Receipt} {grant : List Cap} :
    svc.gate requester now isRevoked (.putReceipt forSender r grant) = .ok () ↔
      ∃ sender, parseNodeId forSender = .ok sender
        ∧ Iam.authorize sender [sender] now svc.store.selfId abilityAccept grant isRevoked
          = .ok () := by
  simp only [gate, parseAs_bind_eq_ok, checkAcceptGrant_eq_ok]

/-- **A node may always act on its own inbox**, under any spelling of its id. -/
theorem gateOwner_self {role owner : String} {grant : List Cap}
    (h : parseNodeId owner = .ok requester) :
    gateOwner role owner requester grant now isRevoked = .ok () :=
  parseAs_bind_eq_ok.mpr ⟨requester, h, if_pos rfl⟩

end Gate

section Handle

variable {Cap : Type} [Crypto] [Iam Cap] {svc : MailService} {requester : NodeId}
  {request : MailRequest Cap} {now : UInt64} {isRevoked : NodeId → UInt64 → Bool}

theorem handle_of_ok (h : svc.gate requester now isRevoked request = .ok ()) :
    svc.handle requester request now isRevoked
      = ({ svc with store := (svc.perform now request).1 }, (svc.perform now request).2) := by
  rw [handle, h]

/-- **A refused request changes nothing.** -/
theorem handle_of_error {message : String}
    (h : svc.gate requester now isRevoked request = .error message) :
    svc.handle requester request now isRevoked = (svc, .ok (.error message)) := by
  rw [handle, h]

/-- A reply other than an error is the reply of a request that passed. -/
theorem ok_of_reply {reply : MailReply}
    (h : (svc.handle requester request now isRevoked).2 = .ok reply)
    (hne : ∀ message, reply ≠ .error message) :
    svc.gate requester now isRevoked request = .ok ()
      ∧ (svc.perform now request).2 = .ok reply := by
  cases hgate : svc.gate requester now isRevoked request with
  | error message =>
      rw [handle_of_error hgate] at h
      exact absurd (Except.ok.inj h).symm (hne message)
  | ok =>
      rw [handle_of_ok hgate] at h
      exact ⟨rfl, h⟩

/-- The limits of a service never change. -/
@[simp] theorem limits_handle :
    (svc.handle requester request now isRevoked).1.limits = svc.limits := by
  rw [handle]
  split <;> rfl

end Handle

end MailService

end CeMail
