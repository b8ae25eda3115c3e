import CeMail.Lib.Machine
import CeMail.Model.Client

/-!
# The network

The in-memory network the client is tested on: a blob store all parties share and the
services at their addresses. A client's handle on it remembers whose it is, which is what
the service gets as the authenticated requester.

A client is not alone. Before each of its operations any number of other things happen, and
what it asks for may be dropped, or done and not answered. All of this, and the clock and
the revocations the services go by, is in a list of turns, one for each operation.
-/

namespace CeMail

/-- What can happen on the network. -/
inductive NetEvent (Cap : Type) where
  /-- Somebody stores a blob. -/
  | put (bytes : List UInt8)
  /-- The service at an address is handed a request. -/
  | request (address : String) (requester : NodeId) (req : MailRequest Cap) (now : UInt64)
      (isRevoked : NodeId → UInt64 → Bool)

/-- The blobs by CID and the services by address. -/
structure Shared where
  blobs : Table String (List UInt8)
  services : Table String MailService

/-- How an operation fares. -/
inductive Fate where
  | served
  /-- It never gets there. -/
  | dropped
  /-- It is done, and the answer never gets back. -/
  | unanswered
deriving DecidableEq

/-- What surrounds one operation of a client. -/
structure NetTurn (Cap : Type) where
  /-- What others do before it. -/
  others : List (NetEvent Cap)
  fate : Fate
  now : UInt64
  isRevoked : NodeId → UInt64 → Bool

/-- A network: how it started, all that happened since, and the turns to come. -/
structure Network (Cap : Type) where
  start : Shared
  past : List (NetEvent Cap)
  turns : List (NetTurn Cap)

variable {Cap : Type} [Crypto]

/-- `ce_rs::cid`: the SHA-256 of the bytes, hex. -/
def blobCid (bytes : List UInt8) : String := hexEncode (Crypto.sha256 bytes).val

section Iam

variable [Iam Cap]

/-- One event, and the reply if it was a request. A service that panics is gone. -/
def Shared.step (s : Shared) : NetEvent Cap → Shared × Option MailReply
  | .put bytes => ({ s with blobs := s.blobs.insert (blobCid bytes) bytes }, none)
  | .request address requester req now isRevoked =>
      match s.services.lookup address with
      | none => (s, none)
      | some svc =>
          match svc.handle requester req now isRevoked with
          | (svc', .ok reply) =>
              ({ s with services := s.services.insert address svc' }, some reply)
          | (_, .error _) => ({ s with services := s.services.erase address }, none)

namespace Network

/-- What all that happened has left behind. -/
def shared (n : Network Cap) : Shared := Machine.final Shared.step n.start n.past

omit [Crypto] [Iam Cap] in
/-- An event happens. -/
def happen (n : Network Cap) (e : NetEvent Cap) : Network Cap := { n with past := n.past ++ [e] }

omit [Crypto] [Iam Cap] in
/-- The next turn, after what the others do in it. A client whose turns are over waits for ever. -/
def await (n : Network Cap) : Except String (NetTurn Cap) × Network Cap :=
  match n.turns with
  | [] => (.error "request timed out", n)
  | turn :: turns => (.ok turn, { n with past := n.past ++ turn.others, turns := turns })

omit [Crypto] [Iam Cap] in
/-- Bytes on their way. There is no buffer of `2 ^ 64` of them. -/
def transmit (bytes : List UInt8) : NetM (Network Cap) (List UInt8) :=
  if bytes.length < 2 ^ 64 then pure bytes else throw "message does not fit in memory"

/-- `FakeHandle::put_blob` -/
def putBlob (bytes : List UInt8) : NetM (Network Cap) String := do
  let turn ← Effect.act await
  match turn.fate with
  | .dropped => throw "injected blob store failure"
  | .unanswered => Effect.act fun n => (.error "injected blob store failure", n.happen (.put bytes))
  | .served => Effect.act fun n => (.ok (blobCid bytes), n.happen (.put bytes))

/-- `FakeHandle::get_blob` -/
def getBlob (cid : String) : NetM (Network Cap) (List UInt8) := do
  let turn ← Effect.act await
  match turn.fate with
  | .dropped => throw "injected blob fetch failure"
  | .unanswered => throw "injected blob fetch failure"
  | .served => Effect.act fun n =>
      match n.shared.blobs.lookup cid with
      | some bytes => (.ok bytes, n)
      | none => (.error s!"blob {cid} not found", n)

/-- The service at an address handles a request. -/
def serve (address : String) (requester : NodeId) (req : MailRequest Cap) (turn : NetTurn Cap)
    (n : Network Cap) : Except String MailReply × Network Cap :=
  let event := .request address requester req turn.now turn.isRevoked
  match (n.shared.step event).2 with
  | some reply => (.ok reply, n.happen event)
  | none => (.error s!"no service for {address}", n.happen event)

/-- `FakeHandle::request`, for the client of the node `me`. -/
def request [Bincode Cap] (me : NodeId) («to» : String) (payload : List UInt8) :
    NetM (Network Cap) (List UInt8) := do
  let turn ← Effect.act await
  match turn.fate with
  | .dropped => throw "injected request failure (dropped peer)"
  | fate => do
      let payload ← transmit payload
      let req ← Effect.lift (MailRequest.decode payload)
      let reply ← Effect.act (serve «to» me req turn)
      if fate = .unanswered then throw "injected request failure (dropped peer)"
      else transmit reply.encode

/-- `FakeHandle`: a node's way onto the network. -/
def handle [Bincode Cap] (me : NodeId) : Transport (Network Cap) where
  putBlob := putBlob
  getBlob := getBlob
  request «to» payload _ := request me «to» payload

end Network

end Iam

end CeMail
