import CeMail.Model.Proto
import CeMail.Model.StoreFile

/-!
# The mailbox node

`serve_mailbox` with a store file: the loop that polls for messages, handles and answers
them one by one and writes the store once for each batch, if the batch may have changed
it. The process can die between any two steps, and starts again from the file. A write of
the file is atomic: it puts the new bytes in place or fails and leaves the old ones.

The clock, the revocation set, the messages and the fate of a write come with the events.
-/

namespace CeMail

/-- An inbound app message. -/
structure AppMessage where
  topic : String
  /-- Absent when nobody waits for a reply. -/
  replyToken : Option UInt64
  «from» : String
  /-- `payload()`, where it can be had. -/
  payload : Option (List UInt8)

/-- A reply, whom it goes to and the request it answers. -/
structure Sent (Cap : Type) where
  token : UInt64
  request : MailRequest Cap
  reply : MailReply
deriving DecidableEq

/-- Where the loop stands. -/
inductive ServePhase (Cap : Type) where
  | polling
  /-- The messages of the batch that are left, and the dirty flag. -/
  | serving (rest : List AppMessage) (dirty : Bool)
  /-- A message is handled and its reply not sent yet. -/
  | replying (sent : Sent Cap) (rest : List AppMessage) (dirty : Bool)

/-- The running process. -/
structure ServeProcess (Cap : Type) where
  svc : MailService
  phase : ServePhase Cap

/-- The store file, where there is one, and the process, while it runs. -/
structure Server (Cap : Type) where
  file : Option (List UInt8)
  process : Option (ServeProcess Cap)

inductive ServerEvent where
  /-- A poll, with its messages unless it failed. -/
  | poll (messages : Option (List AppMessage))
  /-- The next message of the batch is handled. -/
  | handle (now : UInt64) (isRevoked : NodeId → UInt64 → Bool)
  /-- The reply is sent, or the sending fails. -/
  | reply (delivered : Bool)
  /-- The batch ends, on a disk that can complete a write or not. -/
  | persist (written : Bool)
  | crash
  | restart

variable {Cap : Type}

/-- Whether a request can mutate the store. -/
def requestMutates : MailRequest Cap → Bool
  | .deliver _ _ => true
  | .drain _ _ _ => false
  | .ack _ _ _ => true
  | .drainPage _ _ _ _ => false
  | .putReceipt _ _ _ => true
  | .collectReceipts _ _ => true

def MailReply.isError : MailReply → Bool
  | .error _ => true
  | _ => false

/-- The reply token, requester and request of a message that is one. -/
def AppMessage.request [Bincode Cap] (msg : AppMessage) :
    Option (UInt64 × NodeId × MailRequest Cap) :=
  if msg.topic = mailTopic then do
    let token ← msg.replyToken
    let requester ← (parseNodeId msg.from).toOption
    let payload ← msg.payload
    let req ← (MailRequest.decode payload).toOption
    some (token, requester, req)
  else none

section Crypto

variable [Crypto]

/-- Handle one message of a batch. A panic takes the process down. -/
def MailService.serve [Bincode Cap] [Iam Cap] (svc : MailService) (msg : AppMessage)
    (rest : List AppMessage) (dirty : Bool) (now : UInt64) (isRevoked : NodeId → UInt64 → Bool) :
    Option (ServeProcess Cap) :=
  match (msg.request : Option (UInt64 × NodeId × MailRequest Cap)) with
  | none => some ⟨svc, .serving rest dirty⟩
  | some (token, requester, req) =>
      match svc.handle requester req now isRevoked with
      | (_, .error _) => none
      | (svc', .ok reply) =>
          some ⟨svc', .replying ⟨token, req, reply⟩ rest
            (dirty || requestMutates req && !reply.isError)⟩

namespace Server

/-- The file after a batch: written if the batch was dirty and the write goes through. -/
def fileAfter (file : Option (List UInt8)) (store : MailboxStore) (dirty written : Bool) :
    Option (List UInt8) :=
  if dirty && written then
    match store.tryToBytes with
    | .ok bytes => some bytes
    | .error _ => file
  else file

/-- Load the store, or make a new one where there is no file. What does not load stops the node. -/
def load (selfId : NodeId) (capacity : UInt64) (file : Option (List UInt8)) :
    Option (ServeProcess Cap) :=
  match file with
  | some bytes =>
      match MailboxStore.fromBytes bytes with
      | .ok store => some ⟨.new store, .polling⟩
      | .error _ => none
  | none => some ⟨.new (.new selfId capacity), .polling⟩

/-- One step, and the reply it sent. What does not fit where the loop stands does nothing. -/
def step [Bincode Cap] [Iam Cap] (selfId : NodeId) (capacity : UInt64) (s : Server Cap) :
    ServerEvent → Server Cap × Option (Sent Cap)
  | .poll messages =>
      match s.process, messages with
      | some ⟨svc, .polling⟩, some messages =>
          ({ s with process := some ⟨svc, .serving messages false⟩ }, none)
      | _, _ => (s, none)
  | .handle now isRevoked =>
      match s.process with
      | some ⟨svc, .serving (msg :: rest) dirty⟩ =>
          ({ s with process := svc.serve msg rest dirty now isRevoked }, none)
      | _ => (s, none)
  | .reply delivered =>
      match s.process with
      | some ⟨svc, .replying sent rest dirty⟩ =>
          ({ s with process := some ⟨svc, .serving rest dirty⟩ },
            if delivered then some sent else none)
      | _ => (s, none)
  | .persist written =>
      match s.process with
      | some ⟨svc, .serving [] dirty⟩ =>
          (⟨fileAfter s.file svc.store dirty written, some ⟨svc, .polling⟩⟩, none)
      | _ => (s, none)
  | .crash => ({ s with process := none }, none)
  | .restart =>
      match s.process with
      | none => ({ s with process := load selfId capacity s.file }, none)
      | some _ => (s, none)

end Server

end Crypto

end CeMail
