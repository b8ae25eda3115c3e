import CeMail.Model.Server

/-!
# The node and the revocation set

`serve_mailbox` as it runs beside the refresher: a task that now and then fetches the revoked
capabilities of the chain and puts them where the loop looks them up. A fetch that fails
keeps the last set, except at the start of a process, which then has none.

The refresher runs in parallel with the loop, so it can put a new set in place while a
request is being checked. Which of the checks come late enough to see it comes with the event.
-/

namespace CeMail

/-- The revoked capabilities: the issuer in hex and the nonce. -/
abbrev Revocations := List (String × UInt64)

/-- The closure `is_revoked`. Nothing panics with the set locked, so the lock is never poisoned. -/
def Revocations.isRevoked (revoked : Revocations) (issuer : NodeId) (nonce : UInt64) : Bool :=
  revoked.any fun (i, n) => i = issuer.hex && n = nonce

/-- The server, and the revocations its process goes by. -/
structure Node (Cap : Type) where
  server : Server Cap
  revoked : Revocations

inductive NodeEvent where
  | poll (messages : Option (List AppMessage))
  /-- A message is handled, and a set may be fetched meanwhile, which the `late` checks see. -/
  | handle (now : UInt64) (fetched : Option Revocations) (late : NodeId → UInt64 → Bool)
  | reply (delivered : Bool)
  | persist (written : Bool)
  | crash
  /-- A process starts and fetches the set, or fails to. -/
  | restart (fetched : Option Revocations)
  /-- The refresher's turn, with the set unless the fetch failed. -/
  | refresh (fetched : Option Revocations)

variable {Cap : Type} [Crypto]

namespace Node

/-- What an event is to the server. -/
def serverEvent (n : Node Cap) : NodeEvent → Option ServerEvent
  | .poll messages => some (.poll messages)
  | .handle now fetched late => some (.handle now fun issuer nonce =>
      Revocations.isRevoked (if late issuer nonce then fetched.getD n.revoked else n.revoked)
        issuer nonce)
  | .reply delivered => some (.reply delivered)
  | .persist written => some (.persist written)
  | .crash => some .crash
  | .restart _ => some .restart
  | .refresh _ => none

/-- The set after an event. -/
def revokedAfter (n : Node Cap) : NodeEvent → Revocations
  | .handle _ fetched _ => fetched.getD n.revoked
  | .refresh fetched => fetched.getD n.revoked
  | .restart fetched =>
      match n.server.process with
      | none => fetched.getD []
      | some _ => n.revoked
  | _ => n.revoked

/-- One step, and the reply it sent. -/
def step [Bincode Cap] [Iam Cap] (selfId : NodeId) (capacity : UInt64) (n : Node Cap)
    (e : NodeEvent) : Node Cap × Option (Sent Cap) :=
  match n.serverEvent e with
  | some i =>
      let (server, sent) := n.server.step selfId capacity i
      (⟨server, n.revokedAfter e⟩, sent)
  | none => (⟨n.server, n.revokedAfter e⟩, none)

end Node

end CeMail
