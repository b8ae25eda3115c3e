import CeMail.Model.Client

/-!
# Screening

What becomes of an authenticated message is the recipient's own policy. `screen` looks at
one envelope, at the standing of its sender and at what a verifier makes of its postage;
`screenInbox` drains the inbox and asks `screen` about each message on its own.

The lists of a policy hold strings, and are asked about `from` as it came.
-/

namespace CeMail

/-- What the policy decided to do with a message. -/
inductive Verdict where
  /-- Deliver. The flag says whether the copy carries postage the recipient may refund. -/
  | inbox (postageHeld : Bool)
  /-- Quarantine. -/
  | spam
  /-- Refuse to surface. -/
  | rejected
deriving DecidableEq

/-- Whether this verdict puts the message in the inbox. -/
def Verdict.isInbox : Verdict → Bool
  | .inbox _ => true
  | _ => false

/-- What on-chain history says of a sender. -/
inductive SenderStanding where
  | newcomer
  | established
deriving DecidableEq

/-- `ce_rs::Amount`, by its base units. -/
abbrev Amount := Int

/-- A recipient's screening policy. -/
structure ScreeningPolicy where
  /-- The recipient's own NodeId (hex). -/
  me : String
  /-- Senders that bypass postage. -/
  allowlist : Finset String
  /-- Senders that are always rejected. -/
  blocklist : Finset String
  /-- What a stranger must prove. Zero lets any receipt do that the verifier knows. -/
  minPostage : Amount
  /-- Reject a stranger without postage, rather than quarantine. -/
  strict : Bool
  /-- Treat an established sender like a contact. -/
  waivePostageForEstablished : Bool

namespace ScreeningPolicy

/-- A new policy: empty lists, no minimum, lenient, established senders waived. -/
def new (meHex : String) : ScreeningPolicy where
  me := meHex
  allowlist := ∅
  blocklist := ∅
  minPostage := 0
  strict := false
  waivePostageForEstablished := true

/-- Block a sender. -/
def block (p : ScreeningPolicy) (nodeHex : String) : ScreeningPolicy :=
  { p with blocklist := insert nodeHex p.blocklist }

variable (p : ScreeningPolicy)

def isContact (nodeHex : String) : Bool := nodeHex ∈ p.allowlist

def isBlocked (nodeHex : String) : Bool := nodeHex ∈ p.blocklist

/-- The verdict for a stranger without acceptable postage. -/
def deny : Verdict := if p.strict then .rejected else .spam

/-- Classify an inbound envelope. -/
def screen (env : Envelope) (standing : SenderStanding) (verifyPostage : String → Option Amount) :
    Verdict :=
  if env.body.to ≠ p.me then .rejected
  else if p.isBlocked env.body.from then .rejected
  else if env.body.from = p.me ∨ p.isContact env.body.from then .inbox false
  else if p.waivePostageForEstablished ∧ standing = .established then .inbox false
  else if env.body.postageReceipt = "" then p.deny
  else match verifyPostage env.body.postageReceipt with
    | some amount => if p.minPostage ≤ amount then .inbox true else p.deny
    | none => p.deny

end ScreeningPolicy

/-- A message, what was known of its sender, and the verdict. -/
structure Screened where
  message : Message
  standing : SenderStanding
  verdict : Verdict

variable {Net Cap : Type}

/--
The loop of `screen_inbox`, one verdict for each message. `standingOf` is the transport's
`sender_standing`; where it fails the sender is a newcomer.
-/
def ScreeningPolicy.screenMessages (p : ScreeningPolicy)
    (standingOf : String → NetM Net SenderStanding) (verifyPostage : String → Option Amount) :
    List Message → NetM Net (List Screened)
  | [] => pure []
  | m :: ms => do
      let standing ← Effect.orElse (standingOf m.envelope.body.from) .newcomer
      let screened ← screenMessages p standingOf verifyPostage ms
      pure (⟨m, standing, p.screen m.envelope standing verifyPostage⟩ :: screened)

/-- Drain the inbox and split it into delivered and quarantined messages. -/
def MailClient.screenInbox [Curve] [Sha512] [Crypto] [Aead] [Bincode Cap] (c : MailClient Net)
    (standingOf : String → NetM Net SenderStanding) (mailbox : String) (since : UInt64)
    (grant : List Cap) (policy : ScreeningPolicy) (verifyPostage : String → Option Amount) :
    NetM Net (List Message × List Message × UInt64) := do
  let (messages, cursor) ← c.drainInbox mailbox since grant
  let screened ← policy.screenMessages standingOf verifyPostage messages
  pure ((screened.filter fun x => x.verdict.isInbox).map Screened.message,
    (screened.filter fun x => x.verdict = .spam).map Screened.message, cursor)

end CeMail
