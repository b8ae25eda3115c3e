import CeMail.Lib.Effect
import CeMail.Model.Attachment
import CeMail.Model.Limits
import CeMail.Model.Proto
import CeMail.Model.SealedBox
import CeMail.Model.Thread

/-!
# The mail client

What an app uses: `send` seals the body and the attachments to the recipient, stores them
as blobs and delivers a signed envelope that carries only their CIDs; the other side
fetches the blobs when it opens them. The network is a parameter: a state and three
operations on it that can fail. The random bytes of the sealed boxes are arguments: draw 0
is for the body and draw i + 1 for attachment i.

A body blob holds either the raw body or, when the subject is confidential, a structured
`BodyContent`; which one it is shows only in the first byte of the plaintext.
-/

namespace CeMail

/-! ## Bodies with a subject -/

/-- The first byte of a plaintext that is a structured `BodyContent`. -/
def bodyContentMagic : UInt8 := 0xC5

/-- The structured plaintext of a body whose subject is sealed too. -/
structure BodyContent where
  subject : String
  body : List UInt8
deriving DecidableEq

instance : Bincode BodyContent :=
  Bincode.via (fun c => (c.subject, c.body)) (fun (s, b) => some ⟨s, b⟩) (fun _ => rfl)

namespace BodyContent

/-- A magic byte, then bincode. Writing to memory has no way to fail. -/
def encode (c : BodyContent) : List UInt8 := bodyContentMagic :: Bincode.enc c

/-- Try to decode structured content. `bincode::deserialize` lets bytes be left over. -/
def tryDecode : List UInt8 → Option BodyContent
  | [] => none
  | first :: rest =>
      if first = bodyContentMagic then (Bincode.dec rest).map Prod.fst else none

end BodyContent

/-- What an envelope shows in place of a sealed subject. -/
def redactedSubject : String := "(encrypted subject)"

/-- A composed, decrypted message. -/
structure Message where
  envelope : Envelope
  /-- Empty if the message had no body. -/
  body : List UInt8
  /-- The recovered subject if the sender sealed one. -/
  sealedSubject : Option String
deriving DecidableEq

/-- The sealed subject if present, else the cleartext one. -/
def Message.subject (m : Message) : String := m.sealedSubject.getD m.envelope.body.subject

/-! ## A client and its network -/

/-- What a message is composed of. -/
structure SendOptions (Cap : Type) where
  /-- Recipient NodeId hex. -/
  «to» : String
  subject : String
  body : List UInt8
  attachments : List Attachment
  /-- The message this replies to. Empty if a new thread. -/
  inReplyTo : String
  /-- Seal the subject into the body blob. -/
  sealSubject : Bool
  postageReceipt : String
  /-- The mailbox node to deliver to, if not to the recipient. -/
  mailbox : Option String
  grant : List Cap

/-- A node's seed and the signing function of `ce_identity` for it. -/
structure Identity where
  secretBytes : Bytes 32
  sign : List UInt8 → Signature

/-- What a client does on a network: it fails or not, and the network moves on. -/
abbrev NetM (Net α : Type) := ExceptT String (StateM Net) α

/-- The network operations of one client. (Standing, which only screening asks for, is left out.) -/
structure Transport (Net : Type) where
  /-- Store bytes in the blob store and get their CID. -/
  putBlob : List UInt8 → NetM Net String
  /-- Fetch a blob by CID. -/
  getBlob : String → NetM Net (List UInt8)
  /-- Send a request to a node, with a timeout in ms, and get the bytes of the reply. -/
  request : String → List UInt8 → UInt64 → NetM Net (List UInt8)

/-- The mail client, bound to one identity. -/
structure MailClient (Net : Type) where
  identity : Identity
  transport : Transport Net
  /-- `DEFAULT_TIMEOUT_MS` -/
  timeoutMs : UInt64 := 30000
  limits : Limits := default

/-- The random bytes of one sealed box: an ephemeral secret and a nonce. -/
abbrev Draw := Bytes 32 × Bytes 12

section Client

variable {Net Cap : Type} [Curve] [Sha512] [Crypto] [Aead]

/-- `Identity::node_id` -/
def Identity.nodeId (id : Identity) : NodeId := ed25519PublicKey id.secretBytes

/-- Sign an envelope body, with the signer as its sender. -/
def Envelope.«seal» (sender : Identity) (body : EnvelopeBody) : Envelope :=
  let body := { body with «from» := sender.nodeId.hex }
  ⟨body, sender.sign (envelopeSigningBytes body)⟩

/-- Sign a receipt, with the signer as its `by`. -/
def Receipt.issue (recipient : Identity) (messageId : String) (kind : ReceiptKind)
    («at» : UInt64) : Receipt :=
  let body : ReceiptBody := ⟨messageId, recipient.nodeId.hex, kind, «at»⟩
  ⟨body, recipient.sign (receiptSigningBytes body)⟩

/--
A character as `{:?}` of a string has it. (What else the tables of Unicode call unprintable,
beyond the control characters, is escaped like these, and stays as it is here.)
-/
def debugChar (c : Char) : String :=
  match c.toNat with
  | 0 => "\\0"
  | 9 => "\\t"
  | 10 => "\\n"
  | 13 => "\\r"
  | 34 => "\\\""
  | 92 => "\\\\"
  | n =>
      if n < 32 ∨ 127 ≤ n ∧ n < 160 then "\\u\x7b" ++ .ofList (Nat.toDigits 16 n) ++ "\x7d"
      else .singleton c

/-- `{:?}` of a string. -/
def debug (s : String) : String := "\"" ++ .join (s.toList.map debugChar) ++ "\""

/-- The loop over the attachments, before anything is sealed. -/
def Limits.checkAttachments (l : Limits) : List Attachment → Except String Unit
  | [] => .ok ()
  | a :: rest => do
      checkSize s!"attachment {debug a.filename}" a.bytes.length l.maxAttachmentBytes
      l.checkAttachments rest

/-- The payload bounds a client holds a message to. -/
def Limits.checkPayload (l : Limits) (opts : SendOptions Cap) : Except String Unit := do
  checkSize "body" opts.body.length l.maxBodyBytes
  let count := opts.attachments.length
  let most := l.maxAttachments
  ensure (count ≤ most.toNat) s!"too many attachments: {count} > {most}"
  l.checkAttachments opts.attachments

namespace MailClient

variable (c : MailClient Net)

/-! ### Sending -/

/-- Seal a plaintext and store it as a blob. -/
def putSealed (recipient : NodeId) (plaintext : List UInt8) (draw : Draw) : NetM Net String := do
  let sealedBody ← Effect.lift (SealedBody.seal recipient plaintext draw.1 draw.2)
  c.transport.putBlob (encodeSealed sealedBody)

/-- Seal a body and store it. An empty one has an empty CID and no blob. -/
def sealAndStore (recipient : NodeId) (body : List UInt8) (draw : Draw) : NetM Net String :=
  if body = [] then pure "" else c.putSealed recipient body draw

/-- The CID of the body and the cleartext subject. -/
def storeBody (recipient : NodeId) (opts : SendOptions Cap) (draw : Draw) :
    NetM Net (String × String) :=
  if opts.sealSubject then do
    let cid ← c.putSealed recipient (BodyContent.encode ⟨opts.subject, opts.body⟩) draw
    pure (cid, redactedSubject)
  else do
    let cid ← c.sealAndStore recipient opts.body draw
    pure (cid, opts.subject)

/-- The loop over the attachments, from draw `i` on: their CIDs in order. -/
def storeAttachments (recipient : NodeId) (draws : Nat → Draw) :
    Nat → List Attachment → NetM Net (List String)
  | _, [] => pure []
  | i, a :: rest => do
      let cid ← c.putSealed recipient a.encode (draws i)
      let cids ← storeAttachments recipient draws (i + 1) rest
      pure (cid :: cids)

/-- The envelope `send` makes of a message at time `now`. -/
def compose (opts : SendOptions Cap) (draws : Nat → Draw) (now : UInt64) : NetM Net Envelope := do
  let recipient ← Effect.lift (parseNodeId opts.to)
  Effect.lift (c.limits.checkPayload opts)
  let (bodyCid, cleartextSubject) ← c.storeBody recipient opts (draws 0)
  let attachmentCids ← c.storeAttachments recipient draws 1 opts.attachments
  pure <| .seal c.identity {
    «from» := ""
    «to» := opts.to
    subject := cleartextSubject
    bodyCid := bodyCid
    attachmentCids := attachmentCids
    inReplyTo := opts.inReplyTo
    sentAt := now
    postageReceipt := opts.postageReceipt }

/-- Send a request and decode the reply. -/
def roundTrip [Bincode Cap] («to» : String) (req : MailRequest Cap) : NetM Net MailReply := do
  let reply ← c.transport.request «to» req.encode c.timeoutMs
  Effect.lift (MailReply.decode reply)

/-- Hand an envelope to the recipient, or to a mailbox with the grant for it. -/
def deliver [Bincode Cap] (opts : SendOptions Cap) (envelope : Envelope) : NetM Net String := do
  let (target, grant) := match opts.mailbox with
    | some mb => (mb, opts.grant)
    | none => (opts.to, [])
  match ← c.roundTrip target (.deliver envelope grant) with
  | .delivered _ => pure envelope.messageId
  | .error message => throw s!"delivery rejected: {message}"
  | _ => throw "unexpected reply to Deliver: "

/-- Compose, seal, sign and deliver a message, and return its id. -/
def send [Bincode Cap] (opts : SendOptions Cap) (draws : Nat → Draw) (now : UInt64) :
    NetM Net String := do
  let envelope ← c.compose opts draws now
  c.deliver opts envelope

/-! ### Opening -/

/-- Fetch a blob and open it. -/
def getSealed (cid : String) : NetM Net (List UInt8) := do
  let bytes ← c.transport.getBlob cid
  let sealedBody ← Effect.lift (decodeSealed bytes)
  Effect.lift (SealedBody.open c.identity.secretBytes sealedBody)

/-- The body and the sealed subject, if the body blob is a structured one. -/
def openContent (env : Envelope) : NetM Net (List UInt8 × Option String) :=
  if env.body.bodyCid = "" then pure ([], none) else do
    let plaintext ← c.getSealed env.body.bodyCid
    match BodyContent.tryDecode plaintext with
    | some content => pure (content.body, some content.subject)
    | none => pure (plaintext, none)

/-- Fetch and decrypt the body of an envelope. -/
def openBody (env : Envelope) : NetM Net (List UInt8) := do
  let content ← c.openContent env
  pure content.1

/-- Fetch and decrypt an envelope into a full message. -/
def openMessage (env : Envelope) : NetM Net Message := do
  let (body, sealedSubject) ← c.openContent env
  pure ⟨env, body, sealedSubject⟩

/-- Skip each envelope that does not verify, and give an unreachable body as an empty one. -/
def composeMessages : List Envelope → NetM Net (List Message)
  | [] => pure []
  | env :: envs =>
      if env.verify = .ok () then do
        let (body, sealedSubject) ← Effect.orElse (c.openContent env) ([], none)
        let messages ← composeMessages envs
        pure (⟨env, body, sealedSubject⟩ :: messages)
      else composeMessages envs

/-- Drain the inbox at a mailbox: the messages and the new cursor. -/
def drainInbox [Bincode Cap] (mailbox : String) (since : UInt64) (grant : List Cap) :
    NetM Net (List Message × UInt64) := do
  match ← c.roundTrip mailbox (.drain c.identity.nodeId.hex since grant) with
  | .drained envelopes cursor =>
      let messages ← c.composeMessages envelopes
      pure (messages, cursor)
  | .error message => throw s!"drain rejected: {message}"
  | _ => throw "unexpected reply to Drain: "

/-- Drain a page of the inbox: at most `limit` messages, the next cursor, and whether more wait. -/
def drainInboxPage [Bincode Cap] (mailbox : String) (since limit : UInt64) (grant : List Cap) :
    NetM Net (List Message × UInt64 × Bool) := do
  match ← c.roundTrip mailbox (.drainPage c.identity.nodeId.hex since limit grant) with
  | .page envelopes cursor more =>
      let messages ← c.composeMessages envelopes
      pure (messages, cursor, more)
  | .error message => throw s!"drain page rejected: {message}"
  | _ => throw "unexpected reply to DrainPage: "

/-- Drain the inbox and group it into conversations. -/
def drainInboxThreaded [Bincode Cap] (mailbox : String) (since : UInt64) (grant : List Cap) :
    NetM Net (List Conversation × UInt64) := do
  let (messages, cursor) ← c.drainInbox mailbox since grant
  pure (groupThreads (messages.map Message.envelope), cursor)

/-- Fetch and decrypt one attachment. -/
def openAttachment (env : Envelope) (index : Nat) : NetM Net Attachment :=
  match env.body.attachmentCids[index]? with
  | none => throw s!"attachment index {index} out of range"
  | some cid =>
      if cid = "" then throw s!"attachment {index} has no CID" else do
        let plaintext ← c.getSealed cid
        Effect.lift (Attachment.decode plaintext)

/-- The loop of `open_attachments`: the next `n` attachments from index `i` on. -/
def openAttachmentsFrom (env : Envelope) : Nat → Nat → NetM Net (List Attachment)
  | _, 0 => pure []
  | i, n + 1 => do
      let a ← c.openAttachment env i
      let rest ← openAttachmentsFrom env (i + 1) n
      pure (a :: rest)

/-- Fetch and decrypt every attachment in order. -/
def openAttachments (env : Envelope) : NetM Net (List Attachment) :=
  c.openAttachmentsFrom env 0 env.body.attachmentCids.length

/-! ### Acknowledging -/

/-- Issue a receipt at time `now` and deposit it for the sender. Says if it was a duplicate. -/
def sendReceipt [Bincode Cap] (mailbox forSender messageId : String) (kind : ReceiptKind)
    (grant : List Cap) (now : UInt64) : NetM Net Bool := do
  let receipt := Receipt.issue c.identity messageId kind now
  match ← c.roundTrip mailbox (.putReceipt forSender receipt grant) with
  | .receiptAccepted duplicate => pure duplicate
  | .error message => throw s!"receipt rejected: {message}"
  | _ => throw "unexpected reply to PutReceipt: "

/-- Collect the receipts addressed to this client, and keep those that verify. -/
def collectReceipts [Bincode Cap] (mailbox : String) (grant : List Cap) :
    NetM Net (List Receipt) := do
  match ← c.roundTrip mailbox (.collectReceipts c.identity.nodeId.hex grant) with
  | .receipts receipts => pure (receipts.filter fun r => r.verify = .ok ())
  | .error message => throw s!"collect rejected: {message}"
  | _ => throw "unexpected reply to CollectReceipts: "

/-- Acknowledge delivery up to `cursor`. -/
def ack [Bincode Cap] (mailbox : String) (cursor : UInt64) (grant : List Cap) :
    NetM Net UInt64 := do
  match ← c.roundTrip mailbox (.ack c.identity.nodeId.hex cursor grant) with
  | .acked removed => pure removed
  | .error message => throw s!"ack rejected: {message}"
  | _ => throw "unexpected reply to Ack: "

end MailClient

end Client

end CeMail
