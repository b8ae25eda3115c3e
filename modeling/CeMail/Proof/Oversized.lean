import CeMail.Lib.Utf8
import CeMail.Proof.Client
import CeMail.Proof.ServiceRun

/-!
# What is too large

The limits are checked in two places. A client that sends looks at the payload only: the
size of the body, the number of the attachments and the size of each. It does so before
anything is sealed, so what is refused there has left no blob behind. The sizes of the
envelope are checked where it arrives. What is refused there is not stored, but the blobs
it names were put before it was sent.
-/

namespace CeMail

open Effect

/-! ## The payload -/

section Payload

variable {Cap : Type} {l l' : Limits} {opts : SendOptions Cap}

/-- The body, an attachment or their number is over its limit. -/
def Outsized (l : Limits) (opts : SendOptions Cap) : Prop :=
  l.maxBodyBytes.toNat < opts.body.length
    ∨ l.maxAttachments.toNat < opts.attachments.length
    ∨ ∃ a ∈ opts.attachments, l.maxAttachmentBytes.toNat < a.bytes.length

theorem Limits.checkAttachments_eq_ok {attachments : List Attachment} :
    l.checkAttachments attachments = .ok ()
      ↔ ∀ a ∈ attachments, a.bytes.length ≤ l.maxAttachmentBytes.toNat := by
  induction attachments with
  | nil => simp [checkAttachments]
  | cons a rest ih =>
      rw [checkAttachments, bind_eq_ok, List.forall_mem_cons, checkSize_eq_ok, ih]

/-- **The client's check fails exactly when the payload is too large.** -/
theorem outsized_iff : Outsized l opts ↔ l.checkPayload opts ≠ .ok () := by
  simp only [Outsized, Limits.checkPayload, ne_eq, Limits.bind_eq_ok, Limits.checkSize_eq_ok,
    ensure_eq_ok, Limits.checkAttachments_eq_ok, decide_eq_true_eq, not_and_or, Nat.not_le,
    not_forall, exists_prop]

/-- The limits a client looks at are the same. -/
structure SamePayload (l l' : Limits) : Prop where
  body : l.maxBodyBytes = l'.maxBodyBytes
  attachments : l.maxAttachments = l'.maxAttachments
  attachment : l.maxAttachmentBytes = l'.maxAttachmentBytes

theorem SamePayload.checkAttachments (h : SamePayload l l') (attachments : List Attachment) :
    l.checkAttachments attachments = l'.checkAttachments attachments := by
  induction attachments with
  | nil => rfl
  | cons a rest ih => rw [Limits.checkAttachments, Limits.checkAttachments, h.attachment, ih]

/-- The other limits make no difference to the check. -/
theorem SamePayload.checkPayload (h : SamePayload l l') (opts : SendOptions Cap) :
    l.checkPayload opts = l'.checkPayload opts := by
  rw [Limits.checkPayload, Limits.checkPayload, h.body, h.attachments, h.checkAttachments]

end Payload

/-! ## Refused by the client -/

section Client

variable {Net Cap : Type} [Curve] [Sha512] [Crypto] [Aead] {c : MailClient Net}
  {opts : SendOptions Cap} {draws : Nat → Draw} {now : UInt64}

/-- **Too large a payload is refused on an untouched network**, in words it has no part in. -/
theorem run_compose_of_outsized (h : Outsized c.limits opts) (draws : Nat → Draw)
    (now : UInt64) :
    ∃ message, ∀ (transport : Transport Net) (net : Net),
      (MailClient.compose { c with transport := transport } opts draws now).run.run net
        = (.error message, net) := by
  cases hto : parseNodeId opts.to with
  | error message =>
      refine ⟨message, ?_⟩
      intro transport net
      exact run_bind_of_error (run_lift_of_error hto net)
  | ok recipient =>
      cases hcheck : c.limits.checkPayload opts with
      | ok => exact absurd hcheck (outsized_iff.mp h)
      | error message =>
          refine ⟨message, ?_⟩
          intro transport net
          unfold MailClient.compose
          rw [run_bind_of_runs (runs_lift.mpr ⟨hto, rfl⟩)]
          exact run_bind_of_error (run_lift_of_error hcheck net)

omit [Sha512] in
theorem storeAttachments_with_limits (l : Limits) (recipient : NodeId) (i : Nat)
    (attachments : List Attachment) :
    MailClient.storeAttachments { c with limits := l } recipient draws i attachments
      = c.storeAttachments recipient draws i attachments := by
  induction attachments generalizing i with
  | nil => rfl
  | cons a rest ih =>
      rw [MailClient.storeAttachments, MailClient.storeAttachments, ih]
      rfl

/-- Nothing but the check looks at the limits. -/
theorem compose_of_samePayload {l : Limits} (h : SamePayload l c.limits) :
    MailClient.compose { c with limits := l } opts draws now = c.compose opts draws now := by
  unfold MailClient.compose
  simp only [h.checkPayload, storeAttachments_with_limits]
  rfl

theorem to_of_compose {net net' : Net} {env : Envelope}
    (h : Runs (c.compose opts draws now) net env net') :
    env.body.to = opts.to ∧ ∃ recipient, parseNodeId opts.to = .ok recipient := by
  obtain ⟨recipient, _, hlift, -⟩ := runs_bind.mp h
  obtain ⟨hparse, -⟩ := runs_lift.mp hlift
  obtain ⟨-, _, _, _, _, -, -, rfl⟩ := (runs_compose hparse).mp h
  exact ⟨rfl, recipient, hparse⟩

/-! ## Refused by the mailbox -/

/-- Who a message is delivered to, and with what grant. -/
def SendOptions.delivery (opts : SendOptions Cap) : String × List Cap :=
  match opts.mailbox with
  | some mb => (mb, opts.grant)
  | none => (opts.to, [])

variable [Bincode Cap] [Iam Cap]

omit [Bincode Cap] [Curve] [Sha512] [Crypto] [Aead] in
/-- An envelope over the limits is turned away with the first one it exceeds. -/
theorem MailService.gate_of_oversized {svc : MailService} {requester id : NodeId} {env : Envelope}
    {grant : List Cap} {isRevoked : NodeId → UInt64 → Bool} {message : String}
    (hto : parseNodeId env.body.to = .ok id)
    (hlimits : svc.limits.checkEnvelope env = .error message) :
    svc.gate requester now isRevoked (.deliver env grant) = .error message := by
  rw [gate, parseAs, hto, hlimits]
  rfl

omit [Curve] [Sha512] [Aead] [Iam Cap] in
theorem MailClient.deliver_eq (env : Envelope) :
    c.deliver opts env
      = c.roundTrip opts.delivery.1 (.deliver env opts.delivery.2) >>= fun reply =>
        match reply with
        | .delivered _ => pure env.messageId
        | .error message => throw s!"delivery rejected: {message}"
        | _ => throw "unexpected reply to Deliver: " := by
  unfold MailClient.deliver SendOptions.delivery
  cases opts.mailbox <;> rfl

omit [Curve] [Sha512] [Aead] [Iam Cap] in
/-- A delivery that is answered with an error fails with it. -/
theorem run_deliver_of_error {env : Envelope} {net net' : Net} {reply : List UInt8}
    {message : String}
    (hrequest : Runs (c.transport.request opts.delivery.1
      (MailRequest.deliver env opts.delivery.2).encode c.timeoutMs) net reply net')
    (hreply : MailReply.decode reply = .ok (.error message)) :
    (c.deliver opts env).run.run net = (.error s!"delivery rejected: {message}", net') := by
  have htrip : Runs (c.roundTrip opts.delivery.1 (.deliver env opts.delivery.2)) net
      (.error message) net' :=
    runs_bind.mpr ⟨reply, net', hrequest, runs_lift.mpr ⟨hreply, rfl⟩⟩
  rw [MailClient.deliver_eq, run_bind_of_runs htrip]
  rfl

end Client

/-! ## A sample -/

namespace Sample

/-- A subject over the default limit. -/
def wordy : SendOptions (NodeId × NodeId) :=
  { lookalike with subject := String.ofList (.replicate 4097 'a') }

def wordyRefusal : String := "subject too large: 4097 > 4096 bytes"

theorem utf8ByteSize_wordy : wordy.subject.utf8ByteSize = 4097 := by
  rw [← Utf8.byteLen_toList, wordy, String.toList_ofList, Utf8.byteLen, List.map_replicate,
    List.sum_replicate]
  rfl

/-- Alice, where each request is answered with that refusal. -/
def shunned : MailClient (List (List UInt8)) :=
  { alice with transport := { transport with
      request := fun _ _ _ => ExceptT.mk fun net =>
        (.ok (MailReply.error wordyRefusal).encode, net) } }

/-- The subject is too long for a mailbox, and the body is stored all the same. -/
theorem exists_runs_wordy (c : MailClient (List (List UInt8))) (hlimits : c.limits = default)
    (hput : c.transport.putBlob = transport.putBlob) : ∃ env blob,
    Runs (@MailClient.compose _ _ curve sha512 mailCrypto aead c wordy (fun _ => draw) 1)
        [] env [blob]
      ∧ (default : Limits).checkEnvelope env = .error wordyRefusal := by
  obtain ⟨name, blob, hsealed⟩ := exists_runs_putSealed c hput wordy.body (by decide) []
  refine ⟨_, blob, (@runs_compose _ _ curve sha512 mailCrypto aead c wordy _
    parseNodeId_recipient _ _ _ _ _).mpr
      ⟨?_, name, wordy.subject, [blob], [], ?_, rfl, rfl⟩, ?_⟩
  · rw [hlimits]
    decide
  · exact runs_bind.mpr ⟨name, [blob], hsealed, rfl⟩
  · have hsize : Limits.checkSize "subject" wordy.subject.utf8ByteSize
        (default : Limits).maxSubjectBytes = .error wordyRefusal := by
      rw [utf8ByteSize_wordy]
      decide +kernel
    rw [Limits.checkEnvelope]
    dsimp only [Envelope.seal]
    rw [hsize]
    rfl

end Sample

/-! ## Too large a message -/

section Client

variable {Net Cap : Type} [Curve] [Sha512] [Crypto] [Aead] [Bincode Cap] [Iam Cap]

/--
**What is too large is refused**, by the client or where it arrives. Too large a payload is
an error of `send` before anything is stored or requested, whatever the network; no other
limit of the client makes a difference to `send`. An envelope over the limits of a mailbox
is answered there with an error, which changes nothing and is the error of `send`.
-/
theorem oversized_refused (c : MailClient Net) (opts : SendOptions Cap) (draws : Nat → Draw)
    (now : UInt64) :
    (Outsized c.limits opts → ∃ message, ∀ (transport : Transport Net) (net : Net),
      (MailClient.send { c with transport := transport } opts draws now).run.run net
        = (.error message, net))
      ∧ (∀ l, SamePayload l c.limits →
        MailClient.send { c with limits := l } opts draws now = c.send opts draws now)
      ∧ ∀ (net net' : Net) (env : Envelope) (svc : MailService) (message : String),
        Runs (c.compose opts draws now) net env net' →
        svc.limits.checkEnvelope env = .error message →
        (∀ requester grant arrival isRevoked,
          svc.handle requester (.deliver env grant : MailRequest Cap) arrival isRevoked
            = (svc, .ok (.error message)))
        ∧ ∀ reply net'', Runs (c.transport.request opts.delivery.1
            (MailRequest.deliver env opts.delivery.2).encode c.timeoutMs) net' reply net'' →
          MailReply.decode reply = .ok (.error message) →
          (c.send opts draws now).run.run net
            = (.error s!"delivery rejected: {message}", net'') := by
  refine ⟨?_, ?_, ?_⟩
  · intro h
    obtain ⟨message, hcompose⟩ := run_compose_of_outsized h draws now
    refine ⟨message, ?_⟩
    intro transport net
    exact run_bind_of_error (hcompose transport net)
  · intro l h
    unfold MailClient.send
    rw [compose_of_samePayload h]
    rfl
  · intro net net' env svc message hsent hlimits
    obtain ⟨hto, recipient, hparse⟩ := to_of_compose hsent
    refine ⟨?_, ?_⟩
    · intro requester grant arrival isRevoked
      rw [← hto] at hparse
      exact MailService.handle_of_error (MailService.gate_of_oversized hparse hlimits)
    · intro reply net'' hrequest hreply
      rw [MailClient.send, run_bind_of_runs hsent]
      exact run_deliver_of_error hrequest hreply

end Client

/-- The theorem for a body over a limit of 8 bytes, and a subject over that of the mailbox. -/
theorem oversized_refused_sample :
    (∃ message, ∀ (transport : Transport (List (List UInt8))) (net : List (List UInt8)),
      (@MailClient.send _ _ Sample.curve Sample.sha512 Sample.mailCrypto Sample.aead
        { Sample.alice with limits := { (default : Limits) with maxBodyBytes := 8 },
                            transport := transport }
        _ Sample.lookalike (fun _ => Sample.draw) 1).run.run net = (.error message, net))
      ∧ ∃ env blob,
        @MailService.handle _ Sample.mailCrypto Sample.iam (.new (.new Sample.recipient 1))
            Sample.sender (.deliver env []) 1 (fun _ _ => false)
          = (.new (.new Sample.recipient 1), .ok (.error Sample.wordyRefusal))
        ∧ (@MailClient.send _ _ Sample.curve Sample.sha512 Sample.mailCrypto Sample.aead
            Sample.shunned _ Sample.wordy (fun _ => Sample.draw) 1).run.run []
          = (.error s!"delivery rejected: {Sample.wordyRefusal}", [blob]) := by
  refine ⟨?_, ?_⟩
  · exact (@oversized_refused _ _ Sample.curve Sample.sha512 Sample.mailCrypto Sample.aead _
      Sample.iam { Sample.alice with limits := { (default : Limits) with maxBodyBytes := 8 } }
      Sample.lookalike (fun _ => Sample.draw) 1).1 (Or.inl (by decide))
  · obtain ⟨env, blob, hsent, hlimits⟩ := Sample.exists_runs_wordy Sample.shunned rfl rfl
    obtain ⟨hanswer, hfails⟩ := (@oversized_refused _ _ Sample.curve Sample.sha512 Sample.mailCrypto
      Sample.aead _ Sample.iam Sample.shunned Sample.wordy (fun _ => Sample.draw) 1).2.2 [] [blob]
      env (.new (.new Sample.recipient 1)) Sample.wordyRefusal hsent hlimits
    exact ⟨env, blob, hanswer _ _ _ _, hfails _ [blob] rfl (by decide +kernel)⟩

/-- A subject over the client's own limit is sent, and the body stored. -/
theorem long_subject_sent : ∃ env blob,
    Runs (@MailClient.compose _ _ Sample.curve Sample.sha512 Sample.mailCrypto Sample.aead
        Sample.alice Sample.wordy (fun _ => Sample.draw) 1) [] env [blob]
      ∧ Sample.alice.limits.checkEnvelope env = .error Sample.wordyRefusal
      ∧ Runs (@MailClient.send _ _ Sample.curve Sample.sha512 Sample.mailCrypto Sample.aead
        Sample.alice _ Sample.wordy (fun _ => Sample.draw) 1) []
        (@Envelope.messageId Sample.mailCrypto env) [blob] := by
  obtain ⟨env, blob, hsent, hlimits⟩ := Sample.exists_runs_wordy Sample.alice rfl rfl
  refine ⟨env, blob, hsent, hlimits, ?_⟩
  refine runs_bind.mpr ⟨env, [blob], hsent, ?_⟩
  unfold Runs
  rw [@MailClient.deliver_eq _ _ Sample.mailCrypto]
  rfl

end CeMail
