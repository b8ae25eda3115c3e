import CeMail.Proof.Delivery
import CeMail.Proof.Screening
import CeMail.Proof.Thread

/-!
# Nothing forged is shown

A client believes no mailbox and no network: it checks every envelope it was given and every
receipt, so whatever bytes come back, what it shows under the name of a node was signed by
it. As far as the signatures of a node cannot be forged, mail in its name is mail it
composed and an acknowledgement in its name is one it issued, and neither passes for the
other.
-/

namespace CeMail

open Effect

section Transport

variable {Net Cap : Type} [Bincode Cap] [Curve] [Sha512] [Crypto] [Aead] {c : MailClient Net}
  {node : NodeId} {composed : Set EnvelopeBody} {issued : Set ReceiptBody}

/-- What a reply comes in is a vector of bytes. -/
def Transport.InMemory (t : Transport Net) : Prop :=
  ∀ «to» payload timeoutMs,
    Yields (t.request «to» payload timeoutMs) fun reply => reply.length < 2 ^ 64

/-- Only what the node signs verifies under its key: the bodies it composed, the receipts it
issued. -/
structure Unforgeable (node : NodeId) (composed : Set EnvelopeBody) (issued : Set ReceiptBody) :
    Prop where
  signed : ∀ bytes sig, Crypto.verify node bytes sig = true →
    (∃ body ∈ composed, bytes = envelopeSigningBytes body)
      ∨ ∃ body ∈ issued, bytes = receiptSigningBytes body
  composed : ∀ body ∈ composed, Bincode.Fits body
  issued : ∀ body ∈ issued, Bincode.Fits body

omit [Bincode Cap] [Curve] [Sha512] [Aead] in
/-- An envelope in the node's name that verifies has a body it composed. -/
theorem mem_composed_of_verify (h : Unforgeable node composed issued) {e : Envelope}
    (hfits : Bincode.Fits e) (hverify : e.verify = .ok ())
    (hfrom : parseNodeId e.body.from = .ok node) : e.body ∈ composed := by
  unfold Envelope.verify at hverify
  rw [hfrom] at hverify
  dsimp only at hverify
  split at hverify
  · rename_i hsig
    rcases h.signed _ _ hsig with ⟨body, hbody, hbytes⟩ | ⟨body, -, hbytes⟩
    · have heq : e.body = body := envelopeSigningBytes_inj hfits.1 (h.composed body hbody) hbytes
      rw [heq]
      exact hbody
    · exact absurd hbytes (envelopeSigningBytes_ne_receiptSigningBytes e.body body)
  · cases hverify

omit [Bincode Cap] [Curve] [Sha512] [Aead] in
/-- A receipt in the node's name that verifies has a body it issued. -/
theorem mem_issued_of_verify (h : Unforgeable node composed issued) {r : Receipt}
    (hfits : Bincode.Fits r) (hverify : r.verify = .ok ())
    (hby : parseNodeId r.body.by = .ok node) : r.body ∈ issued := by
  unfold Receipt.verify at hverify
  rw [hby] at hverify
  dsimp only at hverify
  split at hverify
  · rename_i hsig
    rcases h.signed _ _ hsig with ⟨body, -, hbytes⟩ | ⟨body, hbody, hbytes⟩
    · exact absurd hbytes.symm (envelopeSigningBytes_ne_receiptSigningBytes body r.body)
    · have heq : r.body = body := receiptSigningBytes_inj hfits.1 (h.issued body hbody) hbytes
      rw [heq]
      exact hbody
  · cases hverify

/-! ## Programs -/

omit [Curve] [Sha512] [Crypto] [Aead] in
/-- What was decoded from bytes in memory is no larger than they. -/
theorem fits_of_roundTrip (hmem : c.transport.InMemory) («to» : String) (req : MailRequest Cap) :
    Yields (c.roundTrip «to» req) (fun reply => Bincode.Fits reply) := by
  refine (hmem _ _ _).bind fun bytes hbytes => yields_lift ?_
  intro reply hdecode
  unfold MailReply.decode Bincode.deserialize at hdecode
  split at hdecode
  · rename_i rest hdec
    obtain rfl := Except.ok.inj hdecode
    have hexact := Bincode.Canonical.exact hdec
    refine Bincode.Canonical.fits _ (Nat.lt_of_le_of_lt ?_ hbytes)
    rw [hexact, List.length_append]
    exact Nat.le_add_right _ _
  · cases hdecode

omit [Bincode Cap] in
/-- What a batch shows in the node's name. -/
theorem authentic_composeMessages (h : Unforgeable node composed issued) {envs : List Envelope}
    (hfits : ∀ e ∈ envs, Bincode.Fits e) :
    Yields (c.composeMessages envs) fun messages => ∀ m ∈ messages,
      parseNodeId m.envelope.body.from = .ok node → m.envelope.body ∈ composed := by
  intro net messages net' hrun m hm hfrom
  have hmem : m.envelope ∈ envs.filter fun e => e.verify = .ok () := by
    rw [← envelopes_composeMessages hrun]
    exact List.mem_map_of_mem hm
  obtain ⟨henv, hverify⟩ := List.mem_filter.mp hmem
  exact mem_composed_of_verify h (hfits _ henv) (of_decide_eq_true hverify) hfrom

theorem authentic_drainInbox (hmem : c.transport.InMemory) (h : Unforgeable node composed issued)
    (mailbox : String) (since : UInt64) (grant : List Cap) :
    Yields (c.drainInbox mailbox since grant) fun r => ∀ m ∈ r.1,
      parseNodeId m.envelope.body.from = .ok node → m.envelope.body ∈ composed := by
  refine (fits_of_roundTrip hmem mailbox _).bind fun reply hfits => ?_
  cases reply with
  | drained envelopes cursor =>
      refine (authentic_composeMessages h ?_).bind fun messages hmessages => yields_pure hmessages
      exact fun e he => hfits.2.1.2 e he
  | _ => exact yields_throw _

theorem authentic_drainInboxPage (hmem : c.transport.InMemory)
    (h : Unforgeable node composed issued) (mailbox : String) (since limit : UInt64)
    (grant : List Cap) :
    Yields (c.drainInboxPage mailbox since limit grant) fun r => ∀ m ∈ r.1,
      parseNodeId m.envelope.body.from = .ok node → m.envelope.body ∈ composed := by
  refine (fits_of_roundTrip hmem mailbox _).bind fun reply hfits => ?_
  cases reply with
  | page envelopes cursor more =>
      refine (authentic_composeMessages h ?_).bind fun messages hmessages => yields_pure hmessages
      exact fun e he => hfits.2.1.2 e he
  | _ => exact yields_throw _

theorem authentic_drainInboxThreaded (hmem : c.transport.InMemory)
    (h : Unforgeable node composed issued) (mailbox : String) (since : UInt64) (grant : List Cap) :
    Yields (c.drainInboxThreaded mailbox since grant) fun r => ∀ conv ∈ r.1, ∀ e ∈ conv.messages,
      parseNodeId e.body.from = .ok node → e.body ∈ composed := by
  refine (authentic_drainInbox hmem h mailbox since grant).bind fun r hr => yields_pure ?_
  intro conv hconv e he
  -- a conversation is made of messages that were drained
  have hmem' := mem_of_mem_dedup ((mem_messages (groupsInto_groupThreads _) hconv).mp he).1
  obtain ⟨m, hm, rfl⟩ := List.mem_map.mp hmem'
  exact hr m hm

theorem authentic_screenInbox (hmem : c.transport.InMemory) (h : Unforgeable node composed issued)
    (standingOf : String → NetM Net SenderStanding) (mailbox : String) (since : UInt64)
    (grant : List Cap) (policy : ScreeningPolicy) (verifyPostage : String → Option Amount) :
    Yields (c.screenInbox standingOf mailbox since grant policy verifyPostage) fun r =>
      ∀ m ∈ r.1 ++ r.2.1,
        parseNodeId m.envelope.body.from = .ok node → m.envelope.body ∈ composed := by
  refine (authentic_drainInbox hmem h mailbox since grant).bind fun r hr => ?_
  intro net result net' hrun m hm
  obtain ⟨screened, net₁, hscreened, hpure⟩ := runs_bind.mp hrun
  obtain ⟨rfl, -⟩ := runs_pure.mp hpure
  have hmessages := (screenMessages_runs hscreened).1
  refine hr m ?_
  rw [← hmessages]
  rcases List.mem_append.mp hm with hm | hm <;>
    exact (List.filter_sublist.map Screened.message).subset hm

omit [Aead] in
theorem authentic_collectReceipts (hmem : c.transport.InMemory)
    (h : Unforgeable node composed issued) (mailbox : String) (grant : List Cap) :
    Yields (c.collectReceipts mailbox grant) fun receipts => ∀ r ∈ receipts,
      parseNodeId r.body.by = .ok node → r.body ∈ issued := by
  refine (fits_of_roundTrip hmem mailbox _).bind fun reply hfits => ?_
  cases reply with
  | receipts receipts =>
      refine yields_pure ?_
      intro r hr hby
      obtain ⟨hmem', hverify⟩ := List.mem_filter.mp hr
      exact mem_issued_of_verify h (hfits.2.2 r hmem') (of_decide_eq_true hverify) hby
  | _ => exact yields_throw _

/--
**Nothing forged is shown, over any network.** Whatever a mailbox and the network between do
to the replies, and however a client drains its inbox (at once, in pages, in conversations
or screened), mail it shows in the name of a node that keeps its key is mail that node
composed; and a receipt it collects in such a name is one that node issued.
-/
theorem nothing_forged_is_shown (Cap : Type) [Bincode Cap] (hmem : c.transport.InMemory)
    (h : Unforgeable node composed issued) (mailbox : String) (grant : List Cap) :
    (∀ since, Yields (c.drainInbox mailbox since grant) fun r => ∀ m ∈ r.1,
        parseNodeId m.envelope.body.from = .ok node → m.envelope.body ∈ composed)
      ∧ (∀ since limit, Yields (c.drainInboxPage mailbox since limit grant) fun r => ∀ m ∈ r.1,
        parseNodeId m.envelope.body.from = .ok node → m.envelope.body ∈ composed)
      ∧ (∀ since, Yields (c.drainInboxThreaded mailbox since grant) fun r => ∀ conv ∈ r.1,
        ∀ e ∈ conv.messages, parseNodeId e.body.from = .ok node → e.body ∈ composed)
      ∧ (∀ standingOf since policy verifyPostage,
        Yields (c.screenInbox standingOf mailbox since grant policy verifyPostage) fun r =>
          ∀ m ∈ r.1 ++ r.2.1,
            parseNodeId m.envelope.body.from = .ok node → m.envelope.body ∈ composed)
      ∧ Yields (c.collectReceipts mailbox grant) fun receipts => ∀ r ∈ receipts,
        parseNodeId r.body.by = .ok node → r.body ∈ issued :=
  ⟨fun since => authentic_drainInbox hmem h mailbox since grant,
    fun since limit => authentic_drainInboxPage hmem h mailbox since limit grant,
    fun since => authentic_drainInboxThreaded hmem h mailbox since grant,
    fun standingOf since policy verifyPostage =>
      authentic_screenInbox hmem h standingOf mailbox since grant policy verifyPostage,
    authentic_collectReceipts hmem h mailbox grant⟩

end Transport

namespace Sample

/-- The sender of the three envelopes composed no other. -/
theorem unforgeable_sender :
    @Unforgeable crypto sender {first.body, second.body, shouted.body} ∅ := by
  refine @Unforgeable.mk crypto _ _ _ ?_ ?_ fun body hbody => hbody.elim
  · intro bytes sig hverify
    obtain ⟨-, hany⟩ := Bool.and_eq_true_iff.mp hverify
    obtain ⟨e, he, hsig⟩ := List.any_eq_true.mp hany
    obtain ⟨-, hbytes⟩ := Bool.and_eq_true_iff.mp hsig
    refine Or.inl ⟨e.body, ?_, (of_decide_eq_true hbytes).symm⟩
    simp only [List.mem_cons, List.not_mem_nil, or_false] at he
    rcases he with rfl | rfl | rfl
    · exact Set.mem_insert _ _
    · exact Set.mem_insert_of_mem _ (Set.mem_insert _ _)
    · exact Set.mem_insert_of_mem _ (Set.mem_insert_of_mem _ rfl)
  · intro body hbody
    have hcases : body = first.body ∨ body = second.body ∨ body = shouted.body := hbody
    rcases hcases with rfl | rfl | rfl
    · exact Bincode.Canonical.fits _ (by decide +kernel)
    · exact Bincode.Canonical.fits _ (by decide +kernel)
    · exact Bincode.Canonical.fits _ (by decide +kernel)

/-- `first` with another subject under its signature. -/
def forged : Envelope := { first with body := { first.body with subject := "c" } }

/-- The recipient on a network that answers every request with `first` and with the forgery. -/
def misled : MailClient Unit where
  identity := ⟨recipientSeed, fun _ => bytes 64 0⟩
  transport := ⟨fun _ => throw "no blobs", fun _ => throw "no blobs",
    fun _ _ _ => pure (MailReply.drained [first, forged] 2).encode⟩

theorem inMemory_misled : misled.transport.InMemory := by
  intro «to» payload timeoutMs
  exact yields_pure (by decide +kernel)

theorem runs_drain_forged :
    Runs (@MailClient.drainInbox _ (NodeId × NodeId) curve sha512 crypto aead misled _ mailbox.hex 0
      []) () ([⟨first, [], none⟩], 2) () := by
  have hverify : @Envelope.verify crypto first = .ok () := by decide +kernel
  have hforged : ¬@Envelope.verify crypto forged = .ok () := by decide +kernel
  have hopen : @MailClient.openContent _ curve sha512 crypto aead misled first
      = (pure ([], none) : NetM Unit _) := rfl
  refine runs_bind.mpr ⟨.drained [first, forged] 2, (), ?_, ?_⟩
  · exact runs_bind.mpr ⟨_, (), rfl, runs_lift.mpr ⟨decode_encode_reply (by decide +kernel), rfl⟩⟩
  · refine runs_bind.mpr ⟨[⟨first, [], none⟩], (), ?_, rfl⟩
    unfold MailClient.composeMessages
    rw [if_pos hverify, hopen]
    unfold MailClient.composeMessages
    rw [if_neg hforged]
    rfl

end Sample

/-- The theorem for a network that serves a forgery, where the original is all that is shown. -/
theorem nothing_forged_is_shown_sample :
    Runs (@MailClient.drainInbox _ (NodeId × NodeId) Sample.curve Sample.sha512 Sample.crypto
        Sample.aead Sample.misled _ Sample.mailbox.hex 0 []) () ([⟨Sample.first, [], none⟩], 2) ()
      ∧ Sample.first.body
        ∈ ({Sample.first.body, Sample.second.body, Sample.shouted.body} : Set EnvelopeBody) := by
  refine ⟨Sample.runs_drain_forged, ?_⟩
  have hshown := (@nothing_forged_is_shown _ Sample.curve Sample.sha512 Sample.crypto Sample.aead
    Sample.misled Sample.sender _ _ (NodeId × NodeId) _ Sample.inMemory_misled
    Sample.unforgeable_sender Sample.mailbox.hex []).1 0
  exact hshown _ _ _ Sample.runs_drain_forged _ (List.mem_singleton_self _)
    (parseNodeId_hex Sample.sender)

/-! ## On a network -/

section Network

variable {Cap : Type} [Bincode Cap] [Curve] [Sha512] [Crypto] [Aead] [Iam Cap]

variable {selfId : NodeId} {capacity : UInt64} {limits : Limits} [Bincode.Canonical Cap]

end Network

namespace Sample

end Sample

end CeMail
