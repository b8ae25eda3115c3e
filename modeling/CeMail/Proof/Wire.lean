import CeMail.Model.Attachment
import CeMail.Model.Proto
import CeMail.Model.SealedBox
import CeMail.Proof.StoreRun

/-!
# The wire format

Everything that travels or is signed is written by one codec, and all that is said here
comes of two facts about it: a value is read back from its own bytes whatever follows them,
and no proper start of those bytes reads as anything. A signature is therefore over the
bytes of one statement only.
-/

namespace CeMail

/--
**Wire format round-trip.** Every request and reply, envelope, receipt, sealed body and
attachment is decoded from its own bytes followed by any others, and from no proper start
of them. What `Fits` asks is that no length is past what memory holds.
-/
theorem wire_roundTrips (Cap : Type) [Bincode Cap] :
    (∀ r : MailRequest Cap, Bincode.Fits r →
        Bincode.RoundTrips MailRequest.encode MailRequest.decode r)
      ∧ (∀ r : MailReply, Bincode.Fits r → Bincode.RoundTrips MailReply.encode MailReply.decode r)
      ∧ (∀ e : Envelope, Bincode.Fits e → Bincode.RoundTrips Envelope.encode Envelope.decode e)
      ∧ (∀ r : Receipt, Bincode.Fits r → Bincode.RoundTrips Receipt.encode Receipt.decode r)
      ∧ (∀ s : SealedBody, Bincode.Fits s → Bincode.RoundTrips encodeSealed decodeSealed s)
      ∧ ∀ a : Attachment, Bincode.Fits a →
        Bincode.RoundTrips Attachment.encode Attachment.decode a :=
  ⟨fun _ h => Bincode.roundTrips h _, fun _ h => Bincode.roundTrips h _,
    fun _ h => Bincode.roundTrips h _, fun _ h => Bincode.roundTrips h _,
    fun _ h => Bincode.roundTrips h _, fun _ h => Bincode.roundTrips h _⟩

/-- Requests round-trip: here one with a string and no capabilities. -/
theorem wire_roundTrips_sample :
    Bincode.RoundTrips MailRequest.encode MailRequest.decode
      (.collectReceipts Sample.sender.hex [] : MailRequest NodeId) :=
  (wire_roundTrips NodeId).1 _
    ⟨trivial, Bincode.fits_string (by decide +kernel), by decide, fun _ h => by cases h⟩

/-! ## One wire form -/

instance : Bincode.Canonical EnvelopeBody := by
  unfold instBincodeEnvelopeBody
  refine Bincode.Canonical.via ?_
  intro y x h
  cases h
  rfl

instance : Bincode.Canonical Envelope := by
  unfold instBincodeEnvelope
  refine Bincode.Canonical.via ?_
  intro e x h
  rcases e with ⟨body, sig⟩
  obtain ⟨_, hx⟩ := Option.dite_none_right_eq_some.mp h
  cases hx
  rfl

instance : Bincode.Canonical StoredEnvelope := by
  unfold instBincodeStoredEnvelope
  refine Bincode.Canonical.via ?_
  intro y x h
  cases h
  rfl

instance : Bincode.Canonical ReceiptKind := by
  unfold instBincodeReceiptKind
  refine Bincode.Canonical.via ?_
  intro n k h
  split at h
  · rename_i hn
    cases h
    exact hn.symm
  · obtain ⟨hn, hk⟩ := Option.ite_none_right_eq_some.mp h
    cases hk
    exact hn.symm

instance : Bincode.Canonical ReceiptBody := by
  unfold instBincodeReceiptBody
  refine Bincode.Canonical.via ?_
  intro y x h
  cases h
  rfl

instance : Bincode.Canonical Receipt := by
  unfold instBincodeReceipt
  refine Bincode.Canonical.via ?_
  intro r x h
  rcases r with ⟨body, sig⟩
  obtain ⟨_, hx⟩ := Option.dite_none_right_eq_some.mp h
  cases hx
  rfl

instance : Bincode.Canonical Attachment := by
  unfold instBincodeAttachment
  refine Bincode.Canonical.via ?_
  intro y x h
  cases h
  rfl

/-! ## Signing bytes -/

/-- Different bytes have different digits. -/
theorem hexEncode_inj {a b : List UInt8} (h : hexEncode a = hexEncode b) : a = b := by
  have hdigits : a.flatMap hexPair = b.flatMap hexPair := String.ofList_injective h
  have hdec := hexDecode_flatMap a
  rw [hdigits, hexDecode_flatMap] at hdec
  exact (Option.some.inj hdec).symm

theorem ReceiptKind.tag_inj {a b : ReceiptKind} (h : a.tag = b.tag) : a = b := by
  cases a <;> cases b
  · rfl
  · exact absurd h (by decide)
  · exact absurd h (by decide)
  · rfl

theorem fits_envelopeDomain : Bincode.Fits envelopeDomain := ⟨by decide, fun _ _ => trivial⟩

theorem fits_receiptDomain : Bincode.Fits receiptDomain := ⟨by decide, fun _ _ => trivial⟩

/-- **An envelope's signing bytes are of one body only.** -/
theorem envelopeSigningBytes_inj {a b : EnvelopeBody} (ha : Bincode.Fits a) (hb : Bincode.Fits b)
    (h : envelopeSigningBytes a = envelopeSigningBytes b) : a = b := by
  have hfits : ∀ e : EnvelopeBody, Bincode.Fits e → Bincode.Fits (envelopeDomain, e.from, e.to,
      e.subject, e.bodyCid, e.attachmentCids, e.inReplyTo, e.sentAt, e.postageReceipt) :=
    fun _ he => ⟨fits_envelopeDomain, he⟩
  have hfields := Bincode.enc_inj (hfits a ha) (hfits b hb) h
  cases a
  cases b
  cases hfields
  rfl

/-- **A receipt's signing bytes are of one body only.** -/
theorem receiptSigningBytes_inj {a b : ReceiptBody} (ha : Bincode.Fits a) (hb : Bincode.Fits b)
    (h : receiptSigningBytes a = receiptSigningBytes b) : a = b := by
  -- the kind goes in as its tag, a single byte
  have hfits : ∀ r : ReceiptBody, Bincode.Fits r → Bincode.Fits (receiptDomain, r.messageId, r.by,
      r.kind.tag, r.at) :=
    fun _ ⟨hmessage, hby, _, hat⟩ => ⟨fits_receiptDomain, hmessage, hby, trivial, hat⟩
  have hfields := Bincode.enc_inj (hfits a ha) (hfits b hb) h
  simp only [Prod.mk.injEq, true_and] at hfields
  obtain ⟨hmessage, hby, htag, hat⟩ := hfields
  have hkind := ReceiptKind.tag_inj htag
  cases a
  cases b
  cases hmessage
  cases hby
  cases hkind
  cases hat
  rfl

/-- **No bytes are signed both as an envelope and as a receipt**: the domains differ. -/
theorem envelopeSigningBytes_ne_receiptSigningBytes (e : EnvelopeBody) (r : ReceiptBody) :
    envelopeSigningBytes e ≠ receiptSigningBytes r := by
  intro h
  have henvelope := Bincode.dec_enc envelopeDomain fits_envelopeDomain
    (Bincode.enc (e.from, e.to, e.subject, e.bodyCid, e.attachmentCids, e.inReplyTo, e.sentAt,
      e.postageReceipt))
  have hreceipt := Bincode.dec_enc receiptDomain fits_receiptDomain
    (Bincode.enc (r.messageId, r.by, r.kind.tag, r.at))
  change Bincode.dec (envelopeSigningBytes e) = _ at henvelope
  change Bincode.dec (receiptSigningBytes r) = _ at hreceipt
  rw [h, hreceipt] at henvelope
  exact absurd (Prod.mk.inj (Option.some.inj henvelope)).1 (by decide)

/--
**Signatures bind exactly one statement.** Signing bytes are of one envelope body or of one
receipt body, and never of both. So two envelopes whose signing bytes SHA-256 tells apart
share a message id only if their bodies are equal in every field.
-/
theorem signing_binds [Crypto] :
    (∀ a b : EnvelopeBody, Bincode.Fits a → Bincode.Fits b →
        envelopeSigningBytes a = envelopeSigningBytes b → a = b)
      ∧ (∀ a b : ReceiptBody, Bincode.Fits a → Bincode.Fits b →
        receiptSigningBytes a = receiptSigningBytes b → a = b)
      ∧ (∀ e r, envelopeSigningBytes e ≠ receiptSigningBytes r)
      ∧ ∀ a b : Envelope, Bincode.Fits a.body → Bincode.Fits b.body →
        Set.InjOn Crypto.sha256 {envelopeSigningBytes a.body, envelopeSigningBytes b.body} →
          a.messageId = b.messageId → a.body = b.body := by
  refine ⟨fun _ _ ha hb => envelopeSigningBytes_inj ha hb,
    fun _ _ ha hb => receiptSigningBytes_inj ha hb, envelopeSigningBytes_ne_receiptSigningBytes, ?_⟩
  intro a b ha hb hsha hid
  have hhash : Crypto.sha256 (envelopeSigningBytes a.body)
      = Crypto.sha256 (envelopeSigningBytes b.body) := Subtype.ext (hexEncode_inj hid)
  exact envelopeSigningBytes_inj ha hb (hsha (Or.inl rfl) (Or.inr rfl) hhash)

/-- Different bodies have different ids: here two that differ in the subject. -/
theorem signing_binds_sample :
    @Envelope.messageId Sample.crypto Sample.first
      ≠ @Envelope.messageId Sample.crypto Sample.second := by
  intro h
  have hfits : ∀ e ∈ [Sample.first, Sample.second], Bincode.Fits e.body := by
    have hlen : ∀ e ∈ [Sample.first, Sample.second], (Bincode.enc e.body).length < 2 ^ 64 := by
      decide +kernel
    exact fun e he => Bincode.Canonical.fits e.body (hlen e he)
  have hsha : Set.InjOn (@Crypto.sha256 Sample.crypto)
      {envelopeSigningBytes Sample.first.body, envelopeSigningBytes Sample.second.body} := by
    have hne : @Crypto.sha256 Sample.crypto (envelopeSigningBytes Sample.first.body)
        ≠ @Crypto.sha256 Sample.crypto (envelopeSigningBytes Sample.second.body) := by
      decide +kernel
    intro a ha b hb hab
    rcases ha with rfl | rfl
    · rcases hb with rfl | rfl
      · rfl
      · exact absurd hab hne
    · rcases hb with rfl | rfl
      · exact absurd hab.symm hne
      · rfl
  have hbody := (@signing_binds Sample.crypto).2.2.2 Sample.first Sample.second
    (hfits _ (by simp)) (hfits _ (by simp)) hsha h
  exact absurd hbody (by decide +kernel)

end CeMail
