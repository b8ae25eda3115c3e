import CeMail.Proof.Delivery

/-!
# What a message gives away

The body, the attachments and a sealed subject leave the sender in boxes only. Two messages
with the same header, the same number of parts and the same ciphertexts are therefore sent
alike: the same is stored, the same envelope is signed and delivered, and the sender is told
the same, on any network and whatever fails on it.

For one cipher equal ciphertexts mean equal plaintexts. So the two messages are sent under
two ciphers: whoever cannot tell the one cipher on the one message from the other cipher on
the other learns nothing from the network about which of the two was sent.
-/

namespace CeMail

open Effect

section Client

variable {Net Cap : Type} [Curve] [Sha512] [Crypto] {c : MailClient Net}
  {opts opts' : SendOptions Cap} {aead aead' : Aead}

/-- There is a blob for the body. -/
def SendOptions.HasBody (opts : SendOptions Cap) : Prop := opts.sealSubject = true ∨ opts.body ≠ []

/-- Everything that is not sealed is the same. -/
structure SamePublic (opts opts' : SendOptions Cap) : Prop where
  «to» : opts.to = opts'.to
  subject : opts.sealSubject = false → opts.subject = opts'.subject
  inReplyTo : opts.inReplyTo = opts'.inReplyTo
  sealSubject : opts.sealSubject = opts'.sealSubject
  postageReceipt : opts.postageReceipt = opts'.postageReceipt
  delivery : opts.delivery = opts'.delivery
  hasBody : opts.HasBody ↔ opts'.HasBody

/-- One cipher makes of one message the boxes that another makes of another. -/
structure SealsAlike (aead aead' : Aead) (recipient : NodeId) (draws : Nat → Draw)
    (opts opts' : SendOptions Cap) : Prop where
  body : opts.HasBody →
    @SealedBody.seal _ _ aead recipient opts.plaintext (draws 0).1 (draws 0).2
      = @SealedBody.seal _ _ aead' recipient opts'.plaintext (draws 0).1 (draws 0).2
  attachments : ∀ i,
    opts.attachments[i]?.map (fun a =>
        @SealedBody.seal _ _ aead recipient a.encode (draws (i + 1)).1 (draws (i + 1)).2)
      = opts'.attachments[i]?.map fun a =>
        @SealedBody.seal _ _ aead' recipient a.encode (draws (i + 1)).1 (draws (i + 1)).2

omit [Sha512] in
/-- Of a plaintext a box has the ciphertext. -/
theorem seal_congr {recipient : NodeId} {plaintext plaintext' : List UInt8} {random : Bytes 32}
    {nonce : Bytes 12}
    (h : ∀ key, aead.encrypt key nonce plaintext = aead'.encrypt key nonce plaintext') :
    @SealedBody.seal _ _ aead recipient plaintext random nonce
      = @SealedBody.seal _ _ aead' recipient plaintext' random nonce := by
  unfold SealedBody.seal
  simp only [h]

omit [Sha512] in
/-- Nothing of a plaintext but its box gets to the network. -/
theorem putSealed_congr {recipient : NodeId} {plaintext plaintext' : List UInt8} {draw : Draw}
    (h : @SealedBody.seal _ _ aead recipient plaintext draw.1 draw.2
      = @SealedBody.seal _ _ aead' recipient plaintext' draw.1 draw.2) :
    @MailClient.putSealed _ _ _ aead c recipient plaintext draw
      = @MailClient.putSealed _ _ _ aead' c recipient plaintext' draw := by
  unfold MailClient.putSealed
  rw [h]

omit [Sha512] in
theorem storeAttachments_congr {recipient : NodeId} {draws : Nat → Draw}
    {attachments attachments' : List Attachment} {k : Nat}
    (h : ∀ i, attachments[i]?.map (fun a =>
        @SealedBody.seal _ _ aead recipient a.encode (draws (k + i)).1 (draws (k + i)).2)
      = attachments'[i]?.map fun a =>
        @SealedBody.seal _ _ aead' recipient a.encode (draws (k + i)).1 (draws (k + i)).2) :
    @MailClient.storeAttachments _ _ _ aead c recipient draws k attachments
      = @MailClient.storeAttachments _ _ _ aead' c recipient draws k attachments' := by
  induction attachments generalizing attachments' k with
  | nil =>
      cases attachments' with
      | nil => rfl
      | cons a' rest' => cases h 0
  | cons a rest ih =>
      cases attachments' with
      | nil => cases h 0
      | cons a' rest' =>
          have hfirst : @SealedBody.seal _ _ aead recipient a.encode (draws k).1 (draws k).2
              = @SealedBody.seal _ _ aead' recipient a'.encode (draws k).1 (draws k).2 :=
            Option.some.inj (h 0)
          have hrest : @MailClient.storeAttachments _ _ _ aead c recipient draws (k + 1) rest
              = @MailClient.storeAttachments _ _ _ aead' c recipient draws (k + 1) rest' := by
            refine ih fun i => ?_
            have hnext := h (i + 1)
            rw [List.getElem?_cons_succ, List.getElem?_cons_succ] at hnext
            rw [Nat.add_right_comm]
            exact hnext
          unfold MailClient.storeAttachments
          rw [putSealed_congr hfirst, hrest]

omit [Sha512] in
theorem storeBody_congr (h : SamePublic opts opts') {recipient : NodeId} {draw : Draw}
    (hbox : opts.HasBody → @SealedBody.seal _ _ aead recipient opts.plaintext draw.1 draw.2
      = @SealedBody.seal _ _ aead' recipient opts'.plaintext draw.1 draw.2) :
    @MailClient.storeBody _ _ _ _ aead c recipient opts draw
      = @MailClient.storeBody _ _ _ _ aead' c recipient opts' draw := by
  unfold MailClient.storeBody
  rcases Bool.eq_false_or_eq_true opts.sealSubject with hsealed | hplain
  · have hsealed' : opts'.sealSubject = true := h.sealSubject ▸ hsealed
    have hput := @putSealed_congr Net _ _ c aead aead' _ _ _ _ (hbox (Or.inl hsealed))
    rw [SendOptions.plaintext, SendOptions.plaintext, if_pos hsealed, if_pos hsealed'] at hput
    rw [if_pos hsealed, if_pos hsealed', hput]
  · have hplain' : opts'.sealSubject = false := h.sealSubject ▸ hplain
    have hstore : @MailClient.sealAndStore _ _ _ aead c recipient opts.body draw
        = @MailClient.sealAndStore _ _ _ aead' c recipient opts'.body draw := by
      unfold MailClient.sealAndStore
      have hempty : opts.body = [] ↔ opts'.body = [] := by
        have hbody := h.hasBody
        simp only [SendOptions.HasBody, hplain, hplain', Bool.false_eq_true, false_or] at hbody
        exact not_iff_not.mp hbody
      by_cases hnone : opts.body = []
      · rw [if_pos hnone, if_pos (hempty.mp hnone)]
      · have hput := @putSealed_congr Net _ _ c aead aead' _ _ _ _ (hbox (Or.inr hnone))
        rw [SendOptions.plaintext, SendOptions.plaintext, hplain, hplain'] at hput
        rw [if_neg hnone, if_neg fun hnone' => hnone (hempty.mpr hnone')]
        exact hput
    rw [if_neg (Bool.eq_false_iff.mp hplain), if_neg (Bool.eq_false_iff.mp hplain'), hstore,
      h.subject hplain]

/--
**A message gives away nothing but its header and its ciphertexts.** Let two messages have
the same header and the same parts, within the limits or over them in the same words. If two
ciphers make the same boxes of the two, then sending the one under the one and the other
under the other is one and the same program: on any network, in any state of it and whatever
fails, the same is stored, signed, delivered and told to the sender.
-/
theorem send_gives_away_ciphertexts [Bincode Cap] (h : SamePublic opts opts')
    (hlimits : c.limits.checkPayload opts = c.limits.checkPayload opts') {draws : Nat → Draw}
    (hboxes : ∀ recipient, parseNodeId opts.to = .ok recipient →
      SealsAlike aead aead' recipient draws opts opts') (now : UInt64) :
    @MailClient.send _ _ _ _ _ aead c _ opts draws now
      = @MailClient.send _ _ _ _ _ aead' c _ opts' draws now := by
  have hdeliver : c.deliver opts = c.deliver opts' := by
    funext envelope
    rw [MailClient.deliver_eq, MailClient.deliver_eq, h.delivery]
  have hcompose : @MailClient.compose _ _ _ _ _ aead c opts draws now
      = @MailClient.compose _ _ _ _ _ aead' c opts' draws now := by
    unfold MailClient.compose
    rw [← h.to, ← hlimits, ← h.inReplyTo, ← h.postageReceipt]
    cases hto : parseNodeId opts.to with
    | error message => rfl
    | ok recipient =>
        obtain ⟨hbody, hattachments⟩ := hboxes recipient hto
        have hstored : @MailClient.storeAttachments _ _ _ aead c recipient draws 1 opts.attachments
            = @MailClient.storeAttachments _ _ _ aead' c recipient draws 1 opts'.attachments := by
          refine storeAttachments_congr fun i => ?_
          rw [Nat.add_comm]
          exact hattachments i
        have hkept := @storeBody_congr Net Cap _ _ c _ _ aead aead' h recipient (draws 0) hbody
        have hlift : (Effect.lift (.ok recipient) : NetM Net NodeId) = pure recipient := rfl
        rw [hlift, pure_bind, pure_bind, hkept, hstored]
  unfold MailClient.send
  rw [hcompose, hdeliver]

end Client

namespace Sample

/-- `aead` with two plaintexts of one length for each other. -/
@[reducible] def swapped (a b : List UInt8) (hlen : a.length = b.length) : Aead where
  encrypt key nonce m := aead.encrypt key nonce (Equiv.swap a b m)
  decrypt key nonce c := (aead.decrypt key nonce c).map (Equiv.swap a b)
  decrypt_encrypt h := by
    rw [aead.decrypt_encrypt h, Option.map_some, Equiv.swap_apply_self]
  length_encrypt {key nonce m c} h := by
    have hsame : (Equiv.swap a b m).length = m.length := by
      rw [Equiv.swap_apply_def]
      split_ifs with ha hb
      · rw [ha, hlen]
      · rw [hb, hlen]
      · rfl
    rw [← hsame]
    exact aead.length_encrypt h

/-- A message that answers yes or no. -/
def reply (yes : Bool) : SendOptions (NodeId × NodeId) :=
  { firstPing with body := if yes then [1] else [0] }

end Sample

/-- The theorem for a yes and a no, and a cipher that takes the one for the other. -/
theorem send_gives_away_ciphertexts_sample :
    @MailClient.send _ _ Sample.curve Sample.sha512 Sample.crypto Sample.aead Sample.writer _
        (Sample.reply true) (fun _ => Sample.draw) 1
      = @MailClient.send _ _ Sample.curve Sample.sha512 Sample.crypto
        (Sample.swapped [1] [0] rfl) Sample.writer _ (Sample.reply false)
        (fun _ => Sample.draw) 1 := by
  have hfits : ∀ yes, Sample.writer.limits.checkPayload (Sample.reply yes) = .ok () := by decide
  refine @send_gives_away_ciphertexts _ _ Sample.curve Sample.sha512 Sample.crypto Sample.writer _ _
    Sample.aead (Sample.swapped [1] [0] rfl) _ ?_ ((hfits true).trans (hfits false).symm) _ ?_ 1
  · have hbody : (Sample.reply true).HasBody ↔ (Sample.reply false).HasBody := by
      simp [SendOptions.HasBody, Sample.reply]
    exact ⟨Eq.refl Sample.firstPing.to, fun _ => Eq.refl Sample.firstPing.subject,
      Eq.refl Sample.firstPing.inReplyTo, Eq.refl Sample.firstPing.sealSubject,
      Eq.refl Sample.firstPing.postageReceipt, Eq.refl Sample.firstPing.delivery, hbody⟩
  · intro recipient _
    refine @SealsAlike.mk _ Sample.curve Sample.crypto _ _ _ _ _ _ (fun _ => ?_) fun i => rfl
    have hcipher : ∀ key nonce, Sample.aead.encrypt key nonce [1]
        = (Sample.swapped [1] [0] rfl).encrypt key nonce [0] := fun key nonce =>
      congrArg (Sample.aead.encrypt key nonce) (Equiv.swap_apply_right [1] [0]).symm
    exact @seal_congr Sample.curve Sample.crypto _ _ recipient [1] [0] _ _ fun key => hcipher key _

end CeMail
