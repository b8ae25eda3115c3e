import CeMail.Proof.StoreRun

/-!
# Stores alike under some keys

A call is about one key: it answers from that key's slot and leaves every other slot
as it was. Two stores alike under a set of keys therefore answer calls about those keys
alike, whatever they hold elsewhere. With all keys this says when two stores cannot be
told apart at all; with some of them it says what a party confined to those can learn.
-/

namespace CeMail

/-- The key a call is about. -/
def Op.key : Op → String
  | .accept e _ => e.body.to
  | .ack k _ => k
  | .putReceipt k _ => k
  | .collectReceipts k => k
  | .readFrom k _ => k
  | .readPage k _ _ => k

section Crypto

variable [Crypto]

/-- **A call touches no key but its own.** -/
theorem frame_call (s : MailboxStore) (op : Op) {k : String} (h : k ≠ op.key) :
    (s.call op).1.mail k = s.mail k ∧ (s.call op).1.post k = s.post k := by
  refine ⟨?_, ?_⟩
  · rcases mail_call s op k with ⟨e, now, hst, -⟩ | ⟨c, hop, -⟩ | ⟨hmail, -⟩
    · obtain ⟨hop, hto, -⟩ := hst
      have hop' : op = .accept e now := hop
      rw [hop'] at h
      exact absurd hto.symm h
    · rw [hop] at h
      exact absurd rfl h
    · exact hmail
  · rcases post_call s op k with ⟨r, hp, -⟩ | ⟨hop, -⟩ | ⟨-, hpost, -⟩
    · have hop : op = .putReceipt k r := hp.1
      rw [hop] at h
      exact absurd rfl h
    · rw [hop] at h
      exact absurd rfl h
    · exact hpost

/-- Same capacity, and the same mail and receipts under the keys of `P`. -/
structure AlikeOn (P : String → Prop) (s t : MailboxStore) : Prop where
  capacity : s.capacityPerRecipient = t.capacityPerRecipient
  mail : ∀ k, P k → s.mail k = t.mail k
  post : ∀ k, P k → s.post k = t.post k

namespace AlikeOn

variable {P : String → Prop} {s t : MailboxStore}

omit [Crypto] in
theorem queue (h : AlikeOn P s t) {k : String} (hk : P k) : s.queue k = t.queue k :=
  congrArg Slot.queue (h.mail k hk)

/-- What a call under a key of `P` answers does not depend on the other keys. -/
theorem answer (h : AlikeOn P s t) {op : Op} (hk : P op.key) : (s.call op).2 = (t.call op).2 := by
  have hmail := h.mail op.key hk
  have hpost := h.post op.key hk
  have hqueue := h.queue hk
  cases op <;> simp only [Op.key] at hmail hpost hqueue
  case accept e now =>
      refine congrArg Answer.accepted ?_
      rw [MailboxStore.accept_snd, MailboxStore.accept_snd, hmail]
  case ack k c =>
      refine congrArg Answer.acked (UInt64.toNat_inj.mp ?_)
      rw [MailboxStore.ack_snd, MailboxStore.ack_snd, hqueue]
  case putReceipt k r =>
      refine congrArg Answer.accepted ?_
      rw [MailboxStore.putReceipt_snd, MailboxStore.putReceipt_snd, hpost]
  case collectReceipts k =>
      refine congrArg Answer.receipts ?_
      rw [MailboxStore.collectReceipts_snd, MailboxStore.collectReceipts_snd, hpost]
  case readFrom k since =>
      rw [MailboxStore.call, MailboxStore.call, MailboxStore.readFrom_eq,
        MailboxStore.readFrom_eq, hqueue]
  case readPage k since limit =>
      rw [MailboxStore.call, MailboxStore.call, MailboxStore.readPage_eq,
        MailboxStore.readPage_eq, hqueue]

/-- The mail a call leaves under its own key comes of the mail it met there. -/
theorem mail_own (h : AlikeOn P s t) {op : Op} (hk : P op.key) :
    (s.call op).1.mail op.key = (t.call op).1.mail op.key := by
  have hmail := h.mail op.key hk
  cases op <;> simp only [Op.key] at hmail ⊢
  case accept e now =>
      have hfresh : s.Fresh e ↔ t.Fresh e := by
        rw [MailboxStore.Fresh, MailboxStore.Fresh, hmail]
      rw [MailboxStore.call_accept, MailboxStore.call_accept]
      by_cases hs : s.Fresh e
      · rw [MailboxStore.mail_accept hs, MailboxStore.mail_accept (hfresh.mp hs), hmail,
          MailboxStore.capacity, MailboxStore.capacity, h.capacity]
      · rw [(MailboxStore.accept_of_not_fresh hs now).1,
          (MailboxStore.accept_of_not_fresh (fun ht => hs (hfresh.mpr ht)) now).1]
        exact hmail
  case ack k c =>
      rw [MailboxStore.call_ack, MailboxStore.call_ack, MailboxStore.mail_ack,
        MailboxStore.mail_ack, hmail]
  case putReceipt k r =>
      rw [MailboxStore.call_putReceipt, MailboxStore.call_putReceipt,
        (MailboxStore.putReceipt_frame k r).1, (MailboxStore.putReceipt_frame k r).1]
      exact hmail
  all_goals exact hmail

/-- And so with the receipts. -/
theorem post_own (h : AlikeOn P s t) {op : Op} (hk : P op.key) :
    (s.call op).1.post op.key = (t.call op).1.post op.key := by
  have hpost := h.post op.key hk
  cases op <;> simp only [Op.key] at hpost ⊢
  case accept e now =>
      rw [MailboxStore.call_accept, MailboxStore.call_accept,
        (MailboxStore.accept_frame e now).1, (MailboxStore.accept_frame e now).1]
      exact hpost
  case ack k c =>
      rw [MailboxStore.call_ack, MailboxStore.call_ack, (MailboxStore.ack_frame k c).1,
        (MailboxStore.ack_frame k c).1]
      exact hpost
  case putReceipt k r =>
      have hfresh : s.FreshReceipt k r ↔ t.FreshReceipt k r := by
        rw [MailboxStore.FreshReceipt, MailboxStore.FreshReceipt, hpost]
      rw [MailboxStore.call_putReceipt, MailboxStore.call_putReceipt]
      by_cases hs : s.FreshReceipt k r
      · rw [MailboxStore.post_putReceipt hs, MailboxStore.post_putReceipt (hfresh.mp hs), hpost,
          MailboxStore.capacity, MailboxStore.capacity, h.capacity]
      · rw [(MailboxStore.putReceipt_of_not_fresh hs).1,
          (MailboxStore.putReceipt_of_not_fresh fun ht => hs (hfresh.mpr ht)).1]
        exact hpost
  case collectReceipts k =>
      rw [MailboxStore.call_collectReceipts, MailboxStore.call_collectReceipts,
        MailboxStore.post_collectReceipts, MailboxStore.post_collectReceipts, hpost]
  all_goals exact hpost

/-- **Stores alike under some keys answer a call about one of them alike and stay alike.** -/
theorem call (h : AlikeOn P s t) {op : Op} (hk : P op.key) :
    (s.call op).2 = (t.call op).2 ∧ AlikeOn P (s.call op).1 (t.call op).1 := by
  refine ⟨h.answer hk, ?_, ?_, ?_⟩
  · rw [(settings_call s op).1, (settings_call t op).1, h.capacity]
  · intro k hP
    by_cases heq : k = op.key
    · rw [heq]
      exact h.mail_own hk
    · rw [(frame_call s op heq).1, (frame_call t op heq).1, h.mail k hP]
  · intro k hP
    by_cases heq : k = op.key
    · rw [heq]
      exact h.post_own hk
    · rw [(frame_call s op heq).2, (frame_call t op heq).2, h.post k hP]

end AlikeOn

end Crypto

end CeMail
