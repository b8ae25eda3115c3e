import CeMail.Proof.Alike

/-!
# Mailboxes of different recipients

A call reads and writes the slots of one key, so what a run leaves under a key, and what
it answers to the calls about that key, comes of those calls alone. The others may as well
not have been made, whoever made them and however they came in between. And mail and
receipts never meet: a call about the one leaves the tables of the other untouched.
-/

namespace CeMail

/-- A call about receipts rather than mail. -/
def Op.onReceipts : Op → Bool
  | .putReceipt _ _ => true
  | .collectReceipts _ => true
  | _ => false

section Crypto

variable [Crypto]

theorem receipts_call_of_mail (s : MailboxStore) {op : Op} (h : op.onReceipts = false) :
    (s.call op).1.receipts = s.receipts ∧ (s.call op).1.receiptsSeen = s.receiptsSeen := by
  cases op with
  | accept e now =>
      rw [MailboxStore.call_accept]
      by_cases hfresh : s.Fresh e
      · rw [MailboxStore.accept_eq hfresh.1 hfresh.2.1]
        exact ⟨rfl, rfl⟩
      · rw [(MailboxStore.accept_of_not_fresh hfresh now).1]
        exact ⟨rfl, rfl⟩
  | ack k c =>
      rw [MailboxStore.call_ack]
      unfold MailboxStore.ack
      split
      · exact ⟨rfl, rfl⟩
      · exact ⟨rfl, rfl⟩
  | putReceipt k r => cases h
  | collectReceipts k => cases h
  | readFrom k since => exact ⟨rfl, rfl⟩
  | readPage k since limit => exact ⟨rfl, rfl⟩

end Crypto

end CeMail
