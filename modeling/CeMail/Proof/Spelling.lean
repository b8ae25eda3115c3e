import CeMail.Proof.ServiceRun

/-!
# One node, many spellings

The gates work on the node a string parses to, the store on the string itself. A string
in another letter case, or with white space around it, parses to the same node and is
another key, with a queue of its own.

So mail that was accepted for a node is not always mail this node drains, and the
capacity of a mailbox does not bound what is kept for one node.
-/

namespace CeMail

section Spelling

variable {Cap : Type} [Crypto] [Iam Cap]

/-! ## What a node gets back -/

/-- The node's own drain from 0, under the canonical spelling, returns the envelope. -/
def Drains (Cap : Type) [Iam Cap] (svc : MailService) (owner : NodeId) (e : Envelope) : Prop :=
  ∀ (grant : List Cap) now isRevoked, ∃ envelopes cursor,
    (svc.handle owner (.drain owner.hex 0 grant) now isRevoked).2
        = .ok (.drained envelopes cursor)
      ∧ e ∈ envelopes

/-- The node's own collection, under the canonical spelling, returns the receipt. -/
def Collects (Cap : Type) [Iam Cap] (svc : MailService) (owner : NodeId) (r : Receipt) : Prop :=
  ∀ (grant : List Cap) now isRevoked, ∃ receipts,
    (svc.handle owner (.collectReceipts owner.hex grant) now isRevoked).2
        = .ok (.receipts receipts)
      ∧ r ∈ receipts

theorem drains_iff {svc : MailService} {owner : NodeId} {e : Envelope} :
    Drains Cap svc owner e ↔ ∃ x ∈ svc.store.queue owner.hex, x.envelope = e := by
  have hreply : ∀ (grant : List Cap) now isRevoked,
      (svc.handle owner (.drain owner.hex 0 grant) now isRevoked).2
        = .ok (.drained ((svc.store.queue owner.hex).map StoredEnvelope.envelope)
            (.ofNat (svc.store.queue owner.hex).length)) := by
    intro grant now isRevoked
    have hgate : svc.gate owner now isRevoked (.drain owner.hex 0 grant) = .ok () := by
      rw [MailService.gate]
      exact MailService.gateOwner_self (parseNodeId_hex owner)
    rw [MailService.handle_of_ok hgate, MailService.perform, MailboxStore.readFrom_eq]
    rfl
  rw [← List.mem_map]
  refine ⟨?_, ?_⟩
  · intro h
    obtain ⟨envelopes, cursor, heq, hmem⟩ := h [] 0 fun _ _ => false
    rw [hreply] at heq
    obtain ⟨rfl, -⟩ := MailReply.drained.inj (Except.ok.inj heq)
    exact hmem
  · intro h grant now isRevoked
    exact ⟨_, _, hreply grant now isRevoked, h⟩

theorem collects_iff {svc : MailService} {owner : NodeId} {r : Receipt} :
    Collects Cap svc owner r ↔ r ∈ (svc.store.post owner.hex).queue := by
  have hreply : ∀ (grant : List Cap) now isRevoked,
      (svc.handle owner (.collectReceipts owner.hex grant) now isRevoked).2
        = .ok (.receipts (svc.store.post owner.hex).queue) := by
    intro grant now isRevoked
    have hgate : svc.gate owner now isRevoked (.collectReceipts owner.hex grant) = .ok () := by
      rw [MailService.gate]
      exact MailService.gateOwner_self (parseNodeId_hex owner)
    rw [MailService.handle_of_ok hgate, MailService.perform, MailboxStore.collectReceipts_snd]
  refine ⟨?_, ?_⟩
  · intro h
    obtain ⟨receipts, heq, hmem⟩ := h [] 0 fun _ _ => false
    rw [hreply] at heq
    obtain rfl := MailReply.receipts.inj (Except.ok.inj heq)
    exact hmem
  · intro h grant now isRevoked
    exact ⟨_, hreply grant now isRevoked, h⟩

variable (selfId : NodeId) (capacity : UInt64) (limits : Limits)

/--
A delivery of `e`, for `owner`, was answered as stored, and none of the owner's mail was
acked or evicted since.
-/
structure StoredFor (owner : NodeId) (e : Envelope) (before : List (Call Cap)) (c : Call Cap)
    (later : List (Call Cap)) : Prop where
  request : ∃ grant, c.request = .deliver e grant
  reply : ((serviceAfter selfId capacity limits before).step c).2 = .ok (.delivered false)
  named : parseNodeId e.body.to = .ok owner
  kept : ∀ k, parseNodeId k = .ok owner →
    ackedIn k (laterVisits selfId capacity limits (before ++ [c]) later) = 0
      ∧ evictedIn k (laterVisits selfId capacity limits (before ++ [c]) later) = 0

/-- A deposit of `r`, for `owner`, was answered as stored. -/
structure PostedFor (owner : NodeId) (r : Receipt) (before : List (Call Cap)) (c : Call Cap) :
    Prop where
  request : ∃ k grant, c.request = .putReceipt k r grant ∧ parseNodeId k = .ok owner
  reply : ((serviceAfter selfId capacity limits before).step c).2 = .ok (.receiptAccepted false)

/-- None of the owner's receipts was ever evicted. -/
def NoReceiptEvicted (owner : NodeId) (calls : List (Call Cap)) : Prop :=
  ∀ k, parseNodeId k = .ok owner →
    ∀ v ∈ history selfId capacity (serviceOps selfId capacity limits calls),
      Visit.postEvicted k v = 0

variable {selfId capacity limits}

/-- What was stored is in its queue as long as nothing was acked or evicted since. -/
theorem mem_queue_of_storedFor {owner : NodeId} {e : Envelope} {before later : List (Call Cap)}
    {c : Call Cap} (h : StoredFor selfId capacity limits owner e before c later) :
    ⟨e, c.now⟩ ∈ (serviceAfter selfId capacity limits (before ++ c :: later)).store.queue
      e.body.to := by
  obtain ⟨⟨grant, hreq⟩, hreply, hnamed, hkept⟩ := h
  have hstores := (MailService.delivered_false_iff hreq).mp hreply
  have hmem : ⟨e, c.now⟩
      ∈ (serviceAfter selfId capacity limits (before ++ [c])).store.queue e.body.to := by
    rw [serviceAfter_concat, hstores.store_eq]
    exact List.mem_of_getLast? (getLast?_accept (capacity_pos_serviceAfter before)
      (MailboxStore.accept_stored.mpr hstores.fresh))
  have hsplit : before ++ c :: later = (before ++ [c]) ++ later := by simp
  rw [hsplit, store_serviceAfter_append]
  exact mem_queue_final hmem _ (hkept _ hnamed).1 (hkept _ hnamed).2

/-- What was posted is in its queue as long as nothing was collected or evicted since. -/
theorem mem_post_of_postedUnder {k : String} {r : Receipt} {before later : List (Call Cap)}
    {c : Call Cap} (h : PostedUnder selfId capacity limits k r before c later)
    (hno : ∀ v ∈ laterVisits selfId capacity limits (before ++ [c]) later,
      Visit.postEvicted k v = 0) :
    r ∈ ((serviceAfter selfId capacity limits (before ++ c :: later)).store.post k).queue := by
  obtain ⟨hposts, huncol⟩ := h
  have hmem : r ∈ ((serviceAfter selfId capacity limits (before ++ [c])).store.post k).queue := by
    rw [serviceAfter_concat, hposts.store_eq, MailboxStore.post_putReceipt hposts.fresh,
      if_pos rfl, Slot.queue_deposit (capacity_pos_serviceAfter before) hposts.fresh.2.2]
    exact List.mem_append_right _ (List.mem_singleton_self r)
  have hsplit : before ++ c :: later = (before ++ [c]) ++ later := by simp
  rw [hsplit, store_serviceAfter_append]
  refine mem_post_final (capacity_pos_serviceAfter _) hmem _ ?_ hno
  intro hcol
  obtain ⟨s, hv⟩ := Machine.exists_visit_of_mem hcol
  exact huncol _ hv rfl

/--
**What was accepted for a node is returned to it exactly when it was spelled canonically.**
An envelope accepted for a node, with nothing acked or evicted since, is in the node's
drain exactly when its `to` is the canonical spelling; and a receipt accepted for a node,
with none evicted, is in the node's collection exactly when it was posted, by this or
another request since the last collection, under the canonical spelling.
-/
theorem returned_iff_canonical (selfId : NodeId) (capacity : UInt64) (limits : Limits)
    (owner : NodeId) (before : List (Call Cap)) (c : Call Cap) (later : List (Call Cap)) :
    let calls := before ++ c :: later
    let svc := serviceAfter selfId capacity limits calls
    (∀ e, StoredFor selfId capacity limits owner e before c later →
        (Drains Cap svc owner e ↔ e.body.to = owner.hex))
      ∧ ∀ r, PostedFor selfId capacity limits owner r before c →
        NoReceiptEvicted selfId capacity limits owner calls →
        (Collects Cap svc owner r ↔ ∃ before' c' later', calls = before' ++ c' :: later'
          ∧ PostedUnder selfId capacity limits owner.hex r before' c' later') := by
  refine ⟨?_, ?_⟩
  · intro e hstored
    rw [drains_iff]
    constructor
    -- a queue holds only what is addressed to its key
    · intro h
      rcases h with ⟨x, hx, rfl⟩
      rw [store_serviceAfter] at hx
      exact ((kept_after selfId capacity _ owner.hex).addressed x hx).2.1
    · intro hto
      have hmem := mem_queue_of_storedFor hstored
      rw [hto] at hmem
      exact ⟨_, hmem, rfl⟩
  · intro r _ hno
    rw [collects_iff]
    refine ⟨?_, ?_⟩
    · exact exists_postedUnder_of_mem
    -- nothing was evicted in the whole run, so nothing since that deposit
    · intro h
      rcases h with ⟨before', c', later', hcut, hposted⟩
      have hsplit : before ++ c :: later = (before' ++ [c']) ++ later' := by simp [hcut]
      have hlater := hno owner.hex (parseNodeId_hex owner)
      rw [hsplit, history_serviceOps_append] at hlater
      rw [hcut]
      exact mem_post_of_postedUnder hposted fun v hv => hlater v (List.mem_append_right _ hv)

end Spelling

/-- An envelope accepted for the recipient's id in capitals is not in the recipient's drain. -/
theorem drain_misses_other_spelling :
    @StoredFor (NodeId × NodeId) Sample.crypto Sample.iam Sample.mailbox 10 default
        Sample.recipient Sample.shouted [] (Sample.delivery Sample.shouted) []
      ∧ ¬@Drains Sample.crypto (NodeId × NodeId) Sample.iam
        (@serviceAfter (NodeId × NodeId) Sample.crypto Sample.iam Sample.mailbox 10 default
          [Sample.delivery Sample.shouted]) Sample.recipient Sample.shouted := by
  refine ⟨@StoredFor.mk _ Sample.crypto Sample.iam _ _ _ _ _ _ _ _ ⟨_, rfl⟩ ?_ ?_ ?_, ?_⟩
  · decide +kernel
  · decide +kernel
  · exact fun _ _ => ⟨rfl, rfl⟩
  · rw [@drains_iff _ Sample.crypto Sample.iam]
    decide +kernel

end CeMail
