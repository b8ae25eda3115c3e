import CeMail.Proof.ServiceRun

/-!
# Not an open relay

A mailbox stores mail for the nodes that granted it the right to, and for no others.
Every envelope in the store was put there by a request, and that request carried a
chain which authorized this mailbox for the node the envelope is addressed to. The
same goes for receipts.

What `authorize` answers is not looked into. All that matters is that it was asked.
-/

namespace CeMail

section Relay

variable {Cap : Type} [Iam Cap]

/-- A chain that authorizes the mailbox `selfId` to accept mail for `owner`. -/
def Grants (selfId owner : NodeId) (grant : List Cap) (c : Call Cap) : Prop :=
  Iam.authorize owner [owner] c.now selfId abilityAccept grant c.isRevoked = .ok ()

/-- A request to deliver an envelope for `owner`, with a grant. -/
def DeliversFor (selfId owner : NodeId) (x : StoredEnvelope) (c : Call Cap) : Prop :=
  ∃ grant, c.request = .deliver x.envelope grant ∧ c.now = x.storedAt
    ∧ Grants selfId owner grant c

/-- A request to deposit a receipt for `owner` under `k`, with a grant. -/
def DepositsFor (selfId owner : NodeId) (k : String) (r : Receipt) (c : Call Cap) : Prop :=
  ∃ grant, c.request = .putReceipt k r grant ∧ Grants selfId owner grant c

variable [Crypto] {selfId : NodeId} {capacity : UInt64} {limits : Limits}

/-- The mailbox a service asks grants for is its own. -/
theorem selfId_serviceAfter (calls : List (Call Cap)) :
    (serviceAfter selfId capacity limits calls).store.selfId = selfId := by
  rw [store_serviceAfter, selfId_after]

/-- **Mail in the store was delivered there**, within limits and with a grant of its addressee. -/
theorem exists_delivers_of_mem {calls : List (Call Cap)} {k : String} {x : StoredEnvelope}
    (hx : x ∈ (serviceAfter selfId capacity limits calls).store.queue k)
    (hto : x.envelope.body.to = k) :
    limits.checkEnvelope x.envelope = .ok ()
      ∧ ∃ owner before c later, parseNodeId k = .ok owner ∧ calls = before ++ c :: later
        ∧ DeliversFor selfId owner x c
        ∧ ((serviceAfter selfId capacity limits before).step c).2 = .ok (.delivered false) := by
  -- the request that stored it passed the gate, and this is all the gate asks
  obtain ⟨before, c, later, hcut, hnow, hstores⟩ := exists_stores_of_mem hx
  obtain ⟨grant, hreq⟩ := hstores.request
  have hgate := hstores.admits
  rw [MailService.Admits, hreq] at hgate
  obtain ⟨owner, hparse, hlimits, hauth⟩ := MailService.gate_deliver.mp hgate
  rw [limits_serviceAfter] at hlimits
  rw [selfId_serviceAfter] at hauth
  rw [hto] at hparse
  exact ⟨hlimits, owner, before, c, later, hparse, hcut, ⟨grant, hreq, hnow, hauth⟩,
    (MailService.delivered_false_iff hreq).mpr hstores⟩

/-- **A receipt in the store was deposited there**, with a grant of its addressee. -/
theorem exists_deposits_of_mem {calls : List (Call Cap)} {k : String} {r : Receipt}
    (hr : r ∈ ((serviceAfter selfId capacity limits calls).store.post k).queue) :
    ∃ owner before c later, parseNodeId k = .ok owner ∧ calls = before ++ c :: later
      ∧ DepositsFor selfId owner k r c
      ∧ ((serviceAfter selfId capacity limits before).step c).2
        = .ok (.receiptAccepted false) := by
  obtain ⟨before, c, later, hcut, hposted⟩ := exists_postedUnder_of_mem hr
  obtain ⟨grant, hreq⟩ := hposted.posts.request
  have hgate := hposted.posts.admits
  rw [MailService.Admits, hreq] at hgate
  obtain ⟨owner, hparse, hauth⟩ := MailService.gate_putReceipt.mp hgate
  rw [selfId_serviceAfter] at hauth
  exact ⟨owner, before, c, later, hparse, hcut, ⟨grant, hreq, hauth⟩,
    (MailService.receiptAccepted_false_iff hreq).mpr hposted.posts⟩

omit [Crypto] in
/-- Envelopes within a limit and as many as fit are within the product. -/
theorem sum_encodedLen_le {q : List StoredEnvelope} {count most : Nat} (hlen : q.length ≤ count)
    (hsize : ∀ x ∈ q, x.envelope.encodedLen ≤ most) :
    (q.map fun x => x.envelope.encodedLen).sum ≤ count * most := by
  have hsum := List.sum_le_card_nsmul (q.map fun x => x.envelope.encodedLen) most <| by
    intro n hn
    obtain ⟨x, hx, rfl⟩ := List.mem_map.mp hn
    exact hsize x hx
  rw [List.length_map, nsmul_eq_mul, Nat.cast_id] at hsum
  exact hsum.trans (Nat.mul_le_mul_right most hlen)

/--
**Not an open relay.** Whatever requests a service has handled, every envelope under a key
verifies, is addressed to the key, is within the limits and was delivered by a request
with a grant of the node the key parses to; every receipt under a key verifies and was
deposited by such a request; and the envelopes under a key are within the capacity times
the size limit.
-/
theorem not_open_relay (selfId : NodeId) (capacity : UInt64) (limits : Limits)
    (calls : List (Call Cap)) (k : String) :
    let svc := serviceAfter selfId capacity limits calls
    (∀ x ∈ svc.store.queue k, x.envelope.verify = .ok () ∧ x.envelope.body.to = k
        ∧ limits.checkEnvelope x.envelope = .ok ()
        ∧ ∃ owner before c later, parseNodeId k = .ok owner ∧ calls = before ++ c :: later
          ∧ DeliversFor selfId owner x c
          ∧ ((serviceAfter selfId capacity limits before).step c).2 = .ok (.delivered false))
      ∧ (∀ r ∈ (svc.store.post k).queue, r.verify = .ok ()
        ∧ ∃ owner before c later, parseNodeId k = .ok owner ∧ calls = before ++ c :: later
          ∧ DepositsFor selfId owner k r c
          ∧ ((serviceAfter selfId capacity limits before).step c).2
            = .ok (.receiptAccepted false))
      ∧ ((svc.store.queue k).map fun x => x.envelope.encodedLen).sum
        ≤ max capacity.toNat 1 * limits.maxEnvelopeBytes.toNat := by
  have hkept := kept_after selfId capacity (serviceOps selfId capacity limits calls) k
  have hposted := posted_after selfId capacity (serviceOps selfId capacity limits calls) k
  have hlen := length_queue_le selfId capacity (serviceOps selfId capacity limits calls) k
  rw [← store_serviceAfter] at hkept hposted hlen
  refine ⟨?_, ?_, sum_encodedLen_le hlen ?_⟩
  · intro x hx
    obtain ⟨hv, hto, -⟩ := hkept.addressed x hx
    exact ⟨hv, hto, exists_delivers_of_mem hx hto⟩
  · intro r hr
    exact ⟨hposted.verified r hr, exists_deposits_of_mem hr⟩
  · intro x hx
    obtain ⟨-, -, -, -, -, -, hsize⟩ :=
      Limits.checkEnvelope_eq_ok.mp (exists_delivers_of_mem hx (hkept.addressed x hx).2.1).1
    exact hsize

end Relay

end CeMail
