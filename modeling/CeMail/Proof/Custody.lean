import CeMail.Proof.ServiceRun

/-!
# Custody

From the reply to a delivery on, the mailbox has the mail until somebody takes it: with an
ack, or by filling the queue behind it. A reply that calls the delivery a duplicate promises
the same, since an id is remembered only while its mail is queued or after it was acked.
For a receipt it is a collection that takes it, or newer receipts that fill the box.

Mail is followed by its id and a receipt by its key. What these stand for is the envelope
and the acknowledgement, as far as SHA-256 tells ids apart.
-/

namespace CeMail

section Service

variable {Cap : Type} [Crypto] [Iam Cap]

namespace MailService

/-- Mail with this id waits under `k`. -/
def Queued (svc : MailService) (k id : String) : Prop :=
  id ∈ (svc.store.queue k).map StoredEnvelope.messageId

/-- A receipt with this key waits for `k`. -/
def Pending (svc : MailService) (k key : String) : Prop :=
  key ∈ (svc.store.post k).queue.map Receipt.dedupKey

/-- The request takes mail out of its queue: it acks it, or delivers to the full queue. -/
structure Takes (svc : MailService) (c : Call Cap) (k id : String) : Prop where
  admits : svc.Admits c
  queued : svc.Queued k id
  gone : ¬(svc.step c).1.Queued k id
  how : (∃ cursor grant, c.request = .ack k cursor grant)
    ∨ ∃ e grant, c.request = .deliver e grant ∧ e.body.to = k
      ∧ (svc.store.queue k).length = svc.store.capacity

/-- The request takes a receipt out of its box: it collects it, or deposits in the full box. -/
structure TakesReceipt (svc : MailService) (c : Call Cap) (k key : String) : Prop where
  admits : svc.Admits c
  pending : svc.Pending k key
  gone : ¬(svc.step c).1.Pending k key
  how : (∃ grant, c.request = .collectReceipts k grant)
    ∨ ∃ r grant, c.request = .putReceipt k r grant
      ∧ (svc.store.post k).queue.length = svc.store.capacity

/-- A service moves by at most one call of its store, that of an admitted request. -/
theorem store_step_cases (svc : MailService) (c : Call Cap) :
    (svc.step c).1.store = svc.store
      ∨ svc.Admits c ∧ ∃ op ∈ c.request.ops svc.limits c.now,
        (svc.step c).1.store = (svc.store.call op).1 := by
  rw [store_step]
  have hlen := svc.length_calls_le c
  cases hcalls : svc.calls c with
  | nil => exact Or.inl rfl
  | cons op rest =>
      rw [hcalls, List.length_cons] at hlen
      obtain rfl : rest = [] := List.length_eq_zero_iff.mp (by omega)
      obtain ⟨hadmits, hop⟩ := mem_calls.mp (hcalls ▸ List.mem_singleton_self op)
      exact Or.inr ⟨hadmits, op, hop, rfl⟩

end MailService

omit [Crypto] [Iam Cap] in
theorem request_of_ack_mem {limits : Limits} {now cursor : UInt64} {k : String}
    {request : MailRequest Cap} (h : .ack k cursor ∈ request.ops limits now) :
    ∃ grant, request = .ack k cursor grant := by
  cases request with
  | ack k' cursor' grant =>
      obtain ⟨rfl, rfl⟩ := Op.ack.inj (List.mem_singleton.mp h)
      exact ⟨grant, rfl⟩
  | drainPage k since limit grant =>
      simp only [MailRequest.ops] at h
      split at h <;> simp at h
  | _ => simp [MailRequest.ops] at h

omit [Crypto] [Iam Cap] in
theorem request_of_collectReceipts_mem {limits : Limits} {now : UInt64} {k : String}
    {request : MailRequest Cap} (h : .collectReceipts k ∈ request.ops limits now) :
    ∃ grant, request = .collectReceipts k grant := by
  cases request with
  | collectReceipts k' grant =>
      obtain rfl := Op.collectReceipts.inj (List.mem_singleton.mp h)
      exact ⟨grant, rfl⟩
  | drainPage k since limit grant =>
      simp only [MailRequest.ops] at h
      split at h <;> simp at h
  | _ => simp [MailRequest.ops] at h

variable (selfId : NodeId) (capacity : UInt64) (limits : Limits)

/-- Some request took the mail with this id from `k`. -/
def Taken (calls : List (Call Cap)) (k id : String) : Prop :=
  ∃ before c later, calls = before ++ c :: later
    ∧ (serviceAfter selfId capacity limits before).Takes c k id

/-- What holds of a store in every run holds of the store of a service. -/
theorem kept_serviceAfter (calls : List (Call Cap)) (k : String) :
    Kept k (history selfId capacity (serviceOps selfId capacity limits calls))
      (serviceAfter selfId capacity limits calls).store := by
  rw [store_serviceAfter]
  exact kept_after selfId capacity _ k

theorem posted_serviceAfter (calls : List (Call Cap)) (k : String) :
    Posted k (history selfId capacity (serviceOps selfId capacity limits calls))
      (serviceAfter selfId capacity limits calls).store := by
  rw [store_serviceAfter]
  exact posted_after selfId capacity _ k

variable {selfId capacity limits}

theorem Taken.append {calls : List (Call Cap)} {k id : String}
    (h : Taken selfId capacity limits calls k id) (later : List (Call Cap)) :
    Taken selfId capacity limits (calls ++ later) k id := by
  obtain ⟨before, c, rest, rfl, htakes⟩ := h
  exact ⟨before, c, rest ++ later, by rw [List.append_assoc, List.cons_append], htakes⟩

/-! ## Mail -/

/-- **Mail that leaves its queue was taken** by the request it left with. -/
theorem takes_of_gone (calls : List (Call Cap)) {c : Call Cap} {k id : String}
    (h : (serviceAfter selfId capacity limits calls).Queued k id)
    (hgone : ¬((serviceAfter selfId capacity limits calls).step c).1.Queued k id) :
    (serviceAfter selfId capacity limits calls).Takes c k id := by
  have hkept := kept_serviceAfter selfId capacity limits calls k
  generalize serviceAfter selfId capacity limits calls = svc at hkept h hgone ⊢
  rcases svc.store_step_cases c with hsame | ⟨hadmits, op, hop, hcall⟩
  · unfold MailService.Queued at hgone
    rw [hsame] at hgone
    exact absurd h hgone
  refine ⟨hadmits, h, hgone, ?_⟩
  rcases mail_call svc.store op k with ⟨e, now, ⟨haccept, hto, -, -, hnot⟩, hmail, -⟩
    | ⟨cursor, hack, -⟩ | ⟨hmail, -⟩
  · obtain rfl : op = .accept e now := haccept
    obtain ⟨-, grant, hreq⟩ := request_of_accept_mem hop
    refine Or.inr ⟨e, grant, hreq, hto, ?_⟩
    -- with room behind it the mail would have stayed
    by_contra hroom
    have hle : (svc.store.queue k).length ≤ svc.store.capacity := hkept.sound.bounded
    have hover : (svc.store.mail k).overflow svc.store.capacity = 0 :=
      Nat.sub_eq_zero_of_le (Nat.lt_of_le_of_ne hle hroom)
    refine hgone ?_
    subst hto
    rw [MailService.Queued, MailboxStore.queue, hcall, hmail,
      Slot.queue_deposit hkept.capacity_pos hnot, hover, List.drop_zero, List.map_append]
    exact List.mem_append_left _ h
  · subst hack
    obtain ⟨grant, hreq⟩ := request_of_ack_mem hop
    exact Or.inl ⟨cursor, grant, hreq⟩
  · unfold MailService.Queued at hgone
    rw [MailboxStore.queue, hcall, hmail] at hgone
    exact absurd h hgone

/-- **Mail waits until it is taken**, over any further requests. -/
theorem queued_or_taken {before : List (Call Cap)} {k id : String}
    (h : (serviceAfter selfId capacity limits before).Queued k id) (later : List (Call Cap)) :
    (serviceAfter selfId capacity limits (before ++ later)).Queued k id
      ∨ Taken selfId capacity limits (before ++ later) k id := by
  refine or_iff_not_imp_left.mpr ?_
  intro hgone
  rw [serviceAfter, Machine.final_append] at hgone
  obtain ⟨mid, c, rest, rfl, hheld, hlost⟩ := Machine.exists_cut_of_lost
    (P := fun svc : MailService => svc.Queued k id) h hgone
  rw [serviceAfter, ← Machine.final_append] at hheld hlost
  exact ⟨before ++ mid, c, rest, by rw [List.append_assoc], takes_of_gone _ hheld hlost⟩

/-- What a request adds to the remembered ids is the id of mail it puts in the queue. -/
theorem mem_seen_step {svc : MailService} (hcap : 0 < svc.store.capacity) {c : Call Cap}
    {k id : String} (h : id ∈ ((svc.step c).1.store.mail k).seen) :
    id ∈ (svc.store.mail k).seen ∨ (svc.step c).1.Queued k id := by
  rcases svc.store_step_cases c with hsame | ⟨-, op, -, hcall⟩
  · rw [hsame] at h
    exact Or.inl h
  unfold MailService.Queued
  rw [MailboxStore.queue]
  rw [hcall] at h ⊢
  rcases mail_call svc.store op k with ⟨e, now, ⟨-, hto, -, -, hnot⟩, hmail, -⟩
    | ⟨cursor, -, hmail, -⟩ | ⟨hmail, -⟩
  · subst hto
    rw [hmail] at h ⊢
    rw [Slot.seen_deposit hcap hnot] at h
    rcases h.1 with rfl | hold
    · rw [Slot.queue_deposit hcap hnot, List.map_append]
      exact Or.inr (List.mem_append_right _ (List.mem_singleton_self _))
    · exact Or.inl hold
  · rw [hmail] at h
    exact Or.inl h
  · rw [hmail] at h
    exact Or.inl h

/-- **An id is remembered** only of mail that waits or was taken. -/
theorem queued_or_taken_of_seen (calls : List (Call Cap)) {k id : String}
    (h : id ∈ ((serviceAfter selfId capacity limits calls).store.mail k).seen) :
    (serviceAfter selfId capacity limits calls).Queued k id
      ∨ Taken selfId capacity limits calls k id := by
  induction calls using List.reverseRecOn with
  | nil => exact absurd h (Finset.notMem_empty id)
  | append_singleton calls c ih =>
      rw [serviceAfter_concat] at h
      rcases mem_seen_step (capacity_pos_serviceAfter calls) h with hold | hnew
      · rcases ih hold with hqueued | htaken
        · exact queued_or_taken hqueued [c]
        · exact Or.inr (htaken.append [c])
      · rw [serviceAfter_concat]
        exact Or.inl hnew

omit [Iam Cap] in
theorem mem_seen_of_duplicate {s : MailboxStore} {e : Envelope} {now : UInt64}
    (h : (s.accept e now).2 = .ok .duplicate) : e.messageId ∈ (s.mail e.body.to).seen := by
  rw [MailboxStore.accept_snd] at h
  split at h
  · cases h
  · split at h
    · cases h
    · split at h
      · assumption
      · cases h

omit [Iam Cap] in
/-- With room for one envelope a stored one is in its queue. -/
theorem mem_queue_accept {s : MailboxStore} (hcap : 0 < s.capacity) {e : Envelope} {now : UInt64}
    (h : (s.accept e now).2 = .ok .stored) :
    e.messageId ∈ ((s.accept e now).1.queue e.body.to).map StoredEnvelope.messageId :=
  List.mem_map.mpr ⟨⟨e, now⟩, List.mem_of_getLast? (getLast?_accept hcap h), rfl⟩

/-- A delivery that is acknowledged put its mail in the queue, or its id was remembered. -/
theorem queued_or_seen_of_delivered {svc : MailService} (hcap : 0 < svc.store.capacity)
    {c : Call Cap} {e : Envelope} {grant : List Cap} {duplicate : Bool}
    (hreq : c.request = .deliver e grant)
    (hreply : (svc.step c).2 = .ok (.delivered duplicate)) :
    (svc.step c).1.Queued e.body.to e.messageId
      ∨ e.messageId ∈ (svc.store.mail e.body.to).seen := by
  obtain ⟨hadmits, hperform⟩ := MailService.ok_of_reply hreply fun _ he => by cases he
  have hstore : (svc.step c).1.store = (svc.store.accept e c.now).1 := by
    rw [MailService.step_of_admits hadmits, hreq]
    rfl
  rw [hreq] at hperform
  unfold MailService.Queued
  rw [hstore]
  cases haccepted : (svc.store.accept e c.now).2 with
  | error message =>
      simp only [MailService.perform, haccepted] at hperform
      cases hperform
  | ok accepted =>
      cases accepted with
      | stored => exact Or.inl (mem_queue_accept hcap haccepted)
      | duplicate => exact Or.inr (mem_seen_of_duplicate haccepted)

/-- **A delivery that is acknowledged**, as new or as a duplicate, is in custody. -/
theorem queued_or_taken_of_delivered {calls : List (Call Cap)} {c : Call Cap} {e : Envelope}
    {grant : List Cap} {duplicate : Bool} (hreq : c.request = .deliver e grant)
    (hreply : ((serviceAfter selfId capacity limits calls).step c).2
      = .ok (.delivered duplicate)) :
    (serviceAfter selfId capacity limits (calls ++ [c])).Queued e.body.to e.messageId
      ∨ Taken selfId capacity limits (calls ++ [c]) e.body.to e.messageId := by
  rcases queued_or_seen_of_delivered (capacity_pos_serviceAfter calls) hreq hreply
    with hqueued | hseen
  · rw [serviceAfter_concat]
    exact Or.inl hqueued
  · rcases queued_or_taken_of_seen calls hseen with hqueued | htaken
    · exact queued_or_taken hqueued [c]
    · exact Or.inr (htaken.append [c])

/-- **Mail in custody stays there until it is taken.** -/
theorem custody_append {before : List (Call Cap)} {k id : String}
    (h : (serviceAfter selfId capacity limits before).Queued k id
      ∨ Taken selfId capacity limits before k id) (later : List (Call Cap)) :
    (serviceAfter selfId capacity limits (before ++ later)).Queued k id
      ∨ Taken selfId capacity limits (before ++ later) k id := by
  rcases h with hqueued | htaken
  · exact queued_or_taken hqueued later
  · exact Or.inr (htaken.append later)

/-! ## Receipts -/

/-- **A receipt that leaves its box was taken** by the request it left with. -/
theorem takesReceipt_of_gone (calls : List (Call Cap)) {c : Call Cap} {k key : String}
    (h : (serviceAfter selfId capacity limits calls).Pending k key)
    (hgone : ¬((serviceAfter selfId capacity limits calls).step c).1.Pending k key) :
    (serviceAfter selfId capacity limits calls).TakesReceipt c k key := by
  have hposted := posted_serviceAfter selfId capacity limits calls k
  generalize serviceAfter selfId capacity limits calls = svc at hposted h hgone ⊢
  rcases svc.store_step_cases c with hsame | ⟨hadmits, op, hop, hcall⟩
  · unfold MailService.Pending at hgone
    rw [hsame] at hgone
    exact absurd h hgone
  refine ⟨hadmits, h, hgone, ?_⟩
  rcases post_call svc.store op k with ⟨r, ⟨hput, -, -, hnot⟩, hpost, -⟩ | ⟨hcollect, -⟩
    | ⟨-, hpost, -⟩
  · obtain rfl : op = .putReceipt k r := hput
    obtain ⟨grant, hreq⟩ := request_of_putReceipt_mem hop
    refine Or.inr ⟨r, grant, hreq, ?_⟩
    by_contra hroom
    have hle : (svc.store.post k).queue.length ≤ svc.store.capacity := hposted.sound.bounded
    have hover : (svc.store.post k).overflow svc.store.capacity = 0 :=
      Nat.sub_eq_zero_of_le (Nat.lt_of_le_of_ne hle hroom)
    refine hgone ?_
    rw [MailService.Pending, hcall, hpost, Slot.queue_deposit hposted.capacity_pos hnot, hover,
      List.drop_zero, List.map_append]
    exact List.mem_append_left _ h
  · subst hcollect
    obtain ⟨grant, hreq⟩ := request_of_collectReceipts_mem hop
    exact Or.inl ⟨grant, hreq⟩
  · unfold MailService.Pending at hgone
    rw [hcall, hpost] at hgone
    exact absurd h hgone

/-- **A receipt waits until it is taken**, over any further requests. -/
theorem pending_or_taken {before : List (Call Cap)} {k key : String}
    (h : (serviceAfter selfId capacity limits before).Pending k key) (later : List (Call Cap)) :
    (serviceAfter selfId capacity limits (before ++ later)).Pending k key
      ∨ ∃ mid c rest, later = mid ++ c :: rest
        ∧ (serviceAfter selfId capacity limits (before ++ mid)).TakesReceipt c k key := by
  refine or_iff_not_imp_left.mpr ?_
  intro hgone
  rw [serviceAfter, Machine.final_append] at hgone
  obtain ⟨mid, c, rest, rfl, hheld, hlost⟩ := Machine.exists_cut_of_lost
    (P := fun svc : MailService => svc.Pending k key) h hgone
  rw [serviceAfter, ← Machine.final_append] at hheld hlost
  exact ⟨mid, c, rest, rfl, takesReceipt_of_gone _ hheld hlost⟩

/-- **A deposit that is acknowledged**, as new or as a duplicate, is pending. -/
theorem pending_of_receiptAccepted {calls : List (Call Cap)} {c : Call Cap} {k : String}
    {r : Receipt} {grant : List Cap} {duplicate : Bool} (hreq : c.request = .putReceipt k r grant)
    (hreply : ((serviceAfter selfId capacity limits calls).step c).2
      = .ok (.receiptAccepted duplicate)) :
    (serviceAfter selfId capacity limits (calls ++ [c])).Pending k r.dedupKey := by
  have hposted := posted_serviceAfter selfId capacity limits calls k
  rw [serviceAfter_concat]
  generalize serviceAfter selfId capacity limits calls = svc at hposted hreply ⊢
  obtain ⟨hadmits, hperform⟩ := MailService.ok_of_reply hreply fun _ he => by cases he
  have hstore : (svc.step c).1.store = (svc.store.putReceipt k r).1 := by
    rw [MailService.step_of_admits hadmits, hreq]
    rfl
  rw [hreq] at hperform
  rw [MailService.Pending, hstore]
  by_cases hfresh : svc.store.FreshReceipt k r
  · rw [MailboxStore.post_putReceipt hfresh, if_pos rfl,
      Slot.queue_deposit hposted.capacity_pos hfresh.2.2, List.map_append]
    exact List.mem_append_right _ (List.mem_singleton_self _)
  · -- a receipt that is not stored and yet acknowledged has its key in the box
    obtain ⟨hsame, hne⟩ := MailboxStore.putReceipt_of_not_fresh hfresh
    rw [hsame]
    cases haccepted : (svc.store.putReceipt k r).2 with
    | error message =>
        simp only [MailService.perform, haccepted] at hperform
        cases hperform
    | ok accepted =>
        cases accepted with
        | stored => exact absurd haccepted hne
        | duplicate =>
            rw [MailboxStore.putReceipt_snd] at haccepted
            split at haccepted
            · cases haccepted
            · split at haccepted
              · cases haccepted
              · split at haccepted
                · rename_i hmem
                  rcases hposted.sound.mem_seen.mp hmem with hkey | hfreed
                  · exact hkey
                  · exact absurd hfreed (Finset.notMem_empty _)
                · cases haccepted

/-- Only what verifies is acknowledged. -/
theorem verify_of_receiptAccepted {svc : MailService} {c : Call Cap} {k : String} {r : Receipt}
    {grant : List Cap} {duplicate : Bool} (hreq : c.request = .putReceipt k r grant)
    (hreply : (svc.step c).2 = .ok (.receiptAccepted duplicate)) : r.verify = .ok () := by
  obtain ⟨-, hperform⟩ := MailService.ok_of_reply hreply fun _ he => by cases he
  rw [hreq] at hperform
  simp only [MailService.perform] at hperform
  rw [MailboxStore.putReceipt_snd] at hperform
  cases hv : r.verify with
  | ok => rfl
  | error message =>
      rw [hv] at hperform
      cases hperform

end Service

end CeMail
