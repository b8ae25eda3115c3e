import CeMail.Model.Service
import CeMail.Proof.StoreRun

/-!
# Runs of the service

A service serves requests of any number of parties, each at its own time and against its
own view of what is revoked. Its store gets at most one call for each request, the one
the request names, and gets it only when the request passes the gate. So whatever holds
of every run of the store holds of the store of every service.
-/

namespace CeMail

/-- A request as it reaches the service. -/
structure Call (Cap : Type) where
  /-- The authenticated sender. -/
  requester : NodeId
  request : MailRequest Cap
  now : UInt64
  isRevoked : NodeId → UInt64 → Bool

/-- The call of the store a request names. -/
def MailRequest.ops {Cap : Type} (limits : Limits) (now : UInt64) : MailRequest Cap → List Op
  | .deliver envelope _ => [.accept envelope now]
  | .drain recipient since _ => [.readFrom recipient since]
  | .ack recipient cursor _ => [.ack recipient cursor]
  | .drainPage recipient since limit _ =>
      match limits.clampPage limit with
      | .ok limit => [.readPage recipient since limit]
      | .error _ => []
  | .putReceipt forSender receipt _ => [.putReceipt forSender receipt]
  | .collectReceipts sender _ => [.collectReceipts sender]

section Service

variable {Cap : Type} [Crypto] [Iam Cap]

namespace MailService

/-- Serve a request. -/
def step (svc : MailService) (c : Call Cap) : MailService × Except Panic MailReply :=
  svc.handle c.requester c.request c.now c.isRevoked

/-- The request passes the gate. -/
def Admits (svc : MailService) (c : Call Cap) : Prop :=
  svc.gate c.requester c.now c.isRevoked c.request = .ok ()

/-- What the store is asked to do for a request. -/
def calls (svc : MailService) (c : Call Cap) : List Op :=
  match svc.gate c.requester c.now c.isRevoked c.request with
  | .ok () => c.request.ops svc.limits c.now
  | .error _ => []

variable {svc : MailService} {c : Call Cap}

omit [Crypto] in
theorem mem_calls {op : Op} :
    op ∈ svc.calls c ↔ svc.Admits c ∧ op ∈ c.request.ops svc.limits c.now := by
  rw [calls, Admits]
  cases svc.gate c.requester c.now c.isRevoked c.request <;> simp

theorem step_of_admits (h : svc.Admits c) :
    svc.step c = ({ svc with store := (svc.perform c.now c.request).1 },
      (svc.perform c.now c.request).2) := handle_of_ok h

theorem step_of_not_admits (h : ¬svc.Admits c) : (svc.step c).1 = svc := by
  cases hgate : svc.gate c.requester c.now c.isRevoked c.request with
  | error message => rw [step, handle_of_error hgate]
  | ok => exact absurd hgate h

/-- **The store moves by the calls it is sent.** -/
theorem store_step (svc : MailService) (c : Call Cap) :
    (svc.step c).1.store = Machine.final MailboxStore.call svc.store (svc.calls c) := by
  rw [calls]
  cases hgate : svc.gate c.requester c.now c.isRevoked c.request with
  | error message =>
      rw [step, handle_of_error hgate]
      rfl
  | ok =>
      rw [step_of_admits hgate]
      cases hreq : c.request with
      | deliver e grant =>
          show (svc.store.accept e c.now).1 = (svc.store.call (.accept e c.now)).1
          rw [MailboxStore.call_accept]
      | ack k cursor grant =>
          show (svc.store.ack k cursor).1 = (svc.store.call (.ack k cursor)).1
          rw [MailboxStore.call_ack]
      | putReceipt k r grant =>
          show (svc.store.putReceipt k r).1 = (svc.store.call (.putReceipt k r)).1
          rw [MailboxStore.call_putReceipt]
      | drainPage k since limit grant =>
          simp only [perform, MailRequest.ops]
          split <;> rfl
      | drain k since grant | collectReceipts k grant => rfl

/-- A service that has served nothing, over an empty store. -/
def start (selfId : NodeId) (capacity : UInt64) (limits : Limits) : MailService :=
  withLimits (.new selfId capacity) limits

end MailService

variable (selfId : NodeId) (capacity : UInt64) (limits : Limits)

/-- The service some requests leave behind. -/
def serviceAfter (calls : List (Call Cap)) : MailService :=
  Machine.final MailService.step (.start selfId capacity limits) calls

/-- What the store was asked to do. -/
def serviceOps (calls : List (Call Cap)) : List Op :=
  Machine.sent MailService.step MailService.calls (.start selfId capacity limits) calls

variable {selfId capacity limits}

/-- **The store of a service is one that got its calls.** -/
theorem store_serviceAfter (calls : List (Call Cap)) :
    (serviceAfter selfId capacity limits calls).store
      = after selfId capacity (serviceOps selfId capacity limits calls) :=
  Machine.final_sent MailService.store MailService.store_step _ calls

theorem limits_serviceAfter (calls : List (Call Cap)) :
    (serviceAfter selfId capacity limits calls).limits = limits := by
  refine Machine.invariant (P := fun svc : MailService => svc.limits = limits) rfl ?_ calls
  intro svc c h
  exact MailService.limits_handle.trans h

theorem capacity_pos_serviceAfter (calls : List (Call Cap)) :
    0 < (serviceAfter selfId capacity limits calls).store.capacity := by
  rw [store_serviceAfter]
  exact (kept_after selfId capacity _ "").capacity_pos

theorem serviceAfter_concat (calls : List (Call Cap)) (c : Call Cap) :
    serviceAfter selfId capacity limits (calls ++ [c])
      = ((serviceAfter selfId capacity limits calls).step c).1 :=
  Machine.final_concat calls c

/-- What the store saw of some requests that came after others. -/
def laterVisits (selfId : NodeId) (capacity : UInt64) (limits : Limits)
    (calls later : List (Call Cap)) : List Visit :=
  Machine.visits MailboxStore.call (serviceAfter selfId capacity limits calls).store
    (Machine.sent MailService.step MailService.calls (serviceAfter selfId capacity limits calls)
      later)

/-- The store after some more requests, from the calls they sent. -/
theorem store_serviceAfter_append (calls later : List (Call Cap)) :
    (serviceAfter selfId capacity limits (calls ++ later)).store
      = Machine.final MailboxStore.call (serviceAfter selfId capacity limits calls).store
          (Machine.sent MailService.step MailService.calls
            (serviceAfter selfId capacity limits calls) later) := by
  rw [serviceAfter, Machine.final_append]
  exact Machine.final_sent MailService.store MailService.store_step _ later

theorem history_serviceOps_append (calls later : List (Call Cap)) :
    history selfId capacity (serviceOps selfId capacity limits (calls ++ later))
      = history selfId capacity (serviceOps selfId capacity limits calls)
          ++ laterVisits selfId capacity limits calls later := by
  have hsent : serviceOps selfId capacity limits (calls ++ later)
      = serviceOps selfId capacity limits calls ++ _ := Machine.sent_append calls later
  rw [laterVisits, store_serviceAfter, hsent]
  exact Machine.visits_append _ _

omit [Crypto] in
/-- A request sends at most one call. -/
theorem MailService.length_calls_le (svc : MailService) (c : Call Cap) :
    (svc.calls c).length ≤ 1 := by
  rw [calls]
  cases svc.gate c.requester c.now c.isRevoked c.request with
  | error _ => exact Nat.zero_le _
  | ok =>
      cases c.request with
      | drainPage k since limit grant =>
          simp only [MailRequest.ops]
          split <;> simp
      | _ => exact Nat.le_refl _

/-- **Whatever the store was asked to do, an admitted request asked it.** -/
theorem exists_call_of_cut {calls : List (Call Cap)} {vs ws : List Visit} {v : Visit}
    (h : history selfId capacity (serviceOps selfId capacity limits calls) = vs ++ v :: ws) :
    ∃ before c later, calls = before ++ c :: later
      ∧ v.1 = (serviceAfter selfId capacity limits before).store
      ∧ (serviceAfter selfId capacity limits before).Admits c
      ∧ v.2 ∈ c.request.ops limits c.now
      ∧ ws = laterVisits selfId capacity limits (before ++ [c]) later := by
  obtain ⟨before, c, later, hcut, hstore, hop, hws⟩ :=
    Machine.exists_cut_of_visits_sent (s := .start selfId capacity limits) MailService.store
      MailService.store_step MailService.length_calls_le h
  obtain ⟨hadmits, hop⟩ := MailService.mem_calls.mp hop
  have hlimits : (Machine.final MailService.step (.start selfId capacity limits) before).limits
      = limits := limits_serviceAfter before
  rw [hlimits] at hop
  exact ⟨before, c, later, hcut, hstore, hadmits, hop, hws⟩

/-! ## Requests that store something -/

namespace MailService

/-- The request stores an envelope: it delivers it, passes, and the store does not know it. -/
structure Stores (svc : MailService) (c : Call Cap) (e : Envelope) : Prop where
  request : ∃ grant, c.request = .deliver e grant
  admits : svc.Admits c
  fresh : svc.store.Fresh e

/-- The request stores a receipt under `k`. -/
structure Posts (svc : MailService) (c : Call Cap) (k : String) (r : Receipt) : Prop where
  request : ∃ grant, c.request = .putReceipt k r grant
  admits : svc.Admits c
  fresh : svc.store.FreshReceipt k r

variable {svc : MailService} {c : Call Cap} {e : Envelope} {k : String} {r : Receipt}

theorem Stores.unique {e' : Envelope} (h : svc.Stores c e) (h' : svc.Stores c e') : e' = e := by
  obtain ⟨_, hreq⟩ := h.request
  obtain ⟨_, hreq'⟩ := h'.request
  exact (MailRequest.deliver.inj (hreq'.symm.trans hreq)).1

theorem Posts.unique {k' : String} {r' : Receipt} (h : svc.Posts c k r) (h' : svc.Posts c k' r') :
    k' = k ∧ r' = r := by
  obtain ⟨_, hreq⟩ := h.request
  obtain ⟨_, hreq'⟩ := h'.request
  obtain ⟨hk, hr, -⟩ := MailRequest.putReceipt.inj (hreq'.symm.trans hreq)
  exact ⟨hk, hr⟩

theorem Stores.store_eq (h : svc.Stores c e) :
    (svc.step c).1.store = (svc.store.accept e c.now).1 := by
  obtain ⟨grant, hreq⟩ := h.request
  rw [step_of_admits h.admits, hreq]
  rfl

theorem Posts.store_eq (h : svc.Posts c k r) :
    (svc.step c).1.store = (svc.store.putReceipt k r).1 := by
  obtain ⟨grant, hreq⟩ := h.request
  rw [step_of_admits h.admits, hreq]
  rfl

/-- The reply to a delivery says whether it stored the envelope. -/
theorem delivered_false_iff {grant : List Cap} (hreq : c.request = .deliver e grant) :
    (svc.step c).2 = .ok (.delivered false) ↔ svc.Stores c e := by
  have hperform : (svc.perform c.now c.request).2
      = .ok (.ofAccepted .delivered (svc.store.accept e c.now).2) := by
    rw [hreq]
    rfl
  refine ⟨?_, ?_⟩
  · intro h
    obtain ⟨hadmits, hreply⟩ := ok_of_reply h fun _ he => by cases he
    rw [hperform] at hreply
    have hstored := MailReply.stored_of_ofAccepted (Except.ok.inj hreply)
      (fun he => by cases he) (fun _ he => by cases he)
    exact ⟨⟨grant, hreq⟩, hadmits, MailboxStore.accept_stored.mp hstored⟩
  · intro h
    rw [step_of_admits h.admits, hperform, MailboxStore.accept_stored.mpr h.fresh]
    rfl

/-- The reply to a deposit says whether it stored the receipt. -/
theorem receiptAccepted_false_iff {grant : List Cap} (hreq : c.request = .putReceipt k r grant) :
    (svc.step c).2 = .ok (.receiptAccepted false) ↔ svc.Posts c k r := by
  have hperform : (svc.perform c.now c.request).2
      = .ok (.ofAccepted .receiptAccepted (svc.store.putReceipt k r).2) := by
    rw [hreq]
    rfl
  refine ⟨?_, ?_⟩
  · intro h
    obtain ⟨hadmits, hreply⟩ := ok_of_reply h fun _ he => by cases he
    rw [hperform] at hreply
    have hstored := MailReply.stored_of_ofAccepted (Except.ok.inj hreply)
      (fun he => by cases he) (fun _ he => by cases he)
    exact ⟨⟨grant, hreq⟩, hadmits, MailboxStore.putReceipt_stored.mp hstored⟩
  · intro h
    rw [step_of_admits h.admits, hperform, MailboxStore.putReceipt_stored.mpr h.fresh]
    rfl

/-- **What a request does to the mail**: it stores an envelope, or every queue keeps a suffix. -/
theorem mail_step (svc : MailService) (c : Call Cap) :
    (∃ e, svc.Stores c e ∧ ∀ k, (svc.step c).1.store.mail k =
        if k = e.body.to then
          ((svc.store.mail k).deposit svc.store.capacity StoredEnvelope.messageId ⟨e, c.now⟩).1
        else svc.store.mail k)
      ∨ (∀ e, ¬svc.Stores c e) ∧ ∀ k, (svc.step c).1.store.queue k <:+ svc.store.queue k := by
  by_cases hadmits : svc.Admits c
  · rw [step_of_admits hadmits]
    cases hreq : c.request with
    | deliver e grant =>
        -- an admitted delivery that stores nothing leaves the store as it was
        by_cases hfresh : svc.store.Fresh e
        · exact Or.inl ⟨e, ⟨⟨grant, hreq⟩, hadmits, hfresh⟩, MailboxStore.mail_accept hfresh c.now⟩
        · refine Or.inr ⟨fun e' h => hfresh ?_, ?_⟩
          · obtain ⟨grant', hreq'⟩ := h.request
            obtain ⟨rfl, -⟩ := MailRequest.deliver.inj (hreq.symm.trans hreq')
            exact h.fresh
          · intro k
            show (svc.store.accept e c.now).1.queue k <:+ _
            rw [(MailboxStore.accept_of_not_fresh hfresh c.now).1]
    | ack k' cursor grant =>
        refine Or.inr ⟨?_, ?_⟩
        · intro e h
          obtain ⟨_, hreq'⟩ := h.request
          cases hreq.symm.trans hreq'
        · intro k
          show ((svc.store.ack k' cursor).1.mail k).queue <:+ _
          rw [MailboxStore.mail_ack]
          split
          · exact List.drop_suffix _ _
          · exact List.suffix_rfl
    | putReceipt k' r grant =>
        refine Or.inr ⟨?_, ?_⟩
        · intro e h
          obtain ⟨_, hreq'⟩ := h.request
          cases hreq.symm.trans hreq'
        · intro k
          show ((svc.store.putReceipt k' r).1.mail k).queue <:+ _
          rw [(MailboxStore.putReceipt_frame k' r).1]
    | drain _ _ _ | drainPage _ _ _ _ | collectReceipts _ _ =>
        refine Or.inr ⟨?_, fun k => List.suffix_rfl⟩
        intro e h
        obtain ⟨_, hreq'⟩ := h.request
        cases hreq.symm.trans hreq'
  · refine Or.inr ⟨fun e h => hadmits h.admits, ?_⟩
    intro k
    rw [step_of_not_admits hadmits]

/-- **What a request does to the receipts**: it stores one, or every queue keeps a suffix. -/
theorem post_step (svc : MailService) (c : Call Cap) :
    (∃ k r, svc.Posts c k r ∧ ∀ k', (svc.step c).1.store.post k' =
        if k' = k then ((svc.store.post k').deposit svc.store.capacity Receipt.dedupKey r).1
        else svc.store.post k')
      ∨ (∀ k r, ¬svc.Posts c k r)
        ∧ ∀ k, ((svc.step c).1.store.post k).queue <:+ (svc.store.post k).queue := by
  by_cases hadmits : svc.Admits c
  · rw [step_of_admits hadmits]
    cases hreq : c.request with
    | putReceipt k r grant =>
        -- and so does an admitted deposit
        by_cases hfresh : svc.store.FreshReceipt k r
        · exact Or.inl ⟨k, r, ⟨⟨grant, hreq⟩, hadmits, hfresh⟩, MailboxStore.post_putReceipt hfresh⟩
        · refine Or.inr ⟨fun k' r' h => hfresh ?_, ?_⟩
          · obtain ⟨grant', hreq'⟩ := h.request
            obtain ⟨rfl, rfl, -⟩ := MailRequest.putReceipt.inj (hreq.symm.trans hreq')
            exact h.fresh
          · intro k'
            show ((svc.store.putReceipt k r).1.post k').queue <:+ _
            rw [(MailboxStore.putReceipt_of_not_fresh hfresh).1]
    | collectReceipts k' grant =>
        refine Or.inr ⟨?_, ?_⟩
        · intro k r h
          obtain ⟨_, hreq'⟩ := h.request
          cases hreq.symm.trans hreq'
        · intro k
          show ((svc.store.collectReceipts k').1.post k).queue <:+ _
          rw [MailboxStore.post_collectReceipts]
          split
          · exact List.nil_suffix
          · exact List.suffix_rfl
    | deliver e grant =>
        refine Or.inr ⟨?_, ?_⟩
        · intro k r h
          obtain ⟨_, hreq'⟩ := h.request
          cases hreq.symm.trans hreq'
        · intro k
          show ((svc.store.accept e c.now).1.post k).queue <:+ _
          rw [(MailboxStore.accept_frame e c.now).1]
    | ack k' cursor grant =>
        refine Or.inr ⟨?_, ?_⟩
        · intro k r h
          obtain ⟨_, hreq'⟩ := h.request
          cases hreq.symm.trans hreq'
        · intro k
          show ((svc.store.ack k' cursor).1.post k).queue <:+ _
          rw [(MailboxStore.ack_frame k' cursor).1]
    | drain _ _ _ | drainPage _ _ _ _ =>
        refine Or.inr ⟨?_, fun k => List.suffix_rfl⟩
        intro k r h
        obtain ⟨_, hreq'⟩ := h.request
        cases hreq.symm.trans hreq'
  · refine Or.inr ⟨fun k r h => hadmits h.admits, ?_⟩
    intro k
    rw [step_of_not_admits hadmits]

end MailService

omit [Crypto] [Iam Cap] in
theorem request_of_accept_mem {now t : UInt64} {e : Envelope} {request : MailRequest Cap}
    (h : .accept e t ∈ request.ops limits now) :
    t = now ∧ ∃ grant, request = .deliver e grant := by
  cases request with
  | deliver e' grant =>
      obtain ⟨rfl, rfl⟩ := Op.accept.inj (List.mem_singleton.mp h)
      exact ⟨rfl, grant, rfl⟩
  | drainPage k since limit grant =>
      simp only [MailRequest.ops] at h
      split at h <;> simp at h
  | _ => simp [MailRequest.ops] at h

omit [Crypto] [Iam Cap] in
theorem request_of_putReceipt_mem {now : UInt64} {k : String} {r : Receipt}
    {request : MailRequest Cap} (h : .putReceipt k r ∈ request.ops limits now) :
    ∃ grant, request = .putReceipt k r grant := by
  cases request with
  | putReceipt k' r' grant =>
      obtain ⟨rfl, rfl⟩ := Op.putReceipt.inj (List.mem_singleton.mp h)
      exact ⟨grant, rfl⟩
  | drainPage k since limit grant =>
      simp only [MailRequest.ops] at h
      split at h <;> simp at h
  | _ => simp [MailRequest.ops] at h

/-- **What is in a queue was stored there by some request.** -/
theorem exists_stores_of_mem {calls : List (Call Cap)} {k : String} {x : StoredEnvelope}
    (hx : x ∈ (serviceAfter selfId capacity limits calls).store.queue k) :
    ∃ before c later, calls = before ++ c :: later ∧ c.now = x.storedAt
      ∧ (serviceAfter selfId capacity limits before).Stores c x.envelope := by
  rw [store_serviceAfter] at hx
  obtain ⟨v, hv, hop, -, hfresh⟩ := exists_stores_of_mem_queue hx
  obtain ⟨vs, ws, hhist⟩ := List.append_of_mem hv
  obtain ⟨before, c, later, hcut, hstore, hadmits, hmem, -⟩ := exists_call_of_cut hhist
  rw [hop] at hmem
  obtain ⟨hnow, grant, hreq⟩ := request_of_accept_mem hmem
  rw [hstore] at hfresh
  exact ⟨before, c, later, hcut, hnow.symm, ⟨grant, hreq⟩, hadmits, hfresh⟩

/-- A request stored `r` under `k`, and nothing was collected from `k` since. -/
structure PostedUnder (selfId : NodeId) (capacity : UInt64) (limits : Limits) (k : String)
    (r : Receipt) (before : List (Call Cap)) (c : Call Cap) (later : List (Call Cap)) : Prop where
  posts : (serviceAfter selfId capacity limits before).Posts c k r
  uncollected : ∀ v ∈ laterVisits selfId capacity limits (before ++ [c]) later,
    v.2 ≠ .collectReceipts k

/-- **A receipt that waits was posted by some request** and not collected since. -/
theorem exists_postedUnder_of_mem {calls : List (Call Cap)} {k : String} {r : Receipt}
    (hr : r ∈ ((serviceAfter selfId capacity limits calls).store.post k).queue) :
    ∃ before c later, calls = before ++ c :: later
      ∧ PostedUnder selfId capacity limits k r before c later := by
  rw [store_serviceAfter] at hr
  obtain ⟨vs, v, ws, hhist, ⟨hop, hfresh⟩, huncol⟩ :=
    (posted_after selfId capacity (serviceOps selfId capacity limits calls) k).origin r hr
  obtain ⟨before, c, later, hcut, hstore, hadmits, hmem, hws⟩ := exists_call_of_cut hhist
  rw [hop] at hmem
  obtain ⟨grant, hreq⟩ := request_of_putReceipt_mem hmem
  rw [hstore] at hfresh
  rw [hws] at huncol
  exact ⟨before, c, later, hcut, ⟨⟨grant, hreq⟩, hadmits, hfresh⟩, huncol⟩

end Service

namespace Sample

/-- Capabilities that name a root and a leaf audience; a chain of one authorizes that audience. -/
@[reducible] def iam : Iam (NodeId × NodeId) where
  authorize _ roots _ requester _ chain _ :=
    if roots.any fun root => chain = [(root, requester)] then .ok () else .error "no valid chain"

/-- The sender delivers an envelope, with a grant of the recipient to the mailbox. -/
def delivery (e : Envelope) : Call (NodeId × NodeId) where
  requester := sender
  request := .deliver e [(recipient, mailbox)]
  now := 1
  isRevoked _ _ := false

/-- A request of the recipient's own. -/
def own (request : MailRequest (NodeId × NodeId)) : Call (NodeId × NodeId) where
  requester := recipient
  request := request
  now := 1
  isRevoked _ _ := false

end Sample

end CeMail
