import CeMail.Proof.ServiceRun

/-!
# What an ack frees

An ack names the front of a queue by its length. The recipient has that number from a
reply, and between the reply and the ack the queue may have lost its front: to an
eviction, or to the same ack sent before. Then the same number names other mail, which
no reply has carried yet.

An index of the queue and the position in the log of everything stored differ by what
was let go so far. So an index the ack frees is one that an earlier request read exactly
when it lies, moved by what was let go in between, in the part that request read.
-/

namespace CeMail

/-- The envelopes a reply carries. -/
def MailReply.envelopes : Except Panic MailReply → List Envelope
  | .ok (.drained envelopes _) => envelopes
  | .ok (.page envelopes _ _) => envelopes
  | _ => []

theorem MailReply.envelopes_ofAccepted {reply : Bool → MailReply} {x : Except String Accepted}
    (h : ∀ duplicate, envelopes (.ok (reply duplicate)) = []) :
    envelopes (.ok (ofAccepted reply x)) = [] := by
  cases x with
  | error m => rfl
  | ok a => cases a <;> exact h _

/--
The part of the queue of `k`, of which `queued` are there, that a request reads: from its
cursor on, up to the end of the queue or of the page. A page whose end is past the largest
`usize` is not read.
-/
def MailRequest.reach {Cap : Type} (limits : Limits) (k : String) (queued : Nat) :
    MailRequest Cap → Option (Nat × Nat)
  | .drain k' since _ => if k' = k then some (since.toNat, queued) else none
  | .drainPage k' since limit _ =>
      if k' = k then
        match limits.clampPage limit with
        | .ok limit =>
            if since.toNat < queued ∧ 2 ^ 64 ≤ since.toNat + (max limit 1).toNat then none
            else some (since.toNat, min (since.toNat + (max limit 1).toNat) queued)
        | .error _ => none
      else none
  | _ => none

theorem MailRequest.reach_le {Cap : Type} {limits : Limits} {k : String} {queued low high : Nat}
    {request : MailRequest Cap} (h : request.reach limits k queued = some (low, high)) :
    high ≤ queued := by
  cases request with
  | drain k' since grant =>
      obtain ⟨-, h⟩ := Option.ite_none_right_eq_some.mp h
      obtain ⟨-, rfl⟩ := Prod.mk.inj (Option.some.inj h)
      exact Nat.le_refl _
  | drainPage k' since limit grant =>
      obtain ⟨-, h⟩ := Option.ite_none_right_eq_some.mp h
      cases hclamp : limits.clampPage limit with
      | error p => rw [hclamp] at h; cases h
      | ok limit =>
          rw [hclamp] at h
          obtain ⟨-, h⟩ := Option.ite_none_left_eq_some.mp h
          obtain ⟨-, rfl⟩ := Prod.mk.inj (Option.some.inj h)
          exact Nat.min_le_right _ _
  | deliver _ _ | ack _ _ _ | putReceipt _ _ _ | collectReceipts _ _ => cases h

theorem mem_drop_take {α : Type} {l : List α} {low high : Nat} {x : α} :
    x ∈ (l.take high).drop low ↔ ∃ j, low ≤ j ∧ j < high ∧ l[j]? = some x := by
  rw [List.mem_iff_getElem?]
  refine ⟨?_, ?_⟩
  · intro h
    rcases h with ⟨i, hi⟩
    rw [List.getElem?_drop, List.getElem?_take] at hi
    split at hi
    · rename_i hlt
      exact ⟨low + i, Nat.le_add_right _ _, hlt, hi⟩
    · cases hi
  · intro h
    rcases h with ⟨j, hlow, hhigh, hj⟩
    refine ⟨j - low, ?_⟩
    rw [List.getElem?_drop, Nat.add_sub_cancel' hlow, List.getElem?_take, if_pos hhigh, hj]

section Service

variable {Cap : Type} [Crypto] [Iam Cap]

/-! ## What a request reads -/

namespace MailService

/-- The request reads index `j` of the queue of `k`. -/
def Reads (svc : MailService) (c : Call Cap) (k : String) (j : Nat) : Prop :=
  svc.Admits c ∧ ∃ low high,
    c.request.reach svc.limits k (svc.store.queue k).length = some (low, high)
      ∧ low ≤ j ∧ j < high

variable {svc : MailService} {c : Call Cap}

omit [Crypto] in
theorem Reads.lt_length {k : String} {j : Nat} (h : svc.Reads c k j) :
    j < (svc.store.queue k).length := by
  obtain ⟨-, low, high, hreach, -, hlt⟩ := h
  exact Nat.lt_of_lt_of_le hlt (MailRequest.reach_le hreach)

/-- The reply carries the part of the queue the request reaches. -/
theorem envelopes_of_reach {k : String} {low high : Nat} (hadmits : svc.Admits c)
    (h : c.request.reach svc.limits k (svc.store.queue k).length = some (low, high)) :
    MailReply.envelopes (svc.step c).2
      = (((svc.store.queue k).take high).drop low).map StoredEnvelope.envelope := by
  rw [step_of_admits hadmits]
  cases hreq : c.request with
  | drain k' since grant =>
      rw [hreq, MailRequest.reach] at h
      obtain ⟨rfl, h⟩ := Option.ite_none_right_eq_some.mp h
      obtain ⟨rfl, rfl⟩ := Prod.mk.inj (Option.some.inj h)
      rw [perform, MailboxStore.readFrom_eq, List.take_length]
      rfl
  | drainPage k' since limit grant =>
      rw [hreq, MailRequest.reach] at h
      obtain ⟨rfl, h⟩ := Option.ite_none_right_eq_some.mp h
      cases hclamp : svc.limits.clampPage limit with
      | error p => rw [hclamp] at h; cases h
      | ok limit =>
          rw [hclamp] at h
          obtain ⟨hsum, h⟩ := Option.ite_none_left_eq_some.mp h
          obtain ⟨rfl, rfl⟩ := Prod.mk.inj (Option.some.inj h)
          show MailReply.envelopes (svc.limits.clampPage _ >>= _) = _
          rw [hclamp]
          show MailReply.envelopes (svc.store.readPage _ _ _ >>= _) = _
          rw [MailboxStore.readPage_eq]
          by_cases hsince : since.toNat < (svc.store.queue k').length
          · rw [if_pos hsince, if_pos (by omega)]
            rfl
          · rw [if_neg hsince, List.drop_eq_nil_of_le (by rw [List.length_take]; omega)]
            rfl
  | deliver _ _ | ack _ _ _ | putReceipt _ _ _ | collectReceipts _ _ =>
      rw [hreq] at h
      cases h

/-- A reply that carries anything comes of a request that reaches a queue. -/
theorem exists_reach_of_mem {e : Envelope} (h : e ∈ MailReply.envelopes (svc.step c).2) :
    svc.Admits c ∧ ∃ k low high,
      c.request.reach svc.limits k (svc.store.queue k).length = some (low, high) := by
  cases hgate : svc.gate c.requester c.now c.isRevoked c.request with
  | error message =>
      rw [step, handle_of_error hgate] at h
      cases h
  | ok =>
      refine ⟨hgate, ?_⟩
      rw [step_of_admits hgate] at h
      cases hreq : c.request with
      | drain k since grant => exact ⟨k, _, _, if_pos rfl⟩
      | drainPage k since limit grant =>
          rw [hreq] at h
          simp only [perform, MailboxStore.readPage_eq] at h
          refine ⟨k, ?_⟩
          rw [MailRequest.reach, if_pos rfl]
          cases hclamp : svc.limits.clampPage limit with
          | error p => rw [hclamp] at h; cases h
          | ok limit =>
              rw [hclamp] at h
              by_cases hpanic : since.toNat < (svc.store.queue k).length
                  ∧ 2 ^ 64 ≤ since.toNat + (max limit 1).toNat
              · have h : e ∈ MailReply.envelopes (ite _ _ _ >>= _) := h
                rw [if_pos hpanic.1, if_neg (Nat.not_lt.mpr hpanic.2)] at h
                cases h
              · exact ⟨_, _, if_neg hpanic⟩
      | deliver e' grant =>
          rw [hreq, perform, MailReply.envelopes_ofAccepted fun _ => rfl] at h
          cases h
      | putReceipt k r grant =>
          rw [hreq, perform, MailReply.envelopes_ofAccepted fun _ => rfl] at h
          cases h
      | ack _ _ _ | collectReceipts _ _ =>
          rw [hreq] at h
          cases h

/-- **A reply carries what the request read.** -/
theorem mem_envelopes_step {e : Envelope} :
    e ∈ MailReply.envelopes (svc.step c).2 ↔
      ∃ k j x, svc.Reads c k j ∧ (svc.store.queue k)[j]? = some x ∧ x.envelope = e := by
  refine ⟨?_, ?_⟩
  · intro h
    obtain ⟨hadmits, k, low, high, hreach⟩ := exists_reach_of_mem h
    rw [envelopes_of_reach hadmits hreach] at h
    obtain ⟨x, hx, rfl⟩ := List.mem_map.mp h
    obtain ⟨j, hlow, hhigh, hj⟩ := mem_drop_take.mp hx
    exact ⟨k, j, x, ⟨hadmits, low, high, hreach, hlow, hhigh⟩, hj, rfl⟩
  · intro h
    rcases h with ⟨k, j, x, ⟨hadmits, low, high, hreach, hlow, hhigh⟩, hj, rfl⟩
    rw [envelopes_of_reach hadmits hreach]
    exact List.mem_map_of_mem (mem_drop_take.mpr ⟨j, hlow, hhigh, hj⟩)

end MailService

variable (selfId : NodeId) (capacity : UInt64) (limits : Limits)

/-- The window of the store under a key. -/
abbrev serviceWindow (calls : List (Call Cap)) (k : String) : Window StoredEnvelope :=
  window selfId capacity (serviceOps selfId capacity limits calls) k

/-- How many envelopes were let go from `k`, acked or evicted, by requests after others. -/
def gone (calls later : List (Call Cap)) (k : String) : Nat :=
  ackedIn k (laterVisits selfId capacity limits calls later)
    + evictedIn k (laterVisits selfId capacity limits calls later)

/-- An earlier reply to `owner` carried the envelope. -/
def Returned (owner : NodeId) (calls : List (Call Cap)) (e : Envelope) : Prop :=
  ∃ before d later, calls = before ++ d :: later ∧ d.requester = owner
    ∧ e ∈ MailReply.envelopes ((serviceAfter selfId capacity limits before).step d).2

/-- Every ack of the owner frees only what an earlier reply to the owner carried. -/
def AcksFreeReturned (owner : NodeId) (calls : List (Call Cap)) : Prop :=
  ∀ before c later, calls = before ++ c :: later →
    ∀ k cursor grant, c.requester = owner → c.request = .ack k cursor grant →
      parseNodeId k = .ok owner →
      ∀ x ∈ ((serviceAfter selfId capacity limits before).store.queue k).take cursor.toNat,
        Returned selfId capacity limits owner before x.envelope

/--
At every ack of the owner, each index below its cursor, moved by what was let go in
between, is one an earlier request of the owner read.
-/
def AcksReadIndices (owner : NodeId) (calls : List (Call Cap)) : Prop :=
  ∀ before c later, calls = before ++ c :: later →
    ∀ k cursor grant, c.requester = owner → c.request = .ack k cursor grant →
      parseNodeId k = .ok owner →
      ∀ i, i < cursor.toNat →
        i < ((serviceAfter selfId capacity limits before).store.queue k).length →
        ∃ earlier d between, before = earlier ++ d :: between ∧ d.requester = owner
          ∧ (serviceAfter selfId capacity limits earlier).Reads d k
            (i + gone selfId capacity limits earlier (d :: between) k)

/-- No envelope was stored under a spelling of the owner a second time. -/
def StoredOnceFor (owner : NodeId) (calls : List (Call Cap)) : Prop :=
  ∀ k, parseNodeId k = .ok owner →
    ((serviceWindow selfId capacity limits calls k).log.map StoredEnvelope.envelope).Nodup

/-- Every ack of the owner carries a cursor that an earlier reply gave the owner. -/
def AcksGivenCursors (owner : NodeId) (calls : List (Call Cap)) : Prop :=
  ∀ before c later, calls = before ++ c :: later →
    ∀ k cursor grant, c.requester = owner → c.request = .ack k cursor grant →
      ∃ earlier d between, before = earlier ++ d :: between ∧ d.requester = owner
        ∧ ∃ envelopes, ((serviceAfter selfId capacity limits earlier).step d).2
            = .ok (.drained envelopes cursor)
          ∨ ∃ more, ((serviceAfter selfId capacity limits earlier).step d).2
            = .ok (.page envelopes cursor more)

variable {selfId capacity limits}

/-! ## Indices and positions -/

theorem queue_serviceAfter (calls : List (Call Cap)) (k : String) :
    (serviceAfter selfId capacity limits calls).store.queue k
      = (serviceWindow selfId capacity limits calls k).contents := by
  rw [store_serviceAfter, queue_eq_contents]

theorem base_append (calls later : List (Call Cap)) (k : String) :
    (serviceWindow selfId capacity limits (calls ++ later) k).base
      = (serviceWindow selfId capacity limits calls k).base
          + gone selfId capacity limits calls later k := by
  show ackedIn k (history _ _ _) + evictedIn k (history _ _ _) = _
  rw [history_serviceOps_append, ackedIn_append, evictedIn_append]
  show _ = ackedIn k _ + evictedIn k _ + (ackedIn k _ + evictedIn k _)
  omega

theorem serviceLog_extends (calls later : List (Call Cap)) (k : String) :
    (serviceWindow selfId capacity limits calls k).log
      <+: (serviceWindow selfId capacity limits (calls ++ later) k).log := by
  have hsent : serviceOps selfId capacity limits (calls ++ later)
      = serviceOps selfId capacity limits calls ++ _ := Machine.sent_append calls later
  rw [serviceWindow, serviceWindow, hsent]
  exact log_extends selfId capacity _ _ k

theorem to_eq_of_mem_queue {calls : List (Call Cap)} {k : String} {x : StoredEnvelope}
    (hx : x ∈ (serviceAfter selfId capacity limits calls).store.queue k) :
    x.envelope.body.to = k := by
  rw [store_serviceAfter] at hx
  exact ((kept_after selfId capacity _ k).addressed x hx).2.1

/-- An index of a queue, moved by what was let go in between, names the same envelope. -/
theorem getElem?_queue_append {calls later : List (Call Cap)} {k : String} {i : Nat}
    (h : i + gone selfId capacity limits calls later k
      < ((serviceAfter selfId capacity limits calls).store.queue k).length) :
    ((serviceAfter selfId capacity limits calls).store.queue k)[
        i + gone selfId capacity limits calls later k]?
      = ((serviceAfter selfId capacity limits (calls ++ later)).store.queue k)[i]? := by
  obtain ⟨newer, hlog⟩ : (serviceWindow selfId capacity limits calls k).log <+: _ :=
    serviceLog_extends calls later k
  rw [queue_serviceAfter, Window.length_contents] at h
  rw [queue_serviceAfter, queue_serviceAfter, Window.getElem?_contents, Window.getElem?_contents,
    base_append, ← hlog, List.getElem?_append_left (by omega)]
  congr 1
  omega

/-- **An ack of indices that were read frees what was returned.** -/
theorem acksFreeReturned_of_reads {owner : NodeId} {calls : List (Call Cap)}
    (h : AcksReadIndices selfId capacity limits owner calls) :
    AcksFreeReturned selfId capacity limits owner calls := by
  intro before c later hcut k cursor grant hreq hack hparse x hx
  obtain ⟨i, hi⟩ := List.mem_iff_getElem?.mp hx
  rw [List.getElem?_take] at hi
  split at hi
  · rename_i hlt
    obtain ⟨hlen, -⟩ := List.getElem?_eq_some_iff.mp hi
    obtain ⟨earlier, d, between, rfl, howner, hreads⟩ :=
      h before c later hcut k cursor grant hreq hack hparse i hlt hlen
    refine ⟨earlier, d, between, rfl, howner,
      MailService.mem_envelopes_step.mpr ⟨k, _, x, hreads, ?_, rfl⟩⟩
    rw [getElem?_queue_append hreads.lt_length]
    exact hi
  · cases hi

/-- **Freeing only what was returned is acking indices that were read**, when no envelope is
stored twice. -/
theorem reads_of_acksFreeReturned {owner : NodeId} {calls : List (Call Cap)}
    (honce : StoredOnceFor selfId capacity limits owner calls)
    (h : AcksFreeReturned selfId capacity limits owner calls) :
    AcksReadIndices selfId capacity limits owner calls := by
  intro before c later hcut k cursor grant hreq hack hparse i hi hlen
  obtain ⟨x, hx⟩ : ∃ x, ((serviceAfter selfId capacity limits before).store.queue k)[i]? = some x :=
    ⟨_, List.getElem?_eq_getElem hlen⟩
  obtain ⟨earlier, d, between, rfl, howner, hmem⟩ :=
    h before c later hcut k cursor grant hreq hack hparse x
      (List.mem_iff_getElem?.mpr ⟨i, by rw [List.getElem?_take, if_pos hi]; exact hx⟩)
  obtain ⟨k', j, y, hreads, hy, henv⟩ := MailService.mem_envelopes_step.mp hmem
  -- both wait under the key they are addressed to
  have hkey : k' = k := by
    rw [← to_eq_of_mem_queue (List.mem_of_getElem? hy), henv]
    exact to_eq_of_mem_queue (List.mem_of_getElem? hx)
  subst hkey
  refine ⟨earlier, d, between, rfl, howner, ?_⟩
  suffices hj : j = i + gone selfId capacity limits earlier (d :: between) k' by
    rw [← hj]
    exact hreads
  -- one position of the log of the whole run
  obtain ⟨middle, hmiddle⟩ : (serviceWindow selfId capacity limits earlier k').log <+: _ :=
    serviceLog_extends earlier (d :: between) k'
  obtain ⟨newer, hnewer⟩ :
      (serviceWindow selfId capacity limits (earlier ++ d :: between) k').log <+: _ :=
    serviceLog_extends (earlier ++ d :: between) (c :: later) k'
  rw [queue_serviceAfter, Window.getElem?_contents] at hx hy
  rw [base_append] at hx
  have hnd := honce k' hparse
  rw [hcut, ← hnewer, List.map_append] at hnd
  have hy' : (serviceWindow selfId capacity limits (earlier ++ d :: between) k').log[
      (serviceWindow selfId capacity limits earlier k').base + j]? = some y := by
    rw [← hmiddle, List.getElem?_append_left (List.getElem?_eq_some_iff.mp hy).1]
    exact hy
  have hsame := Window.position_eq_of_nodup (List.nodup_append.mp hnd).1 hy' hx henv
  omega

/--
**An ack frees only what was delivered, when the indices it names were read.** Where no
envelope is stored a second time that is also necessary.
-/
theorem acksFreeReturned_iff_reads (selfId : NodeId) (capacity : UInt64) (limits : Limits)
    (owner : NodeId) (calls : List (Call Cap)) :
    (AcksReadIndices selfId capacity limits owner calls →
        AcksFreeReturned selfId capacity limits owner calls)
      ∧ (StoredOnceFor selfId capacity limits owner calls →
        AcksFreeReturned selfId capacity limits owner calls →
        AcksReadIndices selfId capacity limits owner calls) :=
  ⟨acksFreeReturned_of_reads, reads_of_acksFreeReturned⟩

end Service

namespace Sample

/-- The recipient drains one envelope, the next evicts it, and the ack frees the next. -/
def drainThenOverflow : List (Call (NodeId × NodeId)) :=
  [delivery first, own (.drain recipient.hex 0 []), delivery second,
    own (.ack recipient.hex 1 [])]

end Sample

/-- The ack carries the cursor of the drain and frees an envelope no reply has carried. -/
theorem ack_frees_unreturned :
    @AcksGivenCursors (NodeId × NodeId) Sample.crypto Sample.iam Sample.mailbox 1 default
        Sample.recipient Sample.drainThenOverflow
      ∧ ¬@AcksFreeReturned (NodeId × NodeId) Sample.crypto Sample.iam Sample.mailbox 1 default
        Sample.recipient Sample.drainThenOverflow := by
  refine ⟨?_, ?_⟩
  · refine Machine.forall_cut_cons.mpr ⟨?_, Machine.forall_cut_cons.mpr ⟨?_,
      Machine.forall_cut_cons.mpr ⟨?_, Machine.forall_cut_cons.mpr ⟨?_,
        Machine.forall_cut_nil⟩⟩⟩⟩ <;> intro k cursor grant _ hack
    · cases hack
    · cases hack
    · cases hack
    · obtain ⟨-, rfl, -⟩ := MailRequest.ack.inj hack
      refine ⟨[Sample.delivery Sample.first], _, [Sample.delivery Sample.second], rfl, rfl,
        [Sample.first], Or.inl ?_⟩
      decide +kernel
  · intro h
    obtain ⟨before, d, later, hcut, hreturned⟩ := h
      [Sample.delivery Sample.first, Sample.own (.drain Sample.recipient.hex 0 []),
        Sample.delivery Sample.second] _ [] rfl _ _ _ rfl rfl (by decide +kernel)
      ⟨Sample.second, 1⟩ (by decide +kernel)
    revert hreturned
    revert before d later
    exact Machine.forall_cut_cons.mpr ⟨by decide +kernel, Machine.forall_cut_cons.mpr
      ⟨by decide +kernel, Machine.forall_cut_cons.mpr ⟨by decide +kernel,
        Machine.forall_cut_nil⟩⟩⟩

end CeMail
