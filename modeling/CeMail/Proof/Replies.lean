import CeMail.Model.Panics
import CeMail.Proof.Acks

/-!
# What the service answers

A request is answered unless an operation on the way is not defined for its operands. Every
step of the store and the service but two is: `clamp_page` needs a ceiling of at least 1,
and `read_page` adds the cursor to the limit on `usize`. A sum that does not fit never goes
by unnoticed, since where it wraps it lands below the cursor and the slice panics in its
place.

A page holds no more than the ceiling. A drain has none.
-/

namespace CeMail

/-! ## Operations that are always defined -/

/-- The fault a panic of the service is, in a build with or without overflow checks. -/
def Panic.fault (checks : Bool) : Panic → Fault
  | .clampBounds => .clampBounds
  | .pageEnd => if checks then .overflow else .range

namespace Checked

variable {checks : Bool}

theorem deposit_eq {α : Type} (capacity : UInt64) (key : α → String)
    (queues : Table String (List α)) (seen : Table String (Finset String)) (k : String) (x : α) :
    deposit checks capacity key queues seen k x
      = .ok (CeMail.deposit capacity key queues seen k x) := by
  unfold deposit CeMail.deposit
  dsimp only
  split
  · rfl
  · split
    · rename_i hover
      have hsub : sub checks (queues.get k ++ [x]).length capacity.toNat
          = .ok ((queues.get k ++ [x]).length - capacity.toNat) := if_pos (Nat.le_of_lt hover)
      have hdrain : drainFront (queues.get k ++ [x])
            ((queues.get k ++ [x]).length - capacity.toNat)
          = .ok ((queues.get k ++ [x]).take ((queues.get k ++ [x]).length - capacity.toNat),
              (queues.get k ++ [x]).drop ((queues.get k ++ [x]).length - capacity.toNat)) :=
        if_pos (Nat.sub_le _ _)
      rw [hsub]
      simp only [bind, Except.bind]
      rw [hdrain]
    · rfl

theorem readFrom_eq (s : MailboxStore) (k : String) (since : UInt64) :
    readFrom s k since = .ok (s.readFrom k since) := by
  cases hq : s.queues.lookup k with
  | none => simp only [readFrom, MailboxStore.readFrom, hq]
  | some q =>
      simp only [readFrom, MailboxStore.readFrom, hq]
      by_cases hlt : since.toNat < q.length
      · have hslice : slice q since.toNat q.length = .ok (q.drop since.toNat) := by
          rw [slice, if_pos ⟨Nat.le_of_lt hlt, Nat.le_refl _⟩, List.take_length]
        rw [if_pos hlt, if_pos hlt, hslice]
        rfl
      · rw [if_neg hlt, if_neg hlt]

theorem ack_eq (s : MailboxStore) (k : String) (c : UInt64) : ack s k c = .ok (s.ack k c) := by
  rw [ack, MailboxStore.ack]
  cases hq : s.queues.lookup k with
  | none => rfl
  | some q =>
      have hdrain : drainFront q (min c.toNat q.length)
          = .ok (q.take (min c.toNat q.length), q.drop (min c.toNat q.length)) :=
        if_pos (Nat.min_le_right _ _)
      simp only [hdrain, bind, Except.bind]

theorem accept_eq [Crypto] (s : MailboxStore) (e : Envelope) (now : UInt64) :
    accept checks s e now = .ok (s.accept e now) := by
  cases hv : e.verify with
  | error err => rw [accept, MailboxStore.accept, hv]
  | ok =>
      by_cases hto : e.body.to = ""
      · rw [accept, MailboxStore.accept, hv]
        simp only [if_pos hto]
      · rw [MailboxStore.accept_eq hv hto, accept, hv]
        simp only [if_neg hto, deposit_eq, bind, Except.bind]

theorem putReceipt_eq [Crypto] (s : MailboxStore) (k : String) (r : Receipt) :
    putReceipt checks s k r = .ok (s.putReceipt k r) := by
  cases hv : r.verify with
  | error err => rw [putReceipt, MailboxStore.putReceipt, hv]
  | ok =>
      by_cases hk : k = ""
      · rw [putReceipt, MailboxStore.putReceipt, hv]
        simp only [if_pos hk]
      · rw [MailboxStore.putReceipt_eq hv hk, putReceipt, hv]
        simp only [if_neg hk, deposit_eq, bind, Except.bind]

/-! ## Operations that are not -/

theorem clampPage_eq (checks : Bool) (l : Limits) (limit : UInt64) :
    clampPage l limit = (l.clampPage limit).mapError (Panic.fault checks) := by
  rw [clampPage, clamp, Limits.clampPage]
  split <;> rfl

/-- A sum that does not fit has wrapped to below the cursor, if it was not caught before. -/
theorem readPage_eq (s : MailboxStore) (k : String) (since limit : UInt64) :
    readPage checks s k since limit
      = (s.readPage k since limit).mapError (Panic.fault checks) := by
  cases hq : s.queues.lookup k with
  | none => simp only [readPage, MailboxStore.readPage, hq, Except.mapError]
  | some q =>
      simp only [readPage, MailboxStore.readPage, hq]
      by_cases hlt : since.toNat < q.length
      · rw [if_pos hlt, if_pos hlt]
        by_cases hfits : since.toNat + (max limit 1).toNat < 2 ^ 64
        · have hadd : add checks since.toNat (max limit 1).toNat
              = .ok (since.toNat + (max limit 1).toNat) := if_pos hfits
          have hrange : since.toNat ≤ min (since.toNat + (max limit 1).toNat) q.length
              ∧ min (since.toNat + (max limit 1).toNat) q.length ≤ q.length := by
            omega
          rw [hadd, if_pos hfits]
          simp only [bind, Except.bind, slice, if_pos hrange, Except.mapError]
        · rw [if_neg hfits]
          cases checks with
          | true =>
              have hadd : add true since.toNat (max limit 1).toNat = .error .overflow := by
                rw [add, if_neg hfits, if_pos rfl]
              rw [hadd]
              rfl
          | false =>
              have hadd : add false since.toNat (max limit 1).toNat
                  = .ok ((since.toNat + (max limit 1).toNat) % 2 ^ 64) := by
                rw [add, if_neg hfits, if_neg (by decide)]
              have hlimit := (max limit 1).toNat_lt
              have hrange : ¬(since.toNat
                    ≤ min ((since.toNat + (max limit 1).toNat) % 2 ^ 64) q.length
                  ∧ min ((since.toNat + (max limit 1).toNat) % 2 ^ 64) q.length ≤ q.length) := by
                omega
              rw [hadd]
              simp only [bind, Except.bind, slice, if_neg hrange]
              rfl
      · rw [if_neg hlt, if_neg hlt]
        rfl

section Service

variable {Cap : Type} [Crypto]

theorem perform_eq (svc : MailService) (now : UInt64) (request : MailRequest Cap) :
    perform checks svc now request
      = match (svc.perform now request).2 with
        | .ok reply => .ok ((svc.perform now request).1, reply)
        | .error panic => .error (panic.fault checks) := by
  cases request with
  | deliver e grant => rw [perform, accept_eq]; rfl
  | drain k since grant => rw [perform, readFrom_eq]; rfl
  | ack k cursor grant => rw [perform, ack_eq]; rfl
  | drainPage k since limit grant =>
      rw [perform, clampPage_eq checks, MailService.perform]
      cases svc.limits.clampPage limit with
      | error panic => rfl
      | ok limit =>
          simp only [Except.mapError, bind, Except.bind, readPage_eq]
          cases svc.store.readPage k since limit <;> rfl
  | putReceipt k r grant => rw [perform, putReceipt_eq]; rfl
  | collectReceipts k grant => rfl

end Service

end Checked

/-! ## One page -/

/-- A page of a queue, its sums taken over the integers: what it holds, the next cursor, and
whether there is more. -/
structure IsPage {α : Type} (q : List α) (since limit : Nat) (page : List α) (cursor : Nat)
    (more : Bool) : Prop where
  page_eq : page = (q.take (min (since + max limit 1) q.length)).drop since
  cursor_eq : cursor = if since < q.length then min (since + max limit 1) q.length else q.length
  more_iff : more = true ↔ cursor < q.length

section Page

variable {s : MailboxStore} {k : String} {since limit : UInt64}

theorem toNat_max_one (n : UInt64) : (max n 1).toNat = max n.toNat 1 := UInt64.toNat_max n 1

/-- A page whose end is a `usize`, or that starts behind the queue. -/
theorem readPage_of_fits (hmem : (s.queue k).length < 2 ^ 64)
    (h : since.toNat < (s.queue k).length → since.toNat + max limit.toNat 1 < 2 ^ 64) :
    ∃ page cursor more, s.readPage k since limit = .ok (page, cursor, more)
      ∧ IsPage (s.queue k) since.toNat limit.toNat page cursor.toNat more := by
  rw [MailboxStore.readPage_eq, toNat_max_one]
  by_cases hlt : since.toNat < (s.queue k).length
  · have hcursor : (UInt64.ofNat (min (since.toNat + max limit.toNat 1) (s.queue k).length)).toNat
        = min (since.toNat + max limit.toNat 1) (s.queue k).length :=
      UInt64.toNat_ofNat_of_lt' (Nat.lt_of_le_of_lt (Nat.min_le_right _ _) hmem)
    rw [if_pos hlt, if_pos (h hlt)]
    refine ⟨_, _, _, rfl, rfl, ?_, ?_⟩
    · rw [hcursor, if_pos hlt]
    · rw [hcursor, decide_eq_true_eq]
  · have hcursor : (UInt64.ofNat (s.queue k).length).toNat = (s.queue k).length :=
      UInt64.toNat_ofNat_of_lt' hmem
    rw [if_neg hlt]
    refine ⟨_, _, _, rfl, ?_, ?_, ?_⟩
    · rw [List.drop_eq_nil_of_le]
      rw [List.length_take]
      omega
    · rw [hcursor, if_neg hlt]
    · rw [hcursor]
      simp

theorem readPage_of_not_fits
    (h : ¬(since.toNat < (s.queue k).length → since.toNat + max limit.toNat 1 < 2 ^ 64)) :
    s.readPage k since limit = .error .pageEnd := by
  obtain ⟨hlt, hsum⟩ := Classical.not_imp.mp h
  rw [MailboxStore.readPage_eq, toNat_max_one, if_pos hlt, if_neg hsum]

/-- Whether there is a page at all, however long the queue is. -/
theorem readPage_answers_iff (s : MailboxStore) (k : String) (since limit : UInt64) :
    (∃ r, s.readPage k since limit = .ok r)
      ↔ (since.toNat < (s.queue k).length → since.toNat + max limit.toNat 1 < 2 ^ 64) := by
  refine ⟨?_, ?_⟩
  · intro h
    obtain ⟨r, hr⟩ := h
    by_contra hnot
    rw [readPage_of_not_fits hnot] at hr
    cases hr
  · intro h
    rw [MailboxStore.readPage_eq, toNat_max_one]
    by_cases hlt : since.toNat < (s.queue k).length
    · rw [if_pos hlt, if_pos (h hlt)]
      exact ⟨_, rfl⟩
    · rw [if_neg hlt]
      exact ⟨_, rfl⟩

theorem length_readPage_le {r : List StoredEnvelope × UInt64 × Bool}
    (h : s.readPage k since limit = .ok r) : r.1.length ≤ max limit.toNat 1 := by
  rw [MailboxStore.readPage_eq, toNat_max_one] at h
  split at h
  · split at h
    · obtain rfl := Except.ok.inj h
      rw [List.length_drop, List.length_take]
      omega
    · cases h
  · obtain rfl := Except.ok.inj h
    exact Nat.zero_le _

/--
**Pages on machine integers.** In a build with or without overflow checks, on a store of its
own or one behind a lock, `read_page` returns the page that the integers give exactly when
it starts behind the queue or its cursor and limit add up to a `usize`.
-/
theorem readPage_exact_iff (checks : Bool) (s : MailboxStore) (k : String) (since limit : UInt64)
    (hmem : (s.queue k).length < 2 ^ 63) :
    (∃ page cursor more,
        Checked.readPage checks s k since limit = .ok (page, cursor, more)
          ∧ ((SharedMailbox.new s).readPage checks k since limit).2
            = .ok (.ok (page, cursor, more))
          ∧ IsPage (s.queue k) since.toNat limit.toNat page cursor.toNat more)
      ↔ (since.toNat < (s.queue k).length → since.toNat + max limit.toNat 1 < 2 ^ 64) := by
  have hshared : ((SharedMailbox.new s).readPage checks k since limit).2
      = (Checked.readPage checks s k since limit).map .ok := by
    show (SharedMailbox.with ⟨s, false⟩ _).2 = _
    rw [SharedMailbox.with, if_neg Bool.false_ne_true]
    cases Checked.readPage checks s k since limit <;> rfl
  rw [hshared, Checked.readPage_eq]
  refine ⟨?_, ?_⟩
  · intro h
    obtain ⟨page, cursor, more, hread, -, -⟩ := h
    refine (readPage_answers_iff s k since limit).mp ?_
    cases hpage : s.readPage k since limit with
    | ok r => exact ⟨r, rfl⟩
    | error panic =>
        rw [hpage] at hread
        cases hread
  · intro h
    obtain ⟨page, cursor, more, hread, hpage⟩ :=
      readPage_of_fits (Nat.lt_trans hmem (by decide)) h
    rw [hread]
    exact ⟨page, cursor, more, rfl, rfl, hpage⟩

end Page

namespace Sample

/-- Two envelopes in the recipient's queue. -/
def twoQueued : MailboxStore :=
  @after crypto mailbox 2 [.accept first 1, .accept second 1]

theorem length_twoQueued : (twoQueued.queue recipient.hex).length = 2 := by decide +kernel

end Sample

/-- The theorem at the second of two envelopes. -/
theorem readPage_exact_iff_sample :
    ∃ page cursor more,
      Checked.readPage true Sample.twoQueued Sample.recipient.hex 1 5 = .ok (page, cursor, more)
        ∧ ((SharedMailbox.new Sample.twoQueued).readPage true Sample.recipient.hex 1 5).2
          = .ok (.ok (page, cursor, more))
        ∧ IsPage (Sample.twoQueued.queue Sample.recipient.hex) 1 5 page cursor.toNat more :=
  (readPage_exact_iff true Sample.twoQueued Sample.recipient.hex 1 5
    (by rw [Sample.length_twoQueued]; decide)).mpr fun _ => by decide

/-- With the largest limit there is, the second page of an inbox panics in either build. -/
theorem second_page_panics :
    (Checked.readPage true Sample.twoQueued Sample.recipient.hex 1 0xffffffffffffffff).map
        (fun _ => ()) = .error .overflow
      ∧ (Checked.readPage false Sample.twoQueued Sample.recipient.hex 1 0xffffffffffffffff).map
        (fun _ => ()) = .error .range := by
  decide +kernel

/-! ## Whole requests -/

section Service

variable {Cap : Type} [Crypto]

namespace MailService

theorem perform_drainPage_of_pos {svc : MailService} {now since limit : UInt64} {k : String}
    {grant : List Cap} (hmax : 1 ≤ svc.limits.maxPage) :
    (svc.perform now (.drainPage k since limit grant)).2
      = (svc.store.readPage k since (max 1 (min limit svc.limits.maxPage))).map
          fun r => .page (r.1.map StoredEnvelope.envelope) r.2.1 r.2.2 := by
  have hclamp : svc.limits.clampPage limit = .ok (max 1 (min limit svc.limits.maxPage)) :=
    if_pos hmax
  simp only [perform, hclamp]
  rfl

omit [Crypto] in
theorem toNat_clamped (limit maxPage : UInt64) :
    max (max 1 (min limit maxPage)).toNat 1 = max 1 (min limit.toNat maxPage.toNat) := by
  rw [UInt64.toNat_max, UInt64.toNat_min, UInt64.toNat_one]
  omega

/-- A page is answered under a ceiling of at least 1 that leaves its end a `usize`. -/
theorem drainPage_answers_iff {svc : MailService} {now since limit : UInt64} {k : String}
    {grant : List Cap} :
    (∃ reply, (svc.perform now (.drainPage k since limit grant)).2 = .ok reply)
      ↔ 1 ≤ svc.limits.maxPage ∧ (since.toNat < (svc.store.queue k).length →
          since.toNat + max 1 (min limit.toNat svc.limits.maxPage.toNat) < 2 ^ 64) := by
  by_cases hmax : 1 ≤ svc.limits.maxPage
  · have hpage := readPage_answers_iff svc.store k since (max 1 (min limit svc.limits.maxPage))
    rw [toNat_clamped] at hpage
    rw [perform_drainPage_of_pos hmax, and_iff_right hmax, ← hpage]
    cases svc.store.readPage k since (max 1 (min limit svc.limits.maxPage)) <;> simp [Except.map]
  · have hclamp : svc.limits.clampPage limit = .error .clampBounds := if_neg hmax
    simp [perform, hclamp, hmax, bind, Except.bind]

/-- Only a page can fail to be answered. -/
theorem perform_answers {svc : MailService} {now : UInt64} {request : MailRequest Cap}
    (h : ∀ k since limit grant, request ≠ .drainPage k since limit grant) :
    ∃ reply, (svc.perform now request).2 = .ok reply := by
  cases request with
  | drainPage k since limit grant => exact absurd rfl (h k since limit grant)
  | _ => exact ⟨_, rfl⟩

variable [Iam Cap]

/-- If the request is a page that passes, the ceiling is at least 1 and the page's end, where
there is anything to read, is a `usize`. -/
def PageFits (svc : MailService) (c : Call Cap) : Prop :=
  ∀ k since limit grant, c.request = .drainPage k since limit grant → svc.Admits c →
    1 ≤ svc.limits.maxPage ∧ (since.toNat < (svc.store.queue k).length →
      since.toNat + max 1 (min limit.toNat svc.limits.maxPage.toNat) < 2 ^ 64)

end MailService

/--
**Which requests get a reply.** Whatever the limits, the store, the requester, the time and
the request are, nothing on the way to the reply panics exactly when a page that is asked
for fits.
-/
theorem handle_answers_iff [Iam Cap] (checks : Bool) (svc : MailService) (c : Call Cap) :
    (∃ svc' reply,
        Checked.handle checks svc c.requester c.request c.now c.isRevoked = .ok (svc', reply))
      ↔ svc.PageFits c := by
  by_cases hadmits : svc.Admits c
  · have hhandle : Checked.handle checks svc c.requester c.request c.now c.isRevoked
        = (Checked.perform checks svc c.now c.request).map
            fun r => ({ svc with store := r.1 }, r.2) := by
      have hgate : svc.gate c.requester c.now c.isRevoked c.request = .ok () := hadmits
      rw [Checked.handle, hgate]
      cases Checked.perform checks svc c.now c.request <;> rfl
    have hanswers : (∃ svc' reply,
        Checked.handle checks svc c.requester c.request c.now c.isRevoked = .ok (svc', reply))
        ↔ ∃ reply, (svc.perform c.now c.request).2 = .ok reply := by
      rw [hhandle, Checked.perform_eq]
      cases (svc.perform c.now c.request).2 <;> simp [Except.map]
    rw [hanswers]
    by_cases hpage : ∃ k since limit grant, c.request = .drainPage k since limit grant
    · obtain ⟨k, since, limit, grant, hreq⟩ := hpage
      rw [hreq, MailService.drainPage_answers_iff]
      refine ⟨?_, fun h => h k since limit grant hreq hadmits⟩
      intro h k' since' limit' grant' hreq' _
      obtain ⟨rfl, rfl, rfl, -⟩ := MailRequest.drainPage.inj (hreq.symm.trans hreq')
      exact h
    · have hnot : ∀ k since limit grant, c.request ≠ .drainPage k since limit grant :=
        fun k since limit grant hreq => hpage ⟨k, since, limit, grant, hreq⟩
      exact iff_of_true (MailService.perform_answers hnot)
        fun k since limit grant hreq _ => absurd hreq (hnot k since limit grant)
  · refine iff_of_true ?_ fun _ _ _ _ _ h => absurd h hadmits
    -- what does not pass is answered with the gate's message
    cases hgate : svc.gate c.requester c.now c.isRevoked c.request with
    | ok => exact absurd hgate hadmits
    | error message => exact ⟨svc, .error message, by rw [Checked.handle, hgate]⟩

end Service

namespace Sample

/-- The default limits but for the ceiling on a page. -/
def ceiling (maxPage : UInt64) : Limits := { (default : Limits) with maxPage := maxPage }

/-- The recipient's own request for a page of an empty inbox, under a ceiling of 0. -/
def noPage (checks : Bool) : Except Fault (MailService × MailReply) :=
  @Checked.handle (NodeId × NodeId) crypto checks iam (.withLimits (.new mailbox 2) (ceiling 0))
    recipient (.drainPage recipient.hex 0 10 []) 1 fun _ _ => false

end Sample

/-- A ceiling of 0 makes a request for a page panic, in either build. -/
theorem page_request_panics :
    (Sample.noPage true).map (fun _ => ()) = .error .clampBounds
      ∧ (Sample.noPage false).map (fun _ => ()) = .error .clampBounds := by
  decide +kernel

/-! ## How much a reply carries -/

section Service

variable {Cap : Type} [Crypto]

namespace MailService

variable {svc : MailService} {now : UInt64}

/-- **A page holds no more than the ceiling**, and there is none under a ceiling of 0. -/
theorem length_page_le (k : String) (since limit : UInt64) (grant : List Cap) :
    (MailReply.envelopes (svc.perform now (.drainPage k since limit grant)).2).length
      ≤ svc.limits.maxPage.toNat := by
  by_cases hmax : 1 ≤ svc.limits.maxPage
  · have hceiling : 1 ≤ svc.limits.maxPage.toNat := hmax
    rw [perform_drainPage_of_pos hmax]
    cases hpage : svc.store.readPage k since (max 1 (min limit svc.limits.maxPage)) with
    | error panic => exact Nat.zero_le _
    | ok r =>
        have hlen := length_readPage_le hpage
        rw [toNat_clamped] at hlen
        show (r.1.map StoredEnvelope.envelope).length ≤ _
        rw [List.length_map]
        omega
  · have hclamp : svc.limits.clampPage limit = .error .clampBounds := if_neg hmax
    simp only [perform, hclamp]
    exact Nat.zero_le _

/-- **A drain holds the rest of the queue.** -/
theorem length_drain_eq (k : String) (since : UInt64) (grant : List Cap) :
    (MailReply.envelopes (svc.perform now (.drain k since grant)).2).length
      = (svc.store.queue k).length - since.toNat := by
  show ((svc.store.readFrom k since).1.map StoredEnvelope.envelope).length = _
  rw [MailboxStore.readFrom_eq, List.length_map, List.length_drop]

/-- If the request is a drain that passes, no more than a page is left behind its cursor. -/
def DrainFits [Iam Cap] (svc : MailService) (c : Call Cap) : Prop :=
  ∀ k since grant, c.request = .drain k since grant → svc.Admits c →
    (svc.store.queue k).length - since.toNat ≤ svc.limits.maxPage.toNat

/-- The reply to a request that passed. -/
theorem length_perform_le_iff (request : MailRequest Cap) :
    (MailReply.envelopes (svc.perform now request).2).length ≤ svc.limits.maxPage.toNat ↔
      ∀ k since grant, request = .drain k since grant →
        (svc.store.queue k).length - since.toNat ≤ svc.limits.maxPage.toNat := by
  cases request with
  | drain k since grant =>
      rw [length_drain_eq]
      refine ⟨?_, fun hall => hall k since grant rfl⟩
      intro hle k' since' grant' hreq
      obtain ⟨rfl, rfl, -⟩ := MailRequest.drain.inj hreq
      exact hle
  | drainPage k since limit grant =>
      exact iff_of_true (length_page_le k since limit grant) fun _ _ _ hreq => by cases hreq
  | deliver e grant =>
      have hnone : MailReply.envelopes (.ok (.ofAccepted .delivered (svc.store.accept e now).2))
          = [] := MailReply.envelopes_ofAccepted fun _ => rfl
      refine iff_of_true ?_ fun _ _ _ hreq => by cases hreq
      rw [perform, hnone]
      exact Nat.zero_le _
  | putReceipt k r grant =>
      have hnone : MailReply.envelopes
          (.ok (.ofAccepted .receiptAccepted (svc.store.putReceipt k r).2)) = [] :=
        MailReply.envelopes_ofAccepted fun _ => rfl
      refine iff_of_true ?_ fun _ _ _ hreq => by cases hreq
      rw [perform, hnone]
      exact Nat.zero_le _
  | ack k cursor grant => exact iff_of_true (Nat.zero_le _) fun _ _ _ hreq => by cases hreq
  | collectReceipts k grant => exact iff_of_true (Nat.zero_le _) fun _ _ _ hreq => by cases hreq

/-- One reply. -/
theorem length_reply_le_iff [Iam Cap] (svc : MailService) (c : Call Cap) :
    (MailReply.envelopes (svc.step c).2).length ≤ svc.limits.maxPage.toNat ↔ svc.DrainFits c := by
  by_cases hadmits : svc.Admits c
  · rw [step_of_admits hadmits, length_perform_le_iff]
    exact ⟨fun h k since grant hreq _ => h k since grant hreq,
      fun h k since grant hreq => h k since grant hreq hadmits⟩
  · refine iff_of_true ?_ fun _ _ _ _ h => absurd h hadmits
    cases hgate : svc.gate c.requester c.now c.isRevoked c.request with
    | ok => exact absurd hgate hadmits
    | error message =>
        rw [step, handle_of_error hgate]
        exact Nat.zero_le _

end MailService

/--
**How much a request can pull.** In every run of a service, whatever its limits and its
first store are, no reply carries more envelopes than a page may exactly when no drain that
passes meets a queue with more than that left behind its cursor.
-/
theorem replies_bounded_iff [Iam Cap] (svc : MailService) (calls : List (Call Cap)) :
    (∀ before c later, calls = before ++ c :: later →
        (MailReply.envelopes ((Machine.final MailService.step svc before).step c).2).length
          ≤ svc.limits.maxPage.toNat)
      ↔ ∀ before c later, calls = before ++ c :: later →
          (Machine.final MailService.step svc before).DrainFits c := by
  have hlimits : ∀ before : List (Call Cap),
      (Machine.final MailService.step svc before).limits = svc.limits := by
    intro before
    refine Machine.invariant (P := fun s : MailService => s.limits = svc.limits) rfl ?_ before
    intro s c h
    exact MailService.limits_handle.trans h
  refine forall_congr' fun before => forall_congr' fun c => forall_congr' fun later =>
    forall_congr' fun _ => ?_
  rw [← hlimits before]
  exact MailService.length_reply_le_iff _ c

end Service

/-- Under a ceiling of 1, a drain still carries all there is. -/
theorem drain_exceeds_page :
    ¬∀ before c later, [Sample.delivery Sample.first, Sample.delivery Sample.second,
        Sample.own (.drain Sample.recipient.hex 0 [])] = before ++ c :: later →
      (MailReply.envelopes (@MailService.step _ Sample.crypto Sample.iam (Machine.final
          (@MailService.step _ Sample.crypto Sample.iam)
          (.start Sample.mailbox 2 (Sample.ceiling 1)) before) c).2).length
        ≤ (Sample.ceiling 1).maxPage.toNat := by
  intro h
  have hlast := h [Sample.delivery Sample.first, Sample.delivery Sample.second]
    (Sample.own (.drain Sample.recipient.hex 0 [])) [] rfl
  exact absurd hlast (by decide +kernel)

end CeMail
