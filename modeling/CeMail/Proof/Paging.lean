import CeMail.Proof.ServiceRun

/-!
# Paging equals draining

A recipient reads its inbox page by page: it starts at cursor 0, takes the cursor of each
page as the next one's start, and asks for as much as it likes. Meanwhile others use the
same mailbox. As long as nothing is acked from the recipient's queue and nothing evicted,
the queue only grows at its end, and the pages are the queue cut into pieces: what was
read so far is a start of it, and the last page says so.
-/

namespace CeMail

/-- What happens at a mailbox while somebody pages through an inbox. -/
inductive PagerAct (Cap : Type) where
  /-- The recipient asks for the next page. -/
  | page (limit : UInt64) (grant : List Cap) (now : UInt64) (isRevoked : NodeId → UInt64 → Bool)
  /-- Any other request. -/
  | other (call : Call Cap)

/-- The mailbox, the cursor of the last page and the envelopes of all pages so far. -/
structure Pager where
  svc : MailService
  since : UInt64
  read : List Envelope

/-- Nothing read yet. -/
def Pager.start (svc : MailService) : Pager := ⟨svc, 0, []⟩

section Pager

variable {Cap : Type} [Crypto] [Iam Cap] (owner : NodeId) (k : String)

/-- The request an act makes, of the recipient `owner` under its key `k`. -/
def PagerAct.call (p : Pager) : PagerAct Cap → Call Cap
  | .page limit grant now isRevoked => ⟨owner, .drainPage k p.since limit grant, now, isRevoked⟩
  | .other call => call

/-- Keep the cursor and the envelopes of a page that was asked for. -/
def Pager.keep (p : Pager) (svc : MailService) : PagerAct Cap → Except Panic MailReply → Pager
  | .page _ _ _ _, .ok (.page envelopes cursor _) => ⟨svc, cursor, p.read ++ envelopes⟩
  | _, _ => { p with svc := svc }

/-- Make the request of an act. -/
def Pager.step (p : Pager) (act : PagerAct Cap) : Pager × Except Panic MailReply :=
  (p.keep (p.svc.step (act.call owner k p)).1 act (p.svc.step (act.call owner k p)).2,
    (p.svc.step (act.call owner k p)).2)

/-- What the store is asked to do for an act. -/
def Pager.calls (p : Pager) (act : PagerAct Cap) : List Op := p.svc.calls (act.call owner k p)

/-- What some acts leave behind. -/
def pagerAfter (svc : MailService) (acts : List (PagerAct Cap)) : Pager :=
  Machine.final (Pager.step owner k) (.start svc) acts

/-- What the store saw of some acts. -/
def pagerVisits (svc : MailService) (acts : List (PagerAct Cap)) : List Visit :=
  Machine.visits MailboxStore.call svc.store
    (Machine.sent (Pager.step owner k) (Pager.calls owner k) (.start svc) acts)

variable {owner : NodeId} {k : String} {p : Pager} {act : PagerAct Cap}

theorem Pager.svc_step : (p.step owner k act).1.svc = (p.svc.step (act.call owner k p)).1 := by
  unfold step keep
  split <;> rfl

theorem Pager.store_step (p : Pager) (act : PagerAct Cap) :
    (p.step owner k act).1.svc.store
      = Machine.final MailboxStore.call p.svc.store (p.calls owner k act) := by
  rw [svc_step, MailService.store_step]
  rfl

theorem limits_pagerAfter (svc : MailService) (acts : List (PagerAct Cap)) :
    (pagerAfter owner k svc acts).svc.limits = svc.limits := by
  refine Machine.invariant (P := fun p : Pager => p.svc.limits = svc.limits) rfl ?_ acts
  intro p act h
  rw [Pager.svc_step]
  exact MailService.limits_handle.trans h

theorem store_pagerAfter (svc : MailService) (acts : List (PagerAct Cap)) :
    (pagerAfter owner k svc acts).svc.store = Machine.final MailboxStore.call svc.store
      (Machine.sent (Pager.step owner k) (Pager.calls owner k) (.start svc) acts) :=
  Machine.final_sent (fun p : Pager => p.svc.store) Pager.store_step (.start svc) acts

theorem pagerVisits_concat (svc : MailService) (acts : List (PagerAct Cap)) (act : PagerAct Cap) :
    pagerVisits owner k svc (acts ++ [act]) = pagerVisits owner k svc acts
      ++ Machine.visits MailboxStore.call (pagerAfter owner k svc acts).svc.store
          ((pagerAfter owner k svc acts).calls owner k act) := by
  rw [pagerVisits, Machine.sent_concat, Machine.visits_append, store_pagerAfter]
  rfl

/-! ## One page -/

/-- The cursor counts what was read, and what was read is a start of the queue. -/
structure Paged (k : String) (p : Pager) : Prop where
  cursor : p.since.toNat = p.read.length
  read : p.read <+: (p.svc.store.queue k).map StoredEnvelope.envelope

omit [Crypto] in
theorem Paged.start (k : String) (svc : MailService) : Paged k (.start svc) :=
  ⟨rfl, List.nil_prefix⟩

omit [Iam Cap] in
/--
A page from the middle or the end of a queue: where it stops, what it holds and what it
says of the rest. The sum of cursor and limit is far from the largest `usize`.
-/
theorem perform_drainPage {svc : MailService} {since : UInt64} (hmax : 1 ≤ svc.limits.maxPage)
    (hsmall : svc.limits.maxPage.toNat ≤ 2 ^ 63) (hmem : (svc.store.queue k).length < 2 ^ 63)
    (hsince : since.toNat ≤ (svc.store.queue k).length) (limit : UInt64) (grant : List Cap)
    (now : UInt64) :
    ∃ stop, since.toNat ≤ stop ∧ stop ≤ (svc.store.queue k).length
      ∧ stop ≤ since.toNat + svc.limits.maxPage.toNat
      ∧ (stop < (svc.store.queue k).length → since.toNat < stop)
      ∧ (svc.perform now (.drainPage k since limit grant)).2
        = .ok (.page ((((svc.store.queue k).take stop).drop since.toNat).map
            StoredEnvelope.envelope) (.ofNat stop) (stop < (svc.store.queue k).length)) := by
  have hclamp : svc.limits.clampPage limit = .ok (max 1 (min limit svc.limits.maxPage)) :=
    if_pos hmax
  -- both clamps together leave at least one envelope and at most a full page
  have hmax' : 1 ≤ svc.limits.maxPage.toNat := hmax
  have hsize : (max (max 1 (min limit svc.limits.maxPage)) 1).toNat
      = max (max 1 (min limit.toNat svc.limits.maxPage.toNat)) 1 := by
    rw [UInt64.toNat_max, UInt64.toNat_max, UInt64.toNat_min]
    rfl
  have hperform : (svc.perform now (.drainPage k since limit grant)).2
      = (svc.store.readPage k since (max 1 (min limit svc.limits.maxPage))).map
          fun r => .page (r.1.map StoredEnvelope.envelope) r.2.1 r.2.2 := by
    simp only [MailService.perform, hclamp]
    rfl
  rw [hperform, MailboxStore.readPage_eq, hsize]
  by_cases hlt : since.toNat < (svc.store.queue k).length
  · have hsum : since.toNat + max (max 1 (min limit.toNat svc.limits.maxPage.toNat)) 1
        < 2 ^ 64 := by
      omega
    rw [if_pos hlt, if_pos hsum]
    refine ⟨_, ?_, ?_, ?_, ?_, rfl⟩
    · omega
    · exact Nat.min_le_right _ _
    · omega
    · omega
  · -- at the end there is nothing left to take
    have hend : since.toNat = (svc.store.queue k).length := by omega
    rw [if_neg hlt]
    refine ⟨(svc.store.queue k).length, hsince, Nat.le_refl _, by omega, by omega, ?_⟩
    rw [hend, List.take_length, List.drop_length]
    simp [Except.map]

/-! ## Whole runs -/

/-- The next page of a recipient that may read: what it returns and what has then been read. -/
theorem Paged.page (h : Paged k p) (hk : parseNodeId k = .ok owner)
    (hmax : 1 ≤ p.svc.limits.maxPage) (hsmall : p.svc.limits.maxPage.toNat ≤ 2 ^ 63)
    (hmem : (p.svc.store.queue k).length < 2 ^ 63) (limit : UInt64) (grant : List Cap)
    (now : UInt64) (isRevoked : NodeId → UInt64 → Bool) :
    ∃ envelopes cursor more,
      p.step owner k (.page limit grant now isRevoked)
        = (⟨p.svc, cursor, p.read ++ envelopes⟩, .ok (.page envelopes cursor more))
      ∧ envelopes.length ≤ p.svc.limits.maxPage.toNat
      ∧ (more = true → envelopes ≠ [])
      ∧ (more = false → p.read ++ envelopes = (p.svc.store.queue k).map StoredEnvelope.envelope
        ∧ cursor = .ofNat (p.svc.store.queue k).length)
      ∧ Paged k ⟨p.svc, cursor, p.read ++ envelopes⟩ := by
  have hlen := h.read.length_le
  rw [← h.cursor, List.length_map] at hlen
  obtain ⟨stop, hlow, hhigh, hpage, hmore, hreply⟩ :=
    perform_drainPage hmax hsmall hmem hlen limit grant now
  have hadmits : p.svc.Admits
      (⟨owner, .drainPage k p.since limit grant, now, isRevoked⟩ : Call Cap) :=
    MailService.gateOwner_self hk
  -- what was read is the queue up to the cursor, so the page continues it
  have hread : p.read = ((p.svc.store.queue k).take p.since.toNat).map StoredEnvelope.envelope := by
    rw [List.map_take, h.cursor]
    exact List.prefix_iff_eq_take.mp h.read
  have happend : p.read ++ (((p.svc.store.queue k).take stop).drop p.since.toNat).map
      StoredEnvelope.envelope = ((p.svc.store.queue k).take stop).map StoredEnvelope.envelope := by
    have htake : (p.svc.store.queue k).take p.since.toNat
        = ((p.svc.store.queue k).take stop).take p.since.toNat := by
      rw [List.take_take, Nat.min_eq_left hlow]
    rw [hread, ← List.map_append, htake, List.take_append_drop]
  have hfits : stop < 2 ^ 64 := by omega
  have hcursor : (UInt64.ofNat stop).toNat = stop := UInt64.toNat_ofNat_of_lt' hfits
  refine ⟨(((p.svc.store.queue k).take stop).drop p.since.toNat).map StoredEnvelope.envelope,
    .ofNat stop, stop < (p.svc.store.queue k).length, ?_, ?_, ?_, ?_, ?_, ?_⟩
  · rw [Pager.step, PagerAct.call, MailService.step_of_admits hadmits, hreply]
    rfl
  · rw [List.length_map, List.length_drop, List.length_take]
    omega
  · intro hlt
    have := hmore (of_decide_eq_true hlt)
    rw [← List.length_pos_iff, List.length_map, List.length_drop, List.length_take]
    omega
  · intro hlast
    have hstop : stop = (p.svc.store.queue k).length := by
      have := of_decide_eq_false hlast
      omega
    rw [happend, hstop, List.take_length]
    exact ⟨rfl, rfl⟩
  · show (UInt64.ofNat stop).toNat = _
    rw [happend, hcursor, List.length_map, List.length_take, Nat.min_eq_left hhigh]
  · rw [happend, List.map_take]
    exact List.take_prefix _ _

/-- What the acts so far acked and evicted, and what the last one does. -/
theorem undisturbed_concat {svc : MailService} {acts : List (PagerAct Cap)}
    (ha : ackedIn k (pagerVisits owner k svc (acts ++ [act])) = 0)
    (he : evictedIn k (pagerVisits owner k svc (acts ++ [act])) = 0) :
    ackedIn k (pagerVisits owner k svc acts) = 0 ∧ evictedIn k (pagerVisits owner k svc acts) = 0
      ∧ (pagerAfter owner k svc acts).svc.store.queue k
        <+: ((pagerAfter owner k svc acts).step owner k act).1.svc.store.queue k := by
  rw [pagerVisits_concat] at ha he
  simp only [ackedIn, evictedIn, List.map_append, List.sum_append, Nat.add_eq_zero_iff] at ha he
  rw [Pager.store_step]
  exact ⟨ha.1, he.1, queue_grows _ ha.2 he.2⟩

/-- **Holds while nothing is acked from the queue and nothing evicted.** -/
theorem paged_after {svc : MailService} (hk : parseNodeId k = .ok owner)
    (hmax : 1 ≤ svc.limits.maxPage) (hsmall : svc.limits.maxPage.toNat ≤ 2 ^ 63)
    (acts : List (PagerAct Cap)) (ha : ackedIn k (pagerVisits owner k svc acts) = 0)
    (he : evictedIn k (pagerVisits owner k svc acts) = 0)
    (hmem : ((pagerAfter owner k svc acts).svc.store.queue k).length < 2 ^ 63) :
    Paged k (pagerAfter owner k svc acts) := by
  induction acts using List.reverseRecOn with
  | nil => exact Paged.start k svc
  | append_singleton acts act ih =>
      obtain ⟨ha, he, hgrows⟩ := undisturbed_concat ha he
      have hnext : pagerAfter owner k svc (acts ++ [act])
          = ((pagerAfter owner k svc acts).step owner k act).1 := Machine.final_concat acts act
      rw [hnext] at hmem ⊢
      have hmem' := Nat.lt_of_le_of_lt hgrows.length_le hmem
      have h := ih ha he hmem'
      have hlimits : (pagerAfter owner k svc acts).svc.limits = svc.limits :=
        limits_pagerAfter svc acts
      cases act with
      | page limit grant now isRevoked =>
          rw [← hlimits] at hmax hsmall
          obtain ⟨envelopes, cursor, more, hstep, -, -, -, hpaged⟩ :=
            h.page hk hmax hsmall hmem' limit grant now isRevoked
          rw [hstep]
          exact hpaged
      | other call =>
          -- the reader keeps what it has, and the queue still starts with it
          have hkeep : ((pagerAfter owner k svc acts).step owner k (.other call)).1
              = { pagerAfter owner k svc acts with
                  svc := ((pagerAfter owner k svc acts).svc.step call).1 } := rfl
          have hgrows' := hgrows.map StoredEnvelope.envelope
          rw [hkeep] at hgrows' ⊢
          exact ⟨h.cursor, h.read.trans hgrows'⟩

/--
**Paging equals draining.** Page after page from cursor 0, among any requests that ack
nothing from the recipient's queue and evict nothing from it: what was read is always a
start of the queue, as long as the cursor says. Whatever limit the next page is asked
with, it is answered, holds no more than a full page, and goes on where the last one
stopped; a page that says there is more is not empty, and after one that says there is
none, what was read is what a drain from 0 returns. (A queue is in memory, so its length
is below 2^63.)
-/
theorem paging_eq_draining {svc : MailService} (hk : parseNodeId k = .ok owner)
    (hmax : 1 ≤ svc.limits.maxPage) (hsmall : svc.limits.maxPage.toNat ≤ 2 ^ 63)
    (acts : List (PagerAct Cap)) (ha : ackedIn k (pagerVisits owner k svc acts) = 0)
    (he : evictedIn k (pagerVisits owner k svc acts) = 0)
    (hmem : ((pagerAfter owner k svc acts).svc.store.queue k).length < 2 ^ 63) :
    let p := pagerAfter owner k svc acts
    let queue := (p.svc.store.queue k).map StoredEnvelope.envelope
    p.read <+: queue ∧ p.since.toNat = p.read.length
      ∧ ∀ limit (grant : List Cap) now isRevoked, ∃ envelopes cursor more,
        p.step owner k (.page limit grant now isRevoked)
          = (⟨p.svc, cursor, p.read ++ envelopes⟩, .ok (.page envelopes cursor more))
        ∧ envelopes.length ≤ svc.limits.maxPage.toNat
        ∧ p.read ++ envelopes <+: queue
        ∧ (more = true → envelopes ≠ [])
        ∧ (more = false → ∀ (grant' : List Cap) now' isRevoked',
          (p.svc.step ⟨owner, .drain k 0 grant', now', isRevoked'⟩).2
            = .ok (.drained (p.read ++ envelopes) cursor)) := by
  intro p queue
  have h : Paged k p := paged_after hk hmax hsmall acts ha he hmem
  have hlimits : p.svc.limits = svc.limits := limits_pagerAfter svc acts
  refine ⟨h.read, h.cursor, ?_⟩
  intro limit grant now isRevoked
  rw [← hlimits] at hmax hsmall ⊢
  obtain ⟨envelopes, cursor, more, hstep, hshort, hmore, hlast, hpaged⟩ :=
    h.page hk hmax hsmall hmem limit grant now isRevoked
  refine ⟨envelopes, cursor, more, hstep, hshort, hpaged.read, hmore, ?_⟩
  intro hfalse grant' now' isRevoked'
  obtain ⟨hread, rfl⟩ := hlast hfalse
  have hadmits : p.svc.Admits (⟨owner, .drain k 0 grant', now', isRevoked'⟩ : Call Cap) :=
    MailService.gateOwner_self hk
  rw [MailService.step_of_admits hadmits, hread]
  simp only [MailService.perform, MailboxStore.readFrom_eq]
  rfl

end Pager

namespace Sample

/-- A service that answers one message a page. -/
def onePerPage : MailService :=
  { MailService.new (.new mailbox 2) with limits := { (default : Limits) with maxPage := 1 } }

/-- Two deliveries, and a page with the largest limit there is. -/
def pages : List (PagerAct (NodeId × NodeId)) :=
  [.other (delivery first), .other (delivery second),
    .page 0xffffffffffffffff [] 1 fun _ _ => false]

/-- Where the recipient stands then. -/
def halfRead : Pager := @pagerAfter _ crypto iam recipient recipient.hex onePerPage pages

end Sample

/-- The theorem there: a page has one message, the next has the other, as a drain has both. -/
theorem paging_eq_draining_sample :
    Sample.halfRead.read = [Sample.first]
      ∧ (@Pager.step _ Sample.crypto Sample.iam Sample.recipient Sample.recipient.hex
          Sample.halfRead (.page 5 [] 1 fun _ _ => false)).2 = .ok (.page [Sample.second] 2 false)
      ∧ (@MailService.step (NodeId × NodeId) Sample.crypto Sample.iam Sample.halfRead.svc
          ⟨Sample.recipient, .drain Sample.recipient.hex 0 [], 1, fun _ _ => false⟩).2
        = .ok (.drained [Sample.first, Sample.second] 2) := by
  have hread : Sample.halfRead.read = [Sample.first] := by decide +kernel
  have hpage : (@Pager.step _ Sample.crypto Sample.iam Sample.recipient Sample.recipient.hex
      Sample.halfRead (.page 5 [] 1 fun _ _ => false)).2 = .ok (.page [Sample.second] 2 false) := by
    decide +kernel
  refine ⟨hread, hpage, ?_⟩
  obtain ⟨-, -, hnext⟩ := @paging_eq_draining _ Sample.crypto Sample.iam Sample.recipient
    Sample.recipient.hex Sample.onePerPage (parseNodeId_hex Sample.recipient) (by decide)
    (by decide) Sample.pages (by decide +kernel) (by decide +kernel) (by decide +kernel)
  obtain ⟨envelopes, cursor, more, hstep, -, -, -, hdrain⟩ := hnext 5 [] 1 fun _ _ => false
  -- the page is the one that was answered
  have hreply := (congrArg Prod.snd hstep).symm.trans hpage
  obtain ⟨rfl, rfl, rfl⟩ := MailReply.page.inj (Except.ok.inj hreply)
  have hall := hdrain rfl [] 1 fun _ _ => false
  rw [show (@pagerAfter _ Sample.crypto Sample.iam Sample.recipient Sample.recipient.hex
    Sample.onePerPage Sample.pages).read = [Sample.first] from hread] at hall
  exact hall

end CeMail
