import CeMail.Proof.StoreRun

/-!
# The de-dup index

What a store remembers of a recipient is the ids waiting in the queue together with
the ids that were acked, and these never overlap. So an id that was acked is refused
for ever, one that was evicted is not, and the index outgrows the capacity as soon as
enough mail has been acked.
-/

namespace CeMail

section Crypto

variable [Crypto]

/-! ## Exactly once -/

/-- The remembered ids of a run are those in the queue and those acked. -/
theorem mem_seen_after (selfId : NodeId) (capacity : UInt64) (ops : List Op) (k id : String) :
    id ∈ ((after selfId capacity ops).mail k).seen ↔
      id ∈ ((after selfId capacity ops).queue k).map StoredEnvelope.messageId
        ∨ id ∈ ackedIdsIn k (history selfId capacity ops) :=
  (kept_after selfId capacity ops k).sound.mem_seen

/-- **Delivering an envelope again right after the first time changes nothing.** -/
theorem accept_accept {vs : List Visit} {s : MailboxStore} {e : Envelope}
    (h : Kept e.body.to vs s) (now later : UInt64) :
    ((s.accept e now).1.accept e later).1 = (s.accept e now).1 := by
  by_cases hf : s.Fresh e
  · have hstored : (s.accept e now).2 = .ok .stored := MailboxStore.accept_stored.mpr hf
    have hlast := getLast?_accept h.capacity_pos hstored
    have hkept := kept_step h (.accept e now)
    rw [MailboxStore.call_accept] at hkept
    -- the envelope just stored is in its queue, so its id is remembered
    have hmem : e.messageId ∈ ((s.accept e now).1.mail e.body.to).seen := by
      refine hkept.sound.mem_seen.mpr (Or.inl (List.mem_map.mpr ⟨⟨e, now⟩, ?_, rfl⟩))
      exact List.mem_of_getLast? hlast
    exact (MailboxStore.accept_of_not_fresh (fun hf' => hf'.2.2 hmem) later).1
  · rw [(MailboxStore.accept_of_not_fresh hf now).1,
      (MailboxStore.accept_of_not_fresh hf later).1]

/-- An id that was acked is not in the queue, then or after any further calls. -/
theorem notMem_queue_of_acked {selfId : NodeId} {capacity : UInt64} {ops : List Op} {k id : String}
    (h : id ∈ ackedIdsIn k (history selfId capacity ops)) (more : List Op) :
    id ∉ ((after selfId capacity (ops ++ more)).queue k).map StoredEnvelope.messageId := by
  intro hq
  refine (kept_after selfId capacity (ops ++ more) k).sound.notMem_freed hq ?_
  rw [history, Machine.visits_append]
  exact ackedIdsIn_mono h

/--
**In-memory exactly-once storage.** In every state a run reaches, a verified envelope for
`k` is answered `Duplicate` exactly when its id waits in the queue of `k` or was acked
from it; the remembered ids are the disjoint union of these two; an acked id never comes
back to the queue; and a second delivery in a row leaves the state of the first.
-/
theorem exactly_once (selfId : NodeId) (capacity : UInt64) (ops : List Op) (k : String) :
    let s := after selfId capacity ops
    let queued := ((s.queue k).map StoredEnvelope.messageId).toFinset
    let acked := ackedIdsIn k (history selfId capacity ops)
    (∀ e now, e.verify = .ok () → e.body.to = k → k ≠ "" →
        ((s.accept e now).2 = .ok .duplicate ↔ e.messageId ∈ queued ∨ e.messageId ∈ acked))
      ∧ (s.mail k).seen = queued ∪ acked
      ∧ Disjoint queued acked
      ∧ (∀ id ∈ acked, ∀ more,
          id ∉ ((after selfId capacity (ops ++ more)).queue k).map StoredEnvelope.messageId)
      ∧ ∀ e now later, ((s.accept e now).1.accept e later).1 = (s.accept e now).1 := by
  have hsound := (kept_after selfId capacity ops k).sound
  refine ⟨?_, hsound.seen, hsound.disjoint, fun id h more => notMem_queue_of_acked h more, ?_⟩
  · intro e now hv hto hk
    subst hto
    rw [MailboxStore.accept_eq_duplicate hv hk, mem_seen_after, List.mem_toFinset]
  · exact fun e now later => accept_accept (kept_after selfId capacity ops e.body.to) now later

/-! ## The size of the index -/

/-- The index is as large as the queue and everything acked from it together. -/
theorem card_seen_after (selfId : NodeId) (capacity : UInt64) (ops : List Op) (k : String) :
    ((after selfId capacity ops).mail k).seen.card
      = ((after selfId capacity ops).queue k).length
          + ackedIn k (history selfId capacity ops) := by
  have hkept := kept_after selfId capacity ops k
  rw [← hkept.card_acked]
  exact hkept.sound.card_seen

/-- At every point of a run, at most as many ids are remembered of `k` as it may have queued. -/
def SeenBounded (selfId : NodeId) (capacity : UInt64) (k : String) (ops : List Op) : Prop :=
  ∀ before, before <+: ops →
    ((after selfId capacity before).mail k).seen.card ≤ max capacity.toNat 1

/--
What keeps the index bounded: whenever an envelope is stored under `k`, either nothing
was acked from `k` so far, or what is queued and what was acked are together fewer than
the capacity.
-/
def StoresWithRoom (selfId : NodeId) (capacity : UInt64) (k : String) (ops : List Op) : Prop :=
  ∀ before op rest, ops = before ++ op :: rest →
    ∀ e now, Visit.Stores k e now (after selfId capacity before, op) →
    ackedIn k (history selfId capacity before) = 0
      ∨ ((after selfId capacity before).queue k).length + ackedIn k (history selfId capacity before)
          < max capacity.toNat 1

/-- One more call keeps the bound exactly when it stores nothing or stores with room. -/
theorem card_seen_step {selfId : NodeId} {capacity : UInt64} {ops : List Op} {k : String}
    (h : ((after selfId capacity ops).mail k).seen.card ≤ max capacity.toNat 1) (op : Op) :
    ((after selfId capacity (ops ++ [op])).mail k).seen.card ≤ max capacity.toNat 1 ↔
      ∀ e now, Visit.Stores k e now (after selfId capacity ops, op) →
        ackedIn k (history selfId capacity ops) = 0
          ∨ ((after selfId capacity ops).queue k).length
              + ackedIn k (history selfId capacity ops) < max capacity.toNat 1 := by
  have hcap := capacity_after selfId capacity ops
  have hpos := (kept_after selfId capacity ops k).capacity_pos
  rw [card_seen_after] at h ⊢
  rw [after_concat, history_concat, ackedIn_concat]
  rcases mail_call (after selfId capacity ops) op k with
    ⟨e, now, hst, hmail, -, hacked, -, -⟩ | ⟨c, hop, hmail, -, hacked, -, -⟩
    | ⟨hmail, hnone, hacked, -, -⟩
  · -- the queue grows by one, or stays full while the oldest goes
    have hlen : (((after selfId capacity ops).call op).1.queue k).length
        = ((after selfId capacity ops).queue k).length
            - ((after selfId capacity ops).mail k).overflow (after selfId capacity ops).capacity
          + 1 := by
      rw [MailboxStore.queue, hmail, Slot.queue_deposit hpos (hst.2.1 ▸ hst.2.2.2.2),
        List.length_append, List.length_drop, List.length_singleton]
    have hover : ((after selfId capacity ops).mail k).overflow (after selfId capacity ops).capacity
        = ((after selfId capacity ops).queue k).length + 1 - max capacity.toNat 1 := by
      rw [hcap]
      rfl
    rw [hlen, hacked, hover]
    refine ⟨?_, ?_⟩
    · intro hle _ _ _
      omega
    · intro hroom
      have := hroom e now hst
      omega
  · -- what leaves the queue is counted as acked
    have hlen : (((after selfId capacity ops).call op).1.queue k).length
        = ((after selfId capacity ops).queue k).length - c.toNat := by
      rw [MailboxStore.queue, hmail]
      exact List.length_drop
    rw [hlen, hacked]
    refine iff_of_true (by omega) ?_
    intro e now hst
    cases hop.symm.trans hst.1
  · rw [MailboxStore.queue, hmail, hacked]
    refine iff_of_true h ?_
    intro e now hst
    have hsome : Visit.stored k (after selfId capacity ops, op) = some ⟨e, now⟩ :=
      Visit.stored_eq_some.mpr hst
    cases hnone.symm.trans hsome

/--
**The index stays within capacity exactly when every envelope is stored with room.** It
need not: an ack keeps the ids of what it frees, and no later call forgets them.
-/
theorem seenBounded_iff (selfId : NodeId) (capacity : UInt64) (k : String) (ops : List Op) :
    SeenBounded selfId capacity k ops ↔ StoresWithRoom selfId capacity k ops := by
  induction ops using List.reverseRecOn with
  | nil =>
      refine iff_of_true ?_ ?_
      · intro before hp
        rw [List.prefix_nil.mp hp]
        exact Nat.zero_le _
      · intro before op rest hcut
        simp at hcut
  | append_singleton ops op ih =>
      rw [SeenBounded, Machine.forall_prefix_concat, StoresWithRoom, Machine.forall_cut_concat,
        ← SeenBounded, ih, ← StoresWithRoom]
      refine and_congr_right fun hroom => card_seen_step ?_ op
      exact ih.mpr hroom ops List.prefix_rfl

end Crypto

/-- Two envelopes through a mailbox of capacity 1, the first acked before the second comes. -/
theorem seen_outgrows_capacity :
    ¬@SeenBounded Sample.crypto Sample.mailbox 1 Sample.recipient.hex
      [.accept Sample.first 1, .ack Sample.recipient.hex 1, .accept Sample.second 2] := by
  intro h
  have hcard := h _ List.prefix_rfl
  revert hcard
  decide +kernel

end CeMail
