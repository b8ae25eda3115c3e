import CeMail.Lib.Machine
import CeMail.Model.Mailbox

/-!
# Runs of the store

A store lives through a sequence of calls, and what a property says about its past (how
much was acked from a queue, how much it evicted, what was ever stored in it) is read
off the calls and the states they met. Nothing of it is kept in the store: the acked
ids, for one, are exactly what a store written to disk forgets.

Under one key only two calls do anything to the mail, a fresh `accept` and an `ack`.
`mail_call` says so once, and `Kept`, the invariant of one queue over a whole run,
is proved from it.
-/

namespace CeMail

/-! ## Calls -/

/-- A call of a store method. -/
inductive Op where
  | accept (envelope : Envelope) (now : UInt64)
  | ack (recipientHex : String) (upToCursor : UInt64)
  | putReceipt (forSenderHex : String) (receipt : Receipt)
  | collectReceipts (senderHex : String)
  | readFrom (recipientHex : String) (since : UInt64)
  | readPage (recipientHex : String) (since limit : UInt64)
deriving DecidableEq

/-- What a call returns. -/
inductive Answer where
  | accepted (result : Except String Accepted)
  | acked (removed : UInt64)
  | receipts (receipts : List Receipt)
  | read (envelopes : List StoredEnvelope) (cursor : UInt64)
  | page (result : Except Panic (List StoredEnvelope × UInt64 × Bool))
deriving DecidableEq

/-- A call and the store it met. -/
abbrev Visit := MailboxStore × Op

section Crypto

variable [Crypto]

/-- Perform a call. -/
def MailboxStore.call (s : MailboxStore) : Op → MailboxStore × Answer
  | .accept e now => ((s.accept e now).1, .accepted (s.accept e now).2)
  | .ack k c => ((s.ack k c).1, .acked (s.ack k c).2)
  | .putReceipt k r => ((s.putReceipt k r).1, .accepted (s.putReceipt k r).2)
  | .collectReceipts k => ((s.collectReceipts k).1, .receipts (s.collectReceipts k).2)
  | .readFrom k since => (s, .read (s.readFrom k since).1 (s.readFrom k since).2)
  | .readPage k since limit => (s, .page (s.readPage k since limit))

@[simp] theorem MailboxStore.call_accept (s : MailboxStore) (e : Envelope) (now : UInt64) :
    (s.call (.accept e now)).1 = (s.accept e now).1 := by rw [call]

@[simp] theorem MailboxStore.call_ack (s : MailboxStore) (k : String) (c : UInt64) :
    (s.call (.ack k c)).1 = (s.ack k c).1 := by rw [call]

@[simp] theorem MailboxStore.call_putReceipt (s : MailboxStore) (k : String) (r : Receipt) :
    (s.call (.putReceipt k r)).1 = (s.putReceipt k r).1 := by rw [call]

@[simp] theorem MailboxStore.call_collectReceipts (s : MailboxStore) (k : String) :
    (s.call (.collectReceipts k)).1 = (s.collectReceipts k).1 := by rw [call]

/-- The store a sequence of calls leaves behind, from an empty one. -/
def after (selfId : NodeId) (capacity : UInt64) (ops : List Op) : MailboxStore :=
  Machine.final MailboxStore.call (.new selfId capacity) ops

/-- The calls of a sequence, each with the store it met. -/
def history (selfId : NodeId) (capacity : UInt64) (ops : List Op) : List Visit :=
  Machine.visits MailboxStore.call (.new selfId capacity) ops

@[simp] theorem after_concat (selfId : NodeId) (capacity : UInt64) (ops : List Op) (op : Op) :
    after selfId capacity (ops ++ [op]) = ((after selfId capacity ops).call op).1 :=
  Machine.final_concat ops op

@[simp] theorem history_concat (selfId : NodeId) (capacity : UInt64) (ops : List Op) (op : Op) :
    history selfId capacity (ops ++ [op])
      = history selfId capacity ops ++ [(after selfId capacity ops, op)] :=
  Machine.visits_concat ops op

/-! ## What a history says about one queue -/

/-- The envelope a call stored under `k`, when it was answered `Stored`. -/
def Visit.stored (k : String) : Visit → Option StoredEnvelope
  | (s, .accept e now) =>
      if e.body.to = k ∧ (s.accept e now).2 = .ok .stored then some ⟨e, now⟩ else none
  | _ => none

/-- How many envelopes a call acked from `k`, as the ack answered. -/
def Visit.acked (k : String) : Visit → Nat
  | (s, .ack k' c) => if k' = k then (s.ack k' c).2.toNat else 0
  | _ => 0

/-- The ids a call acked from `k`. -/
def Visit.ackedIds (k : String) : Visit → Finset String
  | (s, .ack k' c) =>
      if k' = k then (((s.queue k).take c.toNat).map StoredEnvelope.messageId).toFinset else ∅
  | _ => ∅

/-- How many envelopes a call evicted from `k`: what the queue had beyond capacity. -/
def Visit.evicted (k : String) : Visit → Nat
  | (s, .accept e now) =>
      if e.body.to = k ∧ (s.accept e now).2 = .ok .stored then
        (s.queue k).length + 1 - s.capacity
      else 0
  | _ => 0

/-- The envelopes stored under `k`, oldest first. -/
def storedIn (k : String) (vs : List Visit) : List StoredEnvelope := vs.filterMap (Visit.stored k)

/-- How many envelopes acks removed from `k`. -/
def ackedIn (k : String) (vs : List Visit) : Nat := (vs.map (Visit.acked k)).sum

/-- The ids acks removed from `k`. -/
def ackedIdsIn (k : String) (vs : List Visit) : Finset String :=
  vs.foldl (fun ids v => ids ∪ v.ackedIds k) ∅

/-- How many envelopes were evicted from `k`. -/
def evictedIn (k : String) (vs : List Visit) : Nat := (vs.map (Visit.evicted k)).sum

section Histories

variable {k : String} {vs ws : List Visit} {v : Visit}

@[simp] theorem storedIn_concat :
    storedIn k (vs ++ [v]) = storedIn k vs ++ (v.stored k).toList := by
  cases h : v.stored k <;> simp [storedIn, h]

omit [Crypto] in
@[simp] theorem ackedIn_concat : ackedIn k (vs ++ [v]) = ackedIn k vs + v.acked k := by
  simp [ackedIn]

@[simp] theorem ackedIdsIn_concat :
    ackedIdsIn k (vs ++ [v]) = ackedIdsIn k vs ∪ v.ackedIds k := by
  simp [ackedIdsIn]

@[simp] theorem evictedIn_concat : evictedIn k (vs ++ [v]) = evictedIn k vs + v.evicted k := by
  simp [evictedIn]

theorem storedIn_append : storedIn k (vs ++ ws) = storedIn k vs ++ storedIn k ws :=
  List.filterMap_append

omit [Crypto] in
theorem ackedIn_append : ackedIn k (vs ++ ws) = ackedIn k vs + ackedIn k ws := by
  simp [ackedIn]

theorem evictedIn_append : evictedIn k (vs ++ ws) = evictedIn k vs + evictedIn k ws := by
  simp [evictedIn]

/-- What was acked stays acked. -/
theorem ackedIdsIn_mono : ackedIdsIn k vs ⊆ ackedIdsIn k (vs ++ ws) := by
  induction ws using List.reverseRecOn with
  | nil => rw [List.append_nil]
  | append_singleton ws v ih =>
      rw [← List.append_assoc, ackedIdsIn_concat]
      exact ih.trans Finset.subset_union_left

end Histories

/-! ## One call, one queue -/

/-- A call that stores under `k`. -/
def Visit.Stores (k : String) (e : Envelope) (now : UInt64) (v : Visit) : Prop :=
  v.2 = .accept e now ∧ e.body.to = k ∧ v.1.Fresh e

theorem Visit.stored_eq_some {k : String} {x : StoredEnvelope} {v : Visit} :
    v.stored k = some x ↔ v.Stores k x.envelope x.storedAt := by
  obtain ⟨s, op⟩ := v
  cases op with
  | accept e now =>
      obtain ⟨e', now'⟩ := x
      simp only [stored, Stores, MailboxStore.accept_stored, Option.ite_none_right_eq_some,
        Option.some.injEq, StoredEnvelope.mk.injEq, Op.accept.injEq]
      refine ⟨?_, ?_⟩
      · intro h
        rcases h with ⟨⟨hto, hf⟩, rfl, rfl⟩
        exact ⟨⟨rfl, rfl⟩, hto, hf⟩
      · intro h
        rcases h with ⟨⟨rfl, rfl⟩, hto, hf⟩
        exact ⟨⟨hto, hf⟩, rfl, rfl⟩
  | _ => simp [stored, Stores]

/-- **What one call does to the mail under a key**, and what the history records of it. -/
theorem mail_call (s : MailboxStore) (op : Op) (k : String) :
    (∃ e now, Visit.Stores k e now (s, op)
      ∧ (s.call op).1.mail k
          = ((s.mail k).deposit s.capacity StoredEnvelope.messageId ⟨e, now⟩).1
      ∧ Visit.stored k (s, op) = some ⟨e, now⟩ ∧ Visit.acked k (s, op) = 0
      ∧ Visit.ackedIds k (s, op) = ∅
      ∧ Visit.evicted k (s, op) = (s.mail k).overflow s.capacity)
    ∨ (∃ c, op = .ack k c ∧ (s.call op).1.mail k = (s.mail k).free c.toNat
      ∧ Visit.stored k (s, op) = none
      ∧ Visit.acked k (s, op) = min c.toNat (s.queue k).length
      ∧ Visit.ackedIds k (s, op)
          = (((s.queue k).take c.toNat).map StoredEnvelope.messageId).toFinset
      ∧ Visit.evicted k (s, op) = 0)
    ∨ ((s.call op).1.mail k = s.mail k ∧ Visit.stored k (s, op) = none
      ∧ Visit.acked k (s, op) = 0 ∧ Visit.ackedIds k (s, op) = ∅
      ∧ Visit.evicted k (s, op) = 0) := by
  cases op with
  | accept e now =>
      simp only [MailboxStore.call_accept, Visit.stored, Visit.acked, Visit.ackedIds,
        Visit.evicted]
      by_cases h : e.body.to = k ∧ (s.accept e now).2 = .ok .stored
      · have hf := MailboxStore.accept_stored.mp h.2
        have hmail := MailboxStore.mail_accept hf now k
        rw [if_pos h.1.symm] at hmail
        rw [if_pos h, if_pos h]
        exact Or.inl ⟨e, now, ⟨rfl, h.1, hf⟩, hmail, rfl, trivial, trivial, rfl⟩
      · have hmail : (s.accept e now).1.mail k = s.mail k := by
          by_cases hf : s.Fresh e
          · rw [MailboxStore.mail_accept hf,
              if_neg fun hk => h ⟨hk.symm, MailboxStore.accept_stored.mpr hf⟩]
          · rw [(MailboxStore.accept_of_not_fresh hf now).1]
        rw [if_neg h, if_neg h]
        exact Or.inr (Or.inr ⟨hmail, rfl, trivial, trivial, rfl⟩)
  | ack k' c =>
      simp only [MailboxStore.call_ack, Visit.stored, Visit.acked, Visit.ackedIds, Visit.evicted,
        MailboxStore.mail_ack, MailboxStore.ack_snd]
      by_cases hk : k' = k
      · subst hk
        rw [if_pos rfl, if_pos rfl, if_pos rfl]
        exact Or.inr (Or.inl ⟨c, rfl, rfl, trivial, rfl, rfl, trivial⟩)
      · rw [if_neg (Ne.symm hk), if_neg hk, if_neg hk]
        exact Or.inr (Or.inr ⟨rfl, trivial, rfl, rfl, trivial⟩)
  | putReceipt k' r =>
      rw [MailboxStore.call_putReceipt]
      exact Or.inr (Or.inr ⟨(MailboxStore.putReceipt_frame k' r).1 k, rfl, rfl, rfl, rfl⟩)
  | collectReceipts _ | readFrom _ _ | readPage _ _ _ =>
      exact Or.inr (Or.inr ⟨rfl, rfl, rfl, rfl, rfl⟩)

/-- No call changes the store's own settings. -/
theorem settings_call (s : MailboxStore) (op : Op) :
    (s.call op).1.capacityPerRecipient = s.capacityPerRecipient
      ∧ (s.call op).1.selfId = s.selfId := by
  cases op with
  | accept e now => rw [MailboxStore.call_accept]; exact (MailboxStore.accept_frame e now).2
  | ack k c => rw [MailboxStore.call_ack]; exact (MailboxStore.ack_frame k c).2
  | putReceipt k r =>
      rw [MailboxStore.call_putReceipt]
      exact (MailboxStore.putReceipt_frame k r).2
  | collectReceipts _ | readFrom _ _ | readPage _ _ _ => exact ⟨rfl, rfl⟩

/-! ## The invariant of one queue -/

/--
What holds of the mail under `k` after a history: the slot is sound with the acked ids
as the freed ones, of which there are as many as the acks said, its queue is the log of
everything stored with the acked and the evicted dropped from the front, and every
envelope in it verifies and is addressed to `k`.
-/
structure Kept (k : String) (vs : List Visit) (s : MailboxStore) : Prop where
  capacity_pos : 0 < s.capacity
  sound : (s.mail k).Sound s.capacity StoredEnvelope.messageId (ackedIdsIn k vs)
  card_acked : (ackedIdsIn k vs).card = ackedIn k vs
  shows : ∃ w : Window StoredEnvelope, w.log = storedIn k vs
    ∧ w.base = ackedIn k vs + evictedIn k vs ∧ (s.mail k).Shows w
  addressed : ∀ x ∈ s.queue k,
    x.envelope.verify = .ok () ∧ x.envelope.body.to = k ∧ x.envelope.body.to ≠ ""

theorem kept_init (selfId : NodeId) (capacity : UInt64) (k : String) :
    Kept k [] (.new selfId capacity) where
  capacity_pos := by
    show 0 < (max capacity 1).toNat
    rw [UInt64.toNat_max]
    exact Nat.lt_of_lt_of_le (by decide) (Nat.le_max_right _ _)
  sound := Slot.Sound.init _ _
  card_acked := rfl
  shows := ⟨Window.empty, rfl, rfl, rfl⟩
  addressed x hx := by cases hx

/-- **Preserved by every call.** -/
theorem kept_step {k : String} {vs : List Visit} {s : MailboxStore} (h : Kept k vs s) (op : Op) :
    Kept k (vs ++ [(s, op)]) (s.call op).1 := by
  obtain ⟨hcap, hsound, hcard, ⟨w, hlog, hbase, hshows⟩, haddr⟩ := h
  have hsame : (s.call op).1.capacity = s.capacity :=
    congrArg UInt64.toNat (settings_call s op).1
  rcases mail_call s op k with ⟨e, now, ⟨-, hto, hv, hne, hnot⟩, hmail, hs, ha, hi, he⟩
    | ⟨c, -, hmail, hs, ha, hi, he⟩ | ⟨hmail, hs, ha, hi, he⟩
  -- the call stores: one envelope more at the end, and what overflows gone from the front
  · subst hto
    have hlen : (s.mail e.body.to).overflow s.capacity ≤ w.contents.length := by
      rw [← hshows]
      exact Slot.overflow_le_length hcap
    refine ⟨by rw [hsame]; exact hcap, ?_, ?_,
      ⟨(w.push ⟨e, now⟩).advance ((s.mail e.body.to).overflow s.capacity), ?_, ?_, ?_⟩, ?_⟩
    · rw [hsame, hmail, ackedIdsIn_concat, hi, Finset.union_empty]
      exact hsound.deposit hcap _
    · rw [ackedIdsIn_concat, ackedIn_concat, hi, ha, Finset.union_empty, hcard, Nat.add_zero]
    · rw [storedIn_concat, hs, Window.log_advance, Window.log_push, hlog]
      rfl
    · rw [Window.base_advance, Window.base_push, hbase, ackedIn_concat, evictedIn_concat, ha, he,
        Window.contents_push, List.length_append, Nat.min_eq_left (by omega)]
      omega
    · rw [hmail]
      exact hshows.deposit hcap hnot
    · intro x hx
      rw [MailboxStore.queue, hmail, Slot.queue_deposit hcap hnot] at hx
      rcases List.mem_append.mp hx with hx | hx
      · exact haddr x (List.mem_of_mem_drop hx)
      · obtain rfl := List.mem_singleton.mp hx
        exact ⟨hv, rfl, hne⟩
  -- the call acks: the freed ids change sides, and the log only loses its front
  · refine ⟨by rw [hsame]; exact hcap, ?_, ?_, ⟨w.advance c.toNat, ?_, ?_, ?_⟩, ?_⟩
    · rw [hsame, hmail, ackedIdsIn_concat, hi]
      exact hsound.free c.toNat
    · rw [ackedIdsIn_concat, ackedIn_concat, hi, ha, hsound.card_freed, hcard]
    · rw [storedIn_concat, hs, Window.log_advance, hlog, Option.toList_none, List.append_nil]
    · have hlen : w.contents.length = (s.queue k).length := congrArg List.length hshows.symm
      rw [Window.base_advance, hbase, ackedIn_concat, evictedIn_concat, ha, he, hlen]
      omega
    · rw [hmail]
      exact hshows.free c.toNat
    · intro x hx
      rw [MailboxStore.queue, hmail] at hx
      exact haddr x (List.mem_of_mem_drop hx)
  -- the call does nothing to this key
  · refine ⟨by rw [hsame]; exact hcap, ?_, ?_, ⟨w, ?_, ?_, ?_⟩, ?_⟩
    · rw [hsame, hmail, ackedIdsIn_concat, hi, Finset.union_empty]
      exact hsound
    · rw [ackedIdsIn_concat, ackedIn_concat, hi, ha, Finset.union_empty, hcard, Nat.add_zero]
    · rw [storedIn_concat, hs, Option.toList_none, List.append_nil, hlog]
    · rw [ackedIn_concat, evictedIn_concat, ha, he, hbase, Nat.add_zero, Nat.add_zero]
    · rw [hmail]
      exact hshows
    · intro x hx
      rw [MailboxStore.queue, hmail] at hx
      exact haddr x hx

/-- **Holds of every run.** -/
theorem kept_after (selfId : NodeId) (capacity : UInt64) (ops : List Op) (k : String) :
    Kept k (history selfId capacity ops) (after selfId capacity ops) := by
  refine Machine.run_induction
    (P := fun ops s => Kept k (history selfId capacity ops) s) (kept_init selfId capacity k) ?_ ops
  intro ops op h
  rw [history_concat]
  exact kept_step h op

theorem capacity_after (selfId : NodeId) (capacity : UInt64) (ops : List Op) :
    (after selfId capacity ops).capacity = max capacity.toNat 1 := by
  refine Machine.invariant
    (P := fun s : MailboxStore => s.capacity = max capacity.toNat 1) ?_ ?_ ops
  · exact UInt64.toNat_max capacity 1
  · intro s op h
    rw [MailboxStore.capacity, (settings_call s op).1]
    exact h

theorem selfId_after (selfId : NodeId) (capacity : UInt64) (ops : List Op) :
    (after selfId capacity ops).selfId = selfId := by
  refine Machine.invariant (P := fun s : MailboxStore => s.selfId = selfId) rfl ?_ ops
  intro s op h
  rw [(settings_call s op).2]
  exact h

/-- The bounded queue of a run as a number, from its invariant. -/
theorem length_queue_le (selfId : NodeId) (capacity : UInt64) (ops : List Op) (k : String) :
    ((after selfId capacity ops).queue k).length ≤ max capacity.toNat 1 := by
  rw [← capacity_after selfId capacity ops]
  exact (kept_after selfId capacity ops k).sound.bounded

/-- The number of envelopes in a queue is a `usize`. -/
theorem toNat_length_queue (selfId : NodeId) (capacity : UInt64) (ops : List Op) (k : String) :
    (UInt64.ofNat ((after selfId capacity ops).queue k).length).toNat
      = ((after selfId capacity ops).queue k).length := by
  have hle := length_queue_le selfId capacity ops k
  have hlt := capacity.toNat_lt
  exact UInt64.toNat_ofNat_of_lt' (by show _ < 2 ^ 64; omega)

/-- The queue is what was stored without the acked and the evicted, and nothing is lost count of. -/
theorem queue_after (selfId : NodeId) (capacity : UInt64) (ops : List Op) (k : String) :
    (after selfId capacity ops).queue k
        = (storedIn k (history selfId capacity ops)).drop
            (ackedIn k (history selfId capacity ops) + evictedIn k (history selfId capacity ops))
      ∧ (storedIn k (history selfId capacity ops)).length
        = ackedIn k (history selfId capacity ops) + evictedIn k (history selfId capacity ops)
            + ((after selfId capacity ops).queue k).length := by
  obtain ⟨w, hlog, hbase, hshows⟩ := (kept_after selfId capacity ops k).shows
  have hqueue : (after selfId capacity ops).queue k = w.contents := hshows
  have hle := w.base_le
  rw [hqueue, Window.length_contents, ← hlog, ← hbase]
  exact ⟨rfl, by omega⟩

/-- What is in a queue was stored there by some call. -/
theorem exists_stores_of_mem_queue {selfId : NodeId} {capacity : UInt64} {ops : List Op}
    {k : String} {x : StoredEnvelope} (hx : x ∈ (after selfId capacity ops).queue k) :
    ∃ v ∈ history selfId capacity ops, v.Stores k x.envelope x.storedAt := by
  rw [(queue_after selfId capacity ops k).1] at hx
  obtain ⟨v, hv, hstored⟩ := List.mem_filterMap.mp (List.mem_of_mem_drop hx)
  exact ⟨v, hv, Visit.stored_eq_some.mp hstored⟩

/-- The log of a key and how much of it was let go. -/
def window (selfId : NodeId) (capacity : UInt64) (ops : List Op) (k : String) :
    Window StoredEnvelope where
  log := storedIn k (history selfId capacity ops)
  base := ackedIn k (history selfId capacity ops) + evictedIn k (history selfId capacity ops)
  base_le := by
    rw [(queue_after selfId capacity ops k).2]
    exact Nat.le_add_right _ _

theorem queue_eq_contents (selfId : NodeId) (capacity : UInt64) (ops : List Op) (k : String) :
    (after selfId capacity ops).queue k = (window selfId capacity ops k).contents :=
  (queue_after selfId capacity ops k).1

/-- **What one call does to the log of a key**: it grows, or lets something go, or stays. -/
theorem window_concat (selfId : NodeId) (capacity : UInt64) (ops : List Op) (op : Op)
    (k : String) :
    (∃ e now, Visit.Stores k e now (after selfId capacity ops, op)
      ∧ Visit.evicted k (after selfId capacity ops, op) ≤ 1
      ∧ window selfId capacity (ops ++ [op]) k
          = ((window selfId capacity ops k).push ⟨e, now⟩).advance
              (Visit.evicted k (after selfId capacity ops, op)))
    ∨ (∃ c, op = .ack k c ∧ Visit.evicted k (after selfId capacity ops, op) = 0
      ∧ window selfId capacity (ops ++ [op]) k
          = (window selfId capacity ops k).advance c.toNat)
    ∨ (Visit.evicted k (after selfId capacity ops, op) = 0
      ∧ window selfId capacity (ops ++ [op]) k = window selfId capacity ops k) := by
  have hsound := (kept_after selfId capacity ops k).sound
  have hlen : ((after selfId capacity ops).queue k).length
      = (window selfId capacity ops k).contents.length := by rw [queue_eq_contents]
  have hlog : (window selfId capacity (ops ++ [op]) k).log
      = (window selfId capacity ops k).log
          ++ (Visit.stored k (after selfId capacity ops, op)).toList := by
    show storedIn k (history selfId capacity (ops ++ [op])) = _
    rw [history_concat, storedIn_concat]
    rfl
  have hbase : (window selfId capacity (ops ++ [op]) k).base
      = (window selfId capacity ops k).base + Visit.acked k (after selfId capacity ops, op)
          + Visit.evicted k (after selfId capacity ops, op) := by
    show ackedIn k (history selfId capacity (ops ++ [op]))
      + evictedIn k (history selfId capacity (ops ++ [op])) = _
    rw [history_concat, ackedIn_concat, evictedIn_concat]
    show _ = ackedIn k _ + evictedIn k _ + _ + _
    omega
  rcases mail_call (after selfId capacity ops) op k with ⟨e, now, hst, -, hs, ha, -, he⟩
    | ⟨c, hop, -, hs, ha, -, he⟩ | ⟨-, hs, ha, -, he⟩
  · have hle : Visit.evicted k (after selfId capacity ops, op) ≤ 1 := he ▸ hsound.overflow_le
    refine Or.inl ⟨e, now, hst, hle, Window.ext ?_ ?_⟩
    · rw [hlog, hs]
      rfl
    · rw [hbase, ha, Window.base_push_advance _ _ hle, Nat.add_zero]
  · refine Or.inr (Or.inl ⟨c, hop, he, Window.ext ?_ ?_⟩)
    · rw [hlog, hs]
      exact List.append_nil _
    · rw [hbase, ha, he, hlen, Window.base_advance, Nat.add_zero]
  · refine Or.inr (Or.inr ⟨he, Window.ext ?_ ?_⟩)
    · rw [hlog, hs]
      exact List.append_nil _
    · rw [hbase, ha, he]
      rfl

/-- An ack lets go of the front of the log. -/
theorem window_ack (selfId : NodeId) (capacity : UInt64) (ops : List Op) (k : String)
    (c : UInt64) :
    window selfId capacity (ops ++ [.ack k c]) k
      = (window selfId capacity ops k).advance c.toNat := by
  refine Window.ext ?_ ?_
  · show storedIn k (history selfId capacity (ops ++ [.ack k c])) = storedIn k _
    rw [history_concat, storedIn_concat]
    exact List.append_nil _
  · have hacked : Visit.acked k (after selfId capacity ops, .ack k c)
        = min c.toNat (window selfId capacity ops k).contents.length := by
      rw [Visit.acked, if_pos rfl, MailboxStore.ack_snd, queue_eq_contents]
    show ackedIn k (history selfId capacity (ops ++ [.ack k c]))
      + evictedIn k (history selfId capacity (ops ++ [.ack k c])) = _
    rw [history_concat, ackedIn_concat, evictedIn_concat, hacked, Window.base_advance]
    show _ + _ + (_ + 0) = ackedIn k _ + evictedIn k _ + _
    omega

/-- While nothing is evicted no id is stored twice: those stored are all remembered. -/
theorem nodup_stored {selfId : NodeId} {capacity : UInt64} {ops : List Op} {k : String}
    (hno : evictedIn k (history selfId capacity ops) = 0) :
    ((storedIn k (history selfId capacity ops)).map StoredEnvelope.messageId).Nodup
      ∧ ∀ x ∈ storedIn k (history selfId capacity ops),
          x.messageId ∈ ((after selfId capacity ops).mail k).seen := by
  induction ops using List.reverseRecOn with
  | nil => exact ⟨List.nodup_nil, fun _ h => by cases h⟩
  | append_singleton ops op ih =>
      rw [history_concat, evictedIn_concat] at hno
      obtain ⟨hno, hlast⟩ := Nat.add_eq_zero_iff.mp hno
      obtain ⟨hnd, hseen⟩ := ih hno
      have hcap := (kept_after selfId capacity ops k).capacity_pos
      rw [history_concat, storedIn_concat, after_concat]
      rcases mail_call (after selfId capacity ops) op k
        with ⟨e, now, ⟨-, hto, -, -, hnew⟩, hmail, hs, -, -, he⟩ | ⟨c, -, hmail, hs, -⟩
          | ⟨hmail, hs, -⟩
      -- a fresh id is not remembered, so it is none of those stored before
      · rw [hto] at hnew
        have hover := he.symm.trans hlast
        have hmem : ∀ a, a ∈ (((after selfId capacity ops).call op).1.mail k).seen ↔
            a = e.messageId ∨ a ∈ ((after selfId capacity ops).mail k).seen := by
          intro a
          rw [hmail, Slot.seen_deposit hcap hnew, hover, List.take_zero]
          simp [StoredEnvelope.messageId]
        rw [hs, Option.toList_some, List.map_append]
        refine ⟨List.nodup_append.mpr ⟨hnd, List.nodup_singleton _, ?_⟩, ?_⟩
        · intro a ha b hb heq
          subst heq
          obtain ⟨x, hx, hxa⟩ := List.mem_map.mp ha
          obtain rfl := List.mem_singleton.mp hb
          have hold := hseen x hx
          rw [hxa] at hold
          exact hnew hold
        · intro x hx
          rcases List.mem_append.mp hx with hx | hx
          · exact (hmem _).mpr (Or.inr (hseen x hx))
          · obtain rfl := List.mem_singleton.mp hx
            exact (hmem _).mpr (Or.inl rfl)
      · rw [hs, hmail, Option.toList_none, List.append_nil]
        exact ⟨hnd, hseen⟩
      · rw [hs, hmail, Option.toList_none, List.append_nil]
        exact ⟨hnd, hseen⟩

/-- Further calls only append to the log. -/
theorem log_extends (selfId : NodeId) (capacity : UInt64) (ops more : List Op) (k : String) :
    (window selfId capacity ops k).log <+: (window selfId capacity (ops ++ more) k).log := by
  show storedIn k (history selfId capacity ops)
    <+: storedIn k (history selfId capacity (ops ++ more))
  rw [history, history, Machine.visits_append, storedIn_append]
  exact List.prefix_append _ _

/-- With room for one envelope a stored one is at the end of its queue. -/
theorem getLast?_accept {s : MailboxStore} (hcap : 0 < s.capacity) {e : Envelope} {now : UInt64}
    (h : (s.accept e now).2 = .ok .stored) :
    ((s.accept e now).1.queue e.body.to).getLast? = some ⟨e, now⟩ := by
  have hf := MailboxStore.accept_stored.mp h
  rw [MailboxStore.queue, MailboxStore.mail_accept hf, if_pos rfl,
    Slot.queue_deposit hcap hf.2.2]
  exact List.getLast?_concat

/--
**Queue conservation.** After any calls, the queue of a key is everything that was
stored under it, oldest first, without as many from the front as were acked and evicted.
It is within capacity, holds no id twice and only verified envelopes addressed to the
key; and whatever is stored next is not what its own storing evicts.
-/
theorem queue_conservation (selfId : NodeId) (capacity : UInt64) (ops : List Op) (k : String) :
    let s := after selfId capacity ops
    let vs := history selfId capacity ops
    s.queue k = (storedIn k vs).drop (ackedIn k vs + evictedIn k vs)
      ∧ (storedIn k vs).length = ackedIn k vs + evictedIn k vs + (s.queue k).length
      ∧ (s.queue k).length ≤ max capacity.toNat 1
      ∧ ((s.queue k).map StoredEnvelope.messageId).Nodup
      ∧ (∀ x ∈ s.queue k, x.envelope.verify = .ok () ∧ x.envelope.body.to = k)
      ∧ ∀ e now, (s.accept e now).2 = .ok .stored →
          ((s.accept e now).1.queue e.body.to).getLast? = some ⟨e, now⟩ := by
  have hkept := kept_after selfId capacity ops k
  have hqueue := queue_after selfId capacity ops k
  exact ⟨hqueue.1, hqueue.2, length_queue_le selfId capacity ops k, hkept.sound.nodup,
    fun x hx => ⟨(hkept.addressed x hx).1, (hkept.addressed x hx).2.1⟩,
    fun _ _ h => getLast?_accept hkept.capacity_pos h⟩

/-! ## Mail that stays -/

/-- A call that acks and evicts nothing under `k` only appends to its queue. -/
theorem queue_grows_call {s : MailboxStore} {op : Op} {k : String}
    (ha : Visit.acked k (s, op) = 0)
    (he : Visit.evicted k (s, op) = 0) : s.queue k <+: (s.call op).1.queue k := by
  rcases mail_call s op k with ⟨e, now, ⟨-, hto, -, -, hnot⟩, hmail, -, -, -, hev⟩
    | ⟨c, -, hmail, -, hack, -, -⟩ | ⟨hmail, -, -, -, -⟩
  · -- nothing was evicted, so there was room
    have hover : (s.mail k).overflow s.capacity = 0 := hev.symm.trans he
    have hcap : 0 < s.capacity := by
      unfold Slot.overflow at hover
      omega
    subst hto
    rw [MailboxStore.queue, MailboxStore.queue, hmail, Slot.queue_deposit hcap hnot, hover]
    exact List.prefix_append _ _
  · have hmin : min c.toNat (s.queue k).length = 0 := hack.symm.trans ha
    rw [MailboxStore.queue, MailboxStore.queue, hmail]
    show (s.mail k).queue <+: (s.mail k).queue.drop c.toNat
    rw [List.drop_eq_drop_min, hmin]
    exact List.prefix_rfl
  · rw [MailboxStore.queue, MailboxStore.queue, hmail]

/-- Further calls that ack and evict nothing under `k` only append to its queue. -/
theorem queue_grows {s : MailboxStore} {k : String} (ops : List Op)
    (ha : ackedIn k (Machine.visits MailboxStore.call s ops) = 0)
    (he : evictedIn k (Machine.visits MailboxStore.call s ops) = 0) :
    s.queue k <+: (Machine.final MailboxStore.call s ops).queue k := by
  induction ops generalizing s with
  | nil => exact List.prefix_rfl
  | cons op ops ih =>
      simp only [Machine.visits, ackedIn, evictedIn, List.map_cons, List.sum_cons,
        Nat.add_eq_zero_iff] at ha he
      exact (queue_grows_call ha.1 he.1).trans (ih ha.2 he.2)

/-- **An envelope stays until it is acked or evicted**, over any further calls. -/
theorem mem_queue_final {s : MailboxStore} {k : String} {x : StoredEnvelope}
    (hx : x ∈ s.queue k) (ops : List Op)
    (ha : ackedIn k (Machine.visits MailboxStore.call s ops) = 0)
    (he : evictedIn k (Machine.visits MailboxStore.call s ops) = 0) :
    x ∈ (Machine.final MailboxStore.call s ops).queue k :=
  (queue_grows ops ha he).subset hx

/-! ## Receipts -/

/-- A call that stores a receipt for `k`. -/
def Visit.Posts (k : String) (r : Receipt) (v : Visit) : Prop :=
  v.2 = .putReceipt k r ∧ v.1.FreshReceipt k r

theorem Visit.Posts.ne_collect {k : String} {r : Receipt} {v : Visit} (h : v.Posts k r) :
    v.2 ≠ .collectReceipts k := by
  rw [h.1]
  intro hc
  cases hc

/-- The receipt a call stored for `k`, when it was answered `Stored`. -/
def Visit.posted (k : String) : Visit → Option Receipt
  | (s, .putReceipt k' r) => if k' = k ∧ (s.putReceipt k' r).2 = .ok .stored then some r else none
  | _ => none

/-- How many receipts a call evicted from `k`. -/
def Visit.postEvicted (k : String) : Visit → Nat
  | (s, .putReceipt k' r) =>
      if k' = k ∧ (s.putReceipt k' r).2 = .ok .stored then
        (s.post k).queue.length + 1 - s.capacity
      else 0
  | _ => 0

/-- **What one call does to the receipts under a key**: a deposit, a collection, or nothing. -/
theorem post_call (s : MailboxStore) (op : Op) (k : String) :
    (∃ r, Visit.Posts k r (s, op)
      ∧ (s.call op).1.post k = ((s.post k).deposit s.capacity Receipt.dedupKey r).1
      ∧ Visit.posted k (s, op) = some r
      ∧ Visit.postEvicted k (s, op) = (s.post k).overflow s.capacity)
    ∨ (op = .collectReceipts k ∧ (s.call op).1.post k = Slot.empty)
    ∨ (op ≠ .collectReceipts k ∧ (s.call op).1.post k = s.post k
      ∧ Visit.posted k (s, op) = none ∧ Visit.postEvicted k (s, op) = 0) := by
  cases op with
  | putReceipt k' r =>
      simp only [MailboxStore.call_putReceipt, Visit.posted, Visit.postEvicted]
      by_cases h : k' = k ∧ (s.putReceipt k' r).2 = .ok .stored
      · obtain ⟨rfl, hs⟩ := h
        have hf := MailboxStore.putReceipt_stored.mp hs
        rw [if_pos ⟨rfl, hs⟩, if_pos ⟨rfl, hs⟩]
        refine Or.inl ⟨r, ⟨rfl, hf⟩, ?_, rfl, rfl⟩
        rw [MailboxStore.post_putReceipt hf, if_pos rfl]
      · rw [if_neg h, if_neg h]
        refine Or.inr (Or.inr ⟨fun hc => (by cases hc), ?_, rfl, rfl⟩)
        by_cases hf : s.FreshReceipt k' r
        · rw [MailboxStore.post_putReceipt hf,
            if_neg fun hk => h ⟨hk.symm, MailboxStore.putReceipt_stored.mpr hf⟩]
        · rw [(MailboxStore.putReceipt_of_not_fresh hf).1]
  | collectReceipts k' =>
      simp only [MailboxStore.call_collectReceipts, MailboxStore.post_collectReceipts]
      by_cases h : k' = k
      · subst h
        rw [if_pos rfl]
        exact Or.inr (Or.inl ⟨rfl, rfl⟩)
      · rw [if_neg (Ne.symm h)]
        exact Or.inr (Or.inr ⟨fun hc => h (Op.collectReceipts.inj hc), rfl, rfl, rfl⟩)
  | accept e now =>
      rw [MailboxStore.call_accept]
      exact Or.inr (Or.inr ⟨fun hc => (by cases hc), (MailboxStore.accept_frame e now).1 k, rfl,
        rfl⟩)
  | ack k' c =>
      rw [MailboxStore.call_ack]
      exact Or.inr (Or.inr ⟨fun hc => (by cases hc), (MailboxStore.ack_frame k' c).1 k, rfl, rfl⟩)
  | readFrom _ _ | readPage _ _ _ =>
      exact Or.inr (Or.inr ⟨fun hc => (by cases hc), rfl, rfl, rfl⟩)

/--
What holds of the receipts under `k` after a history: the slot is sound with nothing
freed, every receipt in it verifies, and each was put there by a call since which
nobody collected.
-/
structure Posted (k : String) (vs : List Visit) (s : MailboxStore) : Prop where
  capacity_pos : 0 < s.capacity
  sound : (s.post k).Sound s.capacity Receipt.dedupKey ∅
  verified : ∀ r ∈ (s.post k).queue, r.verify = .ok ()
  origin : ∀ r ∈ (s.post k).queue, ∃ before v rest, vs = before ++ v :: rest ∧ v.Posts k r
    ∧ ∀ w ∈ rest, w.2 ≠ .collectReceipts k

theorem posted_init (selfId : NodeId) (capacity : UInt64) (k : String) :
    Posted k [] (.new selfId capacity) where
  capacity_pos := (kept_init selfId capacity k).capacity_pos
  sound := Slot.Sound.init _ _
  verified _ hr := by cases hr
  origin _ hr := by cases hr

/-- **Preserved by every call.** -/
theorem posted_step {k : String} {vs : List Visit} {s : MailboxStore} (h : Posted k vs s)
    (op : Op) : Posted k (vs ++ [(s, op)]) (s.call op).1 := by
  obtain ⟨hcap, hsound, hver, horigin⟩ := h
  have hsame : (s.call op).1.capacity = s.capacity :=
    congrArg UInt64.toNat (settings_call s op).1
  -- a receipt that stays keeps its origin, because this call collects nothing
  have hstay : op ≠ .collectReceipts k → ∀ r ∈ (s.post k).queue, ∃ before v rest,
      vs ++ [(s, op)] = before ++ v :: rest ∧ v.Posts k r
        ∧ ∀ w ∈ rest, w.2 ≠ .collectReceipts k := by
    intro hop r hr
    obtain ⟨before, v, rest, rfl, hv, hrest⟩ := horigin r hr
    refine ⟨before, v, rest ++ [(s, op)], by simp, hv, fun w hw => ?_⟩
    rcases List.mem_append.mp hw with hw | hw
    · exact hrest w hw
    · obtain rfl := List.mem_singleton.mp hw
      exact hop
  rcases post_call s op k with ⟨r, hp, hpost, -⟩ | ⟨-, hpost⟩ | ⟨hop, hpost, -⟩
  · obtain ⟨hv, hk, hnot⟩ := hp.2
    have hop : op ≠ .collectReceipts k := hp.ne_collect
    have hmem : ∀ r' ∈ ((s.call op).1.post k).queue, r' ∈ (s.post k).queue ∨ r' = r := by
      intro r' hr'
      rw [hpost, Slot.queue_deposit hcap hnot] at hr'
      rcases List.mem_append.mp hr' with hr' | hr'
      · exact Or.inl (List.mem_of_mem_drop hr')
      · exact Or.inr (List.mem_singleton.mp hr')
    refine ⟨by rw [hsame]; exact hcap, ?_, ?_, ?_⟩
    · rw [hsame, hpost]
      exact hsound.deposit hcap r
    · intro r' hr'
      rcases hmem r' hr' with hr' | rfl
      · exact hver r' hr'
      · exact hv
    · intro r' hr'
      rcases hmem r' hr' with hr' | rfl
      · exact hstay hop r' hr'
      · exact ⟨vs, (s, op), [], rfl, hp, fun w hw => by cases hw⟩
  -- a collection leaves nothing, and remembers nothing
  · refine ⟨by rw [hsame]; exact hcap, ?_, ?_, ?_⟩
    · rw [hpost]
      exact Slot.Sound.init _ _
    · rw [hpost]
      exact fun r hr => by cases hr
    · rw [hpost]
      exact fun r hr => by cases hr
  · refine ⟨by rw [hsame]; exact hcap, ?_, ?_, ?_⟩
    · rw [hsame, hpost]
      exact hsound
    · rw [hpost]
      exact hver
    · rw [hpost]
      exact hstay hop

/-- **Holds of every run.** -/
theorem posted_after (selfId : NodeId) (capacity : UInt64) (ops : List Op) (k : String) :
    Posted k (history selfId capacity ops) (after selfId capacity ops) := by
  refine Machine.run_induction
    (P := fun ops s => Posted k (history selfId capacity ops) s)
    (posted_init selfId capacity k) ?_ ops
  intro ops op h
  rw [history_concat]
  exact posted_step h op

/-- **A receipt stays until it is collected or evicted**, over any further calls. -/
theorem mem_post_final {s : MailboxStore} {k : String} {r : Receipt} (hcap : 0 < s.capacity)
    (hr : r ∈ (s.post k).queue) (ops : List Op) (hc : .collectReceipts k ∉ ops)
    (he : ∀ v ∈ Machine.visits MailboxStore.call s ops, Visit.postEvicted k v = 0) :
    r ∈ ((Machine.final MailboxStore.call s ops).post k).queue := by
  induction ops generalizing s with
  | nil => exact hr
  | cons op ops ih =>
      have hcap' : 0 < (s.call op).1.capacity := by
        rw [MailboxStore.capacity, (settings_call s op).1]
        exact hcap
      obtain ⟨hop, hc⟩ := not_or.mp (fun h => hc (List.mem_cons.mpr h))
      obtain ⟨hev, he⟩ := List.forall_mem_cons.mp he
      refine ih hcap' ?_ hc he
      rcases post_call s op k with ⟨r', hp, hpost, -, hover⟩ | ⟨hcol, -⟩ | ⟨-, hpost, -⟩
      · rw [hpost, Slot.queue_deposit hcap hp.2.2.2, ← hover, hev]
        exact List.mem_append_left _ hr
      · exact absurd hcol.symm hop
      · rw [hpost]
        exact hr

end Crypto

/-! ## A sample -/

namespace Sample

/-- The `n` bytes of a number, most significant first. -/
def bytes (n value : Nat) : Bytes n := ⟨(Bincode.leBytes n value).reverse, by simp⟩

def sender : NodeId := bytes 32 0x8a88e3dd7409f195fd52db2d3cba5d72ca6709bf1d94121bf3748801b40f6f5c

def recipient : NodeId :=
  bytes 32 0x8139770ea87d175f56a35466c34c7ecccb8d8a91b4ee37a25df60f5b8fc9b394

def mailbox : NodeId := bytes 32 0xed4928c628d1c2c6eae90338905995612959273a5c63f93636c14614ac8737d1

/-- A bodiless ping of `sender`, with a signature. -/
def ping (recipientHex subject : String) (signature : Nat) : Envelope where
  body := {
    «from» := sender.hex
    «to» := recipientHex
    subject := subject
    bodyCid := ""
    attachmentCids := []
    inReplyTo := ""
    sentAt := 1
    postageReceipt := "" }
  sig := bytes 64 signature

def first : Envelope := ping recipient.hex "a" <|
  0xae062776b8925e5e19eca30eba6b6237663ceb8baac9a5dd3a5c1331c26473be * 2 ^ 256 +
  0x5d65991c206414377f2ba16c1131e50cbba29d1d34a8d06d92ebca6306028508

def second : Envelope := ping recipient.hex "b" <|
  0x40097b862c18ed800dd97e005ccb734ab968eafb84a02ad8b2299d813974bbfa * 2 ^ 256 +
  0x5c79628b1f00486ef3983a1d149b40d86569b9c7da779572c2bcc2c4ae48540c

/-- Addressed to the recipient in capitals. -/
def shouted : Envelope := ping (.ofList (recipient.hex.toList.map Char.toUpper)) "a" <|
  0x4c2532393db2298507e33fa1fcc53cf1921907ace7ac7a926c7d3d78d394e46e * 2 ^ 256 +
  0x5f01d1b8a8840818a9a78bc1d41e7a5ab60df6ffab9003e9ab4fc1ca80781806

/-- Ed25519 and SHA-256 on the bytes of the three envelopes above. -/
@[reducible] def crypto : Crypto where
  verify id bs sig :=
    id = sender && [first, second, shouted].any fun e =>
      e.sig = sig && envelopeSigningBytes e.body = bs
  sha256 bs :=
    if bs = envelopeSigningBytes first.body then
      bytes 32 0x60ff8f80b897d5f0adc49214573ad0c98f926b2593e79389cf67f6cd74a95c1d
    else if bs = envelopeSigningBytes second.body then
      bytes 32 0x4d5c066dae5d412792283a46ccc6b192c1a578977f583dd0d920aae78bf404eb
    else if bs = envelopeSigningBytes shouted.body then
      bytes 32 0x92ee009c0277194ff1c840159edc298d2983256efc372d9f1be22001c9c77865
    else bytes 32 0

/-- Ed25519 and SHA-256 on the bytes of some envelopes, each given with its hash. -/
@[reducible] def cryptoOn (sent : List (Envelope × Nat)) : Crypto where
  verify id bs sig :=
    id = sender && sent.any fun e => e.1.sig = sig && envelopeSigningBytes e.1.body = bs
  sha256 bs :=
    bytes 32 (((sent.find? fun e => envelopeSigningBytes e.1.body = bs).map Prod.snd).getD 0)

/-- The recipient's acknowledgement of `first`, its id in a spelling, with a signature. -/
def acknowledgement (spelling : String) (signature : Nat) : Receipt where
  body := {
    messageId := "60ff8f80b897d5f0adc49214573ad0c98f926b2593e79389cf67f6cd74a95c1d"
    «by» := spelling
    kind := .delivered
    «at» := 1 }
  sig := bytes 64 signature

def delivered : Receipt := acknowledgement recipient.hex <|
  0xd96043df7e67647ef5d5aad10c5a17d15a4929ea6ee69d650b24f599bc2ec546 * 2 ^ 256 +
  0x9e4d5926699d8f85c8b1f127bef9c7f17c5e29f7d708f5a53bca55f75dfc2309

/-- The same acknowledgement, with the recipient's id in capitals. -/
def deliveredShouted : Receipt :=
  acknowledgement (.ofList (recipient.hex.toList.map Char.toUpper)) <|
    0x8ea0c2ede5548a4b4607521490d238e69352714db357a5366e5b13e71ab99b87 * 2 ^ 256 +
    0xd170b5c1070d1c43ab53e9707c7356ae660b16e3bcdada57859c3f9951afaf0d

/-- Ed25519 on the bytes of the two receipts above; nothing is hashed. -/
@[reducible] def receiptCrypto : Crypto where
  verify id bs sig :=
    id = recipient && [delivered, deliveredShouted].any fun r =>
      r.sig = sig && receiptSigningBytes r.body = bs
  sha256 _ := bytes 32 0

end Sample

end CeMail
