import CeMail.Model.StoreFile
import CeMail.Proof.Alike

/-!
# Restart

A store that is written out and loaded again remembers the ids in its queues and no
others. Two stores with the same slots cannot be told apart by any calls, so a restart
shows exactly when the live index held more than the queues did: when something was acked.
-/

namespace CeMail

section Crypto

variable [Crypto]

/-! ## Stores that cannot be told apart -/

/-- Same settings, and the same mail and receipts under every key. -/
structure Alike (s t : MailboxStore) : Prop where
  capacity : s.capacityPerRecipient = t.capacityPerRecipient
  mail : ∀ k, s.mail k = t.mail k
  post : ∀ k, s.post k = t.post k

namespace Alike

variable {s t : MailboxStore}

omit [Crypto] in
theorem on (h : Alike s t) : AlikeOn (fun _ => True) s t :=
  ⟨h.capacity, fun k _ => h.mail k, fun k _ => h.post k⟩

/-- **No calls tell alike stores apart.** -/
theorem outputs (h : Alike s t) (ops : List Op) :
    Machine.outputs MailboxStore.call s ops = Machine.outputs MailboxStore.call t ops :=
  Machine.outputs_eq_of_bisim (fun _ _ _ h => h.call trivial) h.on ops

end Alike

/-! ## What a restart shows -/

/-- A store comes back from the disk, and no calls tell it from the one that was written. -/
def RestartInvisible (s : MailboxStore) : Prop :=
  ∃ s', s.restart = .ok s' ∧
    ∀ ops, Machine.outputs MailboxStore.call s ops = Machine.outputs MailboxStore.call s' ops

/-- Every `ack` of a run had cursor 0 or met an empty queue. -/
def AcksNothing (selfId : NodeId) (capacity : UInt64) (ops : List Op) : Prop :=
  ∀ before op rest, ops = before ++ op :: rest →
    ∀ k c, op = .ack k c → c = 0 ∨ (after selfId capacity before).queue k = []

/-- An `ack` that frees something records its id. -/
theorem ackedIds_eq_empty_iff (s : MailboxStore) (op : Op) :
    (∀ k, Visit.ackedIds k (s, op) = ∅) ↔ ∀ k c, op = .ack k c → c = 0 ∨ s.queue k = [] := by
  cases op with
  | ack k' c' =>
      have hself : Visit.ackedIds k' (s, .ack k' c') = ∅ ↔ c' = 0 ∨ s.queue k' = [] := by
        rw [Visit.ackedIds, if_pos rfl, List.toFinset_eq_empty_iff, List.map_eq_nil_iff,
          List.take_eq_nil_iff]
        exact or_congr_left (UInt64.toNat_inj (b := 0))
      refine ⟨?_, ?_⟩
      · intro h k c hop
        obtain ⟨rfl, rfl⟩ := Op.ack.inj hop
        exact hself.mp (h _)
      · intro h k
        by_cases hk : k' = k
        · subst hk
          exact hself.mpr (h _ _ rfl)
        · exact if_neg hk
  | accept _ _ | putReceipt _ _ | collectReceipts _ | readFrom _ _ | readPage _ _ _ =>
      exact iff_of_true (fun _ => rfl) fun _ _ hop => by cases hop

/-- A run whose acks free nothing has acked no id, and conversely. -/
theorem acksNothing_iff (selfId : NodeId) (capacity : UInt64) (ops : List Op) :
    AcksNothing selfId capacity ops ↔ ∀ k, ackedIdsIn k (history selfId capacity ops) = ∅ := by
  induction ops using List.reverseRecOn with
  | nil => exact iff_of_true (fun _ _ _ hcut => by simp at hcut) fun _ => rfl
  | append_singleton ops op ih =>
      rw [AcksNothing, Machine.forall_cut_concat, ← AcksNothing, ih, ← ackedIds_eq_empty_iff]
      simp only [history_concat, ackedIdsIn_concat, Finset.union_eq_empty, forall_and]

/-- An acked id is the id of an envelope that would be accepted under the key again. -/
theorem exists_of_mem_ackedIds {selfId : NodeId} {capacity : UInt64} {ops : List Op}
    {k id : String} (h : id ∈ ackedIdsIn k (history selfId capacity ops)) :
    ∃ e : Envelope, e.verify = .ok () ∧ e.body.to = k ∧ e.body.to ≠ "" ∧ e.messageId = id := by
  induction ops using List.reverseRecOn with
  | nil => cases h
  | append_singleton ops op ih =>
      rw [history_concat, ackedIdsIn_concat] at h
      rcases Finset.mem_union.mp h with h | h
      · exact ih h
      · have hkept := kept_after selfId capacity ops k
        rcases mail_call (after selfId capacity ops) op k with ⟨e, now, -, -, -, -, hi, -⟩
          | ⟨c, -, -, -, -, hi, -⟩ | ⟨-, -, -, hi, -⟩
        · rw [hi] at h
          cases h
        · rw [hi, List.mem_toFinset] at h
          obtain ⟨x, hx, rfl⟩ := List.mem_map.mp h
          obtain ⟨hv, hto, hne⟩ := hkept.addressed x (List.mem_of_mem_take hx)
          exact ⟨x.envelope, hv, hto, hne, rfl⟩
        · rw [hi] at h
          cases h

/-- A file keeps a capacity that is one. -/
theorem capacity_reloaded {s : MailboxStore} (h : 0 < s.capacity) :
    s.reloaded.capacityPerRecipient = s.capacityPerRecipient := by
  refine UInt64.toNat_inj.mp ((UInt64.toNat_max _ 1).trans ?_)
  exact Nat.max_eq_left h

/-- The receipts that come back from a file, with their index, are those written. -/
theorem Posted.post_reloaded {k : String} {vs : List Visit} {s : MailboxStore}
    (h : Posted k vs s) : s.reloaded.post k = s.post k := by
  have hseen := h.sound.seen
  rw [Finset.union_empty] at hseen
  rw [MailboxStore.post_reloaded]
  exact congrArg (Slot.mk _) hseen.symm

/-- With nothing acked, the store that comes back is like the one that was written. -/
theorem alike_reloaded {selfId : NodeId} {capacity : UInt64} {ops : List Op}
    (h : ∀ k, ackedIdsIn k (history selfId capacity ops) = ∅) :
    Alike (after selfId capacity ops) (after selfId capacity ops).reloaded where
  capacity := (capacity_reloaded (kept_after selfId capacity ops "").capacity_pos).symm
  mail k := by
    have hseen := (kept_after selfId capacity ops k).sound.seen
    rw [h k, Finset.union_empty] at hseen
    rw [MailboxStore.mail_reloaded]
    exact congrArg (Slot.mk _) hseen
  post k := (posted_after selfId capacity ops k).post_reloaded.symm

/-- An acked envelope is refused before a restart and stored after it. -/
theorem visible_of_acked {selfId : NodeId} {capacity : UInt64} {ops : List Op} {k id : String}
    (h : id ∈ ackedIdsIn k (history selfId capacity ops)) :
    ∃ e, ((after selfId capacity ops).accept e 0).2 = .ok .duplicate
      ∧ ((after selfId capacity ops).reloaded.accept e 0).2 = .ok .stored := by
  obtain ⟨e, hv, rfl, hne, rfl⟩ := exists_of_mem_ackedIds h
  have hsound := (kept_after selfId capacity ops e.body.to).sound
  refine ⟨e, ?_, MailboxStore.accept_stored.mpr ⟨hv, hne, ?_⟩⟩
  · exact (MailboxStore.accept_eq_duplicate hv hne 0).mpr (hsound.mem_seen.mpr (Or.inr h))
  · rw [MailboxStore.mail_reloaded, List.mem_toFinset]
    exact fun hq => hsound.notMem_freed hq h

/--
**A restart is invisible exactly when nothing was acked before it.** The index of what
was acked is not written, so after the restart acked mail that is delivered again is
stored again.
-/
theorem restartInvisible_iff (selfId : NodeId) (capacity : UInt64) (ops : List Op)
    (hfits : Bincode.Fits (after selfId capacity ops).file) :
    RestartInvisible (after selfId capacity ops) ↔ AcksNothing selfId capacity ops := by
  rw [acksNothing_iff]
  refine ⟨?_, ?_⟩
  · intro h k
    rcases h with ⟨s', hs', hsame⟩
    obtain rfl := Except.ok.inj ((MailboxStore.restart_eq hfits).symm.trans hs')
    -- were an id acked, delivering its envelope once more would tell the stores apart
    by_contra hne
    obtain ⟨id, hid⟩ := Finset.nonempty_iff_ne_empty.mpr hne
    obtain ⟨e, hdup, hstored⟩ := visible_of_acked hid
    have hanswer := Answer.accepted.inj (List.head_eq_of_cons_eq (hsame [.accept e 0]))
    rw [hdup, hstored] at hanswer
    cases hanswer
  · intro h
    exact ⟨_, MailboxStore.restart_eq hfits, (alike_reloaded h).outputs⟩

end Crypto

/-- The theorem at a run that acks: the file it leaves holds one key with an empty queue. -/
theorem restartInvisible_iff_sample :
    @RestartInvisible Sample.crypto (@after Sample.crypto Sample.mailbox 1
        [.accept Sample.first 1, .ack Sample.recipient.hex 1])
      ↔ @AcksNothing Sample.crypto Sample.mailbox 1
        [.accept Sample.first 1, .ack Sample.recipient.hex 1] := by
  refine @restartInvisible_iff Sample.crypto Sample.mailbox 1
    [.accept Sample.first 1, .ack Sample.recipient.hex 1] ?_
  have hqueues : (@after Sample.crypto Sample.mailbox 1
      [.accept Sample.first 1, .ack Sample.recipient.hex 1]).queues.pairs
        = [(Sample.recipient.hex, [])] := by
    decide +kernel
  have hreceipts : (@after Sample.crypto Sample.mailbox 1
      [.accept Sample.first 1, .ack Sample.recipient.hex 1]).receipts.pairs = [] := by
    decide +kernel
  have hkey : Bincode.Fits Sample.recipient.hex := Bincode.fits_string (by decide +kernel)
  refine MailboxStore.fits_file ?_ ?_
  · rw [hqueues]
    refine ⟨by decide, ?_⟩
    intro entry hentry
    obtain rfl := List.mem_singleton.mp hentry
    exact ⟨hkey, by decide, fun _ h => by cases h⟩
  · rw [hreceipts]
    exact ⟨by decide, fun _ h => by cases h⟩

/-- An envelope delivered, acked, and delivered again after a restart. -/
theorem restart_forgets_acked :
    ¬@RestartInvisible Sample.crypto (@after Sample.crypto Sample.mailbox 1
      [.accept Sample.first 1, .ack Sample.recipient.hex 1]) := by
  intro h
  rcases h with ⟨s', hs', hsame⟩
  have hanswers := congrArg
    (Except.map fun t => @Machine.outputs _ _ _ (@MailboxStore.call Sample.crypto) t
      [.accept Sample.first 2]) hs'
  rw [Except.map, ← hsame] at hanswers
  revert hanswers
  decide +kernel

end CeMail
