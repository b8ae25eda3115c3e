import CeMail.Proof.Independence
import CeMail.Proof.Restart

/-!
# The receipt box

Of receipts a store remembers exactly the keys of those it holds: a deposit adds one of
each, an eviction and a collection take both away, and a restart makes the index anew from
the receipts. So unlike the index of envelopes this one has nothing to lose in a restart.

The key is made of the text of a receipt, and the acknowledging party chooses how it
spells its own id. Two spellings are two keys, and one node may hold two places in the box
with one acknowledgement.
-/

namespace CeMail

/-- What happens to a store: a call, or its node writes it out and loads it again. -/
inductive StoreEvent where
  | call (op : Op)
  | reload

section Crypto

variable [Crypto]

/-- One event. A file that does not load leaves the store it was written from. -/
def MailboxStore.live (s : MailboxStore) : StoreEvent → MailboxStore × Option Answer
  | .call op => ((s.call op).1, some (s.call op).2)
  | .reload => match s.restart with
    | .ok s' => (s', none)
    | .error _ => (s, none)

/-- The store a sequence of events leaves behind, from an empty one. -/
def lived (selfId : NodeId) (capacity : UInt64) (events : List StoreEvent) : MailboxStore :=
  Machine.final MailboxStore.live (.new selfId capacity) events

/-- The call of an event, with the store it met. -/
def StoreEvent.visit : MailboxStore × StoreEvent → Option Visit
  | (s, .call op) => some (s, op)
  | (_, .reload) => none

/-- The calls among some events, each with the store it met. -/
def callsIn (selfId : NodeId) (capacity : UInt64) (events : List StoreEvent) : List Visit :=
  (Machine.visits MailboxStore.live (.new selfId capacity) events).filterMap StoreEvent.visit

/-- Whenever the store is written out, every length in it is a `u64`, as lengths are. -/
def LifeFits (selfId : NodeId) (capacity : UInt64) (events : List StoreEvent) : Prop :=
  ∀ before event rest, events = before ++ event :: rest → event = .reload →
    Bincode.Fits (lived selfId capacity before).file

@[simp] theorem lived_concat (selfId : NodeId) (capacity : UInt64) (events : List StoreEvent)
    (event : StoreEvent) :
    lived selfId capacity (events ++ [event])
      = ((lived selfId capacity events).live event).1 := Machine.final_concat events event

theorem callsIn_concat_call (selfId : NodeId) (capacity : UInt64) (events : List StoreEvent)
    (op : Op) :
    callsIn selfId capacity (events ++ [.call op])
      = callsIn selfId capacity events ++ [(lived selfId capacity events, op)] := by
  rw [callsIn, Machine.visits_concat, List.filterMap_append]
  rfl

theorem callsIn_concat_reload (selfId : NodeId) (capacity : UInt64) (events : List StoreEvent) :
    callsIn selfId capacity (events ++ [.reload]) = callsIn selfId capacity events := by
  rw [callsIn, Machine.visits_concat, List.filterMap_append]
  exact List.append_nil _

/-! ## Since the last collection -/

/-- The receipts stored for `k`, oldest first. -/
def postedIn (k : String) (vs : List Visit) : List Receipt := vs.filterMap (Visit.posted k)

/-- How many receipts were evicted from `k`. -/
def postEvictedIn (k : String) (vs : List Visit) : Nat := (vs.map (Visit.postEvicted k)).sum

/-- The calls since the last collection from `k`. -/
def sinceCollect (k : String) (vs : List Visit) : List Visit :=
  vs.rtakeWhile fun v => v.2 ≠ .collectReceipts k

omit [Crypto] in
theorem sinceCollect_concat {k : String} {vs : List Visit} {v : Visit}
    (h : v.2 ≠ .collectReceipts k) : sinceCollect k (vs ++ [v]) = sinceCollect k vs ++ [v] :=
  List.rtakeWhile_concat_pos _ _ _ (by simpa using h)

omit [Crypto] in
theorem sinceCollect_concat_collect {k : String} {vs : List Visit} {v : Visit}
    (h : v.2 = .collectReceipts k) : sinceCollect k (vs ++ [v]) = [] :=
  List.rtakeWhile_concat_neg _ _ _ (by simpa using h)

theorem postedIn_concat (k : String) (vs : List Visit) (v : Visit) :
    postedIn k (vs ++ [v]) = postedIn k vs ++ (v.posted k).toList := by
  cases h : v.posted k <;> simp [postedIn, h]

theorem postEvictedIn_concat (k : String) (vs : List Visit) (v : Visit) :
    postEvictedIn k (vs ++ [v]) = postEvictedIn k vs + v.postEvicted k := by
  simp [postEvictedIn]

/-! ## The invariant -/

/--
What holds of the receipts under `k` after some calls: the box is sound with nothing freed,
and it shows the log of what was stored since the last collection, with the evicted
dropped from the front.
-/
structure Boxed (k : String) (vs : List Visit) (s : MailboxStore) : Prop
    extends Posted k vs s where
  shows : ∃ w : Window Receipt, w.log = postedIn k (sinceCollect k vs)
    ∧ w.base = postEvictedIn k (sinceCollect k vs) ∧ (s.post k).Shows w

theorem boxed_init (selfId : NodeId) (capacity : UInt64) (k : String) :
    Boxed k [] (.new selfId capacity) where
  toPosted := posted_init selfId capacity k
  shows := ⟨Window.empty, rfl, rfl, rfl⟩

/-- **Preserved by every call.** -/
theorem boxed_call {k : String} {vs : List Visit} {s : MailboxStore} (h : Boxed k vs s)
    (op : Op) : Boxed k (vs ++ [(s, op)]) (s.call op).1 where
  toPosted := posted_step h.toPosted op
  shows := by
    obtain ⟨w, hlog, hbase, hshows⟩ := h.shows
    rcases post_call s op k with ⟨r, hp, hpost, hr, hev⟩ | ⟨hop, hpost⟩ | ⟨hop, hpost, hr, hev⟩
    · have hop : op ≠ .collectReceipts k := hp.ne_collect
      have hlen : (s.post k).overflow s.capacity ≤ w.contents.length := by
        rw [← hshows]
        exact Slot.overflow_le_length h.capacity_pos
      rw [sinceCollect_concat hop, postedIn_concat, postEvictedIn_concat, hr, hev, ← hlog, ← hbase]
      refine ⟨(w.push r).advance ((s.post k).overflow s.capacity), rfl, ?_, ?_⟩
      · rw [Window.base_advance, Window.contents_push, List.length_append,
          Nat.min_eq_left (Nat.le_add_right_of_le hlen), Window.base_push]
      · rw [hpost]
        exact hshows.deposit h.capacity_pos hp.2.2.2
    -- a collection starts the log anew
    · rw [sinceCollect_concat_collect hop, hpost]
      exact ⟨Window.empty, rfl, rfl, rfl⟩
    · rw [sinceCollect_concat hop, postedIn_concat, postEvictedIn_concat, hr, hev, hpost]
      exact ⟨w, hlog.trans (List.append_nil _).symm, hbase, hshows⟩

/-- **Preserved by a restart.** -/
theorem boxed_reloaded {k : String} {vs : List Visit} {s : MailboxStore} (h : Boxed k vs s) :
    Boxed k vs s.reloaded := by
  have hpost := h.toPosted.post_reloaded
  have hcap : s.reloaded.capacity = s.capacity :=
    congrArg UInt64.toNat (capacity_reloaded h.capacity_pos)
  refine ⟨⟨by rw [hcap]; exact h.capacity_pos, ?_, ?_, ?_⟩, ?_⟩
  · rw [hcap, hpost]
    exact h.sound
  · rw [hpost]
    exact h.verified
  · rw [hpost]
    exact h.origin
  · rw [hpost]
    exact h.shows

theorem live_reload {s : MailboxStore} (h : Bincode.Fits s.file) :
    (s.live .reload).1 = s.reloaded := by
  rw [MailboxStore.live, MailboxStore.restart_eq h]

/-- **Holds after any events.** -/
theorem boxed_lived {selfId : NodeId} {capacity : UInt64} {events : List StoreEvent}
    (hfits : LifeFits selfId capacity events) (k : String) :
    Boxed k (callsIn selfId capacity events) (lived selfId capacity events)
      ∧ (lived selfId capacity events).capacity = max capacity.toNat 1 := by
  induction events using List.reverseRecOn with
  | nil => exact ⟨boxed_init selfId capacity k, UInt64.toNat_max capacity 1⟩
  | append_singleton events event ih =>
      obtain ⟨hstart, hlast⟩ := Machine.forall_cut_concat.mp hfits
      obtain ⟨hboxed, hcap⟩ := ih hstart
      rw [lived_concat]
      cases event with
      | call op =>
          rw [callsIn_concat_call]
          exact ⟨boxed_call hboxed op,
            (congrArg UInt64.toNat (settings_call _ op).1).trans hcap⟩
      | reload =>
          rw [callsIn_concat_reload, live_reload (hlast rfl)]
          refine ⟨boxed_reloaded hboxed, ?_⟩
          exact (congrArg UInt64.toNat (capacity_reloaded hboxed.capacity_pos)).trans hcap

/-! ## What the answers say -/

/-- Same capacity and the same receipts under every key; the mail may differ. -/
structure SamePosts (s t : MailboxStore) : Prop where
  capacity : s.capacityPerRecipient = t.capacityPerRecipient
  post : ∀ k, s.post k = t.post k

namespace SamePosts

variable {s t : MailboxStore}

/-- **Calls about receipts are answered from the receipts**, which stay the same. -/
theorem call (h : SamePosts s t) {op : Op} (hop : op.onReceipts = true) :
    (s.call op).2 = (t.call op).2 ∧ SamePosts (s.call op).1 (t.call op).1 := by
  have hcap : (s.call op).1.capacityPerRecipient = (t.call op).1.capacityPerRecipient := by
    rw [(settings_call s op).1, (settings_call t op).1, h.capacity]
  cases op with
  | putReceipt k r =>
      refine ⟨?_, hcap, ?_⟩
      · rw [MailboxStore.call, MailboxStore.call, MailboxStore.putReceipt_snd,
          MailboxStore.putReceipt_snd, h.post]
      · intro k'
        have hfresh : s.FreshReceipt k r ↔ t.FreshReceipt k r := by
          rw [MailboxStore.FreshReceipt, MailboxStore.FreshReceipt, h.post]
        rw [MailboxStore.call_putReceipt, MailboxStore.call_putReceipt]
        by_cases hs : s.FreshReceipt k r
        · rw [MailboxStore.post_putReceipt hs, MailboxStore.post_putReceipt (hfresh.mp hs),
            h.post, MailboxStore.capacity, MailboxStore.capacity, h.capacity]
        · rw [(MailboxStore.putReceipt_of_not_fresh hs).1,
            (MailboxStore.putReceipt_of_not_fresh fun ht => hs (hfresh.mpr ht)).1]
          exact h.post k'
  | collectReceipts k =>
      refine ⟨?_, hcap, ?_⟩
      · rw [MailboxStore.call, MailboxStore.call, MailboxStore.collectReceipts_snd,
          MailboxStore.collectReceipts_snd, h.post]
      · intro k'
        rw [MailboxStore.call_collectReceipts, MailboxStore.call_collectReceipts,
          MailboxStore.post_collectReceipts, MailboxStore.post_collectReceipts, h.post]
  | accept e now => cases hop
  | ack k c => cases hop
  | readFrom k since => cases hop
  | readPage k since limit => cases hop

/-- A call about mail makes no difference. -/
theorem call_mail (h : SamePosts s t) {op : Op} (hop : op.onReceipts = false) :
    SamePosts (s.call op).1 t := by
  obtain ⟨hreceipts, hseen⟩ := receipts_call_of_mail s hop
  refine ⟨(settings_call s op).1.trans h.capacity, ?_⟩
  intro k
  rw [← h.post k, MailboxStore.post, MailboxStore.post, hreceipts, hseen]

end SamePosts

/-- What the calls about receipts were answered in the course of a sequence. -/
def receiptAnswers (s : MailboxStore) (ops : List Op) : List Answer :=
  ((ops.zip (Machine.outputs MailboxStore.call s ops)).filter fun p => p.1.onReceipts).map Prod.snd

theorem receiptAnswers_eq {s t : MailboxStore} (h : SamePosts s t) (ops : List Op) :
    receiptAnswers s ops = receiptAnswers t ops := by
  have halone : ∀ {s t : MailboxStore}, SamePosts s t →
      receiptAnswers s ops = Machine.outputs MailboxStore.call t (ops.filter Op.onReceipts) := by
    intro s t h
    refine (Machine.project (R := SamePosts) ?_ ?_ h ops).2
    · exact fun s t op hop h => h.call hop
    · exact fun s t op hop h => h.call_mail hop
  rw [halone h, halone ⟨rfl, fun _ => rfl⟩]

/-- Receipts wait only for someone. -/
theorem Posted.key_ne_empty {k : String} {vs : List Visit} {s : MailboxStore} (h : Posted k vs s)
    {r : Receipt} (hr : r ∈ (s.post k).queue) : k ≠ "" := by
  obtain ⟨_, _, _, -, hposts, -⟩ := h.origin r hr
  exact hposts.2.2.1

theorem Posted.mem_seen {k : String} {vs : List Visit} {s : MailboxStore} (h : Posted k vs s)
    {key : String} : key ∈ (s.post k).seen ↔ ∃ p ∈ (s.post k).queue, p.dedupKey = key := by
  rw [h.sound.mem_seen, List.mem_map]
  refine or_iff_left ?_
  exact Finset.notMem_empty _

/-- **A verified receipt is a duplicate exactly when one with its key is pending.** -/
theorem Posted.putReceipt_duplicate_iff {k : String} {vs : List Visit} {s : MailboxStore}
    (h : Posted k vs s) (r : Receipt) :
    (s.putReceipt k r).2 = .ok .duplicate
      ↔ r.verify = .ok () ∧ ∃ p ∈ (s.post k).queue, p.dedupKey = r.dedupKey := by
  rw [MailboxStore.putReceipt_snd, ← h.mem_seen]
  cases hv : r.verify with
  | error err =>
      refine iff_of_false ?_ ?_
      · intro hdup
        cases hdup
      · intro hok
        cases hok.1
  | ok =>
      simp only [true_and]
      split
      · rename_i hk
        refine iff_of_false ?_ ?_
        · intro hdup
          cases hdup
        · intro hmem
          obtain ⟨p, hp, -⟩ := h.mem_seen.mp hmem
          exact h.key_ne_empty hp hk
      · split
        · rename_i hmem
          exact iff_of_true rfl hmem
        · rename_i hmem
          refine iff_of_false ?_ hmem
          intro hdup
          cases hdup

/--
**The receipt box.** After any calls and restarts, the receipts waiting under a key all
verify, have distinct keys and are within capacity, and the index holds their keys and no
others. A receipt is answered `Duplicate` exactly when it verifies and one with its key is
pending; a collection returns what was stored since the last one, in order, without the
evicted from its front; and a restart changes no later answer about receipts.
-/
theorem receipt_box (selfId : NodeId) (capacity : UInt64) (events : List StoreEvent)
    (hfits : LifeFits selfId capacity events) (k : String) :
    let s := lived selfId capacity events
    let since := sinceCollect k (callsIn selfId capacity events)
    (∀ r ∈ (s.post k).queue, r.verify = .ok ())
      ∧ ((s.post k).queue.map Receipt.dedupKey).Nodup
      ∧ (s.post k).queue.length ≤ max capacity.toNat 1
      ∧ (s.post k).seen = ((s.post k).queue.map Receipt.dedupKey).toFinset
      ∧ (∀ r, (s.putReceipt k r).2 = .ok .duplicate
        ↔ r.verify = .ok () ∧ ∃ p ∈ (s.post k).queue, p.dedupKey = r.dedupKey)
      ∧ (s.collectReceipts k).2 = (postedIn k since).drop (postEvictedIn k since)
      ∧ (postedIn k since).length = postEvictedIn k since + (s.collectReceipts k).2.length
      ∧ (Bincode.Fits s.file → ∃ s', s.restart = .ok s'
        ∧ ∀ ops, receiptAnswers s' ops = receiptAnswers s ops) := by
  obtain ⟨hboxed, hcap⟩ := boxed_lived hfits k
  have hsound := hboxed.sound
  obtain ⟨w, hlog, hbase, hshows⟩ := hboxed.shows
  have hqueue : ((lived selfId capacity events).post k).queue = w.contents := hshows
  refine ⟨hboxed.verified, hsound.nodup, hcap ▸ hsound.bounded, ?_,
    hboxed.putReceipt_duplicate_iff, ?_, ?_, ?_⟩
  · rw [hsound.seen, Finset.union_empty]
    rfl
  · rw [MailboxStore.collectReceipts_snd, hqueue, ← hlog, ← hbase]
    rfl
  · have hle := w.base_le
    rw [MailboxStore.collectReceipts_snd, hqueue, Window.length_contents, ← hlog, ← hbase]
    omega
  · intro hfile
    refine ⟨_, MailboxStore.restart_eq hfile, receiptAnswers_eq ⟨?_, ?_⟩⟩
    · exact capacity_reloaded hboxed.capacity_pos
    · intro k'
      exact (boxed_lived hfits k').1.post_reloaded

end Crypto

namespace Sample

/-- A mailbox that was given a receipt, and one that was restarted then. -/
def box (events : List StoreEvent) : MailboxStore :=
  @lived receiptCrypto mailbox 1 (.call (.putReceipt sender.hex delivered) :: events)

theorem post_box : (box []).post sender.hex = ⟨[delivered], {delivered.dedupKey}⟩ := by
  have hqueue : ((box []).post sender.hex).queue = [delivered] := by decide +kernel
  have hseen : ((box []).post sender.hex).seen = {delivered.dedupKey} := by decide +kernel
  rw [← hqueue, ← hseen]

end Sample

/-- The theorem for a mailbox that is restarted with a receipt in it. -/
theorem receipt_box_sample :
    ((Sample.box [.reload]).post Sample.sender.hex).seen
      = (((Sample.box [.reload]).post Sample.sender.hex).queue.map Receipt.dedupKey).toFinset := by
  have hqueues : (Sample.box []).queues.pairs = [] := by decide +kernel
  have hreceipts : (Sample.box []).receipts.pairs = [(Sample.sender.hex, [Sample.delivered])] := by
    decide +kernel
  have hkey : Bincode.Fits Sample.sender.hex := Bincode.fits_string (by decide +kernel)
  have hby : Bincode.Fits Sample.delivered.body.by := Bincode.fits_string (by decide +kernel)
  have hid : Bincode.Fits Sample.delivered.body.messageId := Bincode.fits_string (by decide +kernel)
  have hfile : Bincode.Fits (Sample.box []).file := by
    refine MailboxStore.fits_file ?_ ?_
    · rw [hqueues]
      exact ⟨by decide, fun _ h => by cases h⟩
    · rw [hreceipts]
      refine ⟨by decide, ?_⟩
      intro entry hentry
      obtain rfl := List.mem_singleton.mp hentry
      refine ⟨hkey, by decide, ?_⟩
      intro r hr
      obtain rfl := List.mem_singleton.mp hr
      exact ⟨⟨hid, hby, trivial, trivial⟩, by decide +kernel, fun _ _ => trivial⟩
  refine (@receipt_box Sample.receiptCrypto Sample.mailbox 1 _ ?_ Sample.sender.hex).2.2.2.1
  refine Machine.forall_cut_cons.mpr ⟨?_, Machine.forall_cut_cons.mpr ⟨?_, Machine.forall_cut_nil⟩⟩
  · intro h
    cases h
  · exact fun _ => hfile

/-- A forged copy of a pending receipt has its key, and is refused rather than recognised. -/
theorem forged_copy_not_duplicate :
    ¬∀ r, (@MailboxStore.putReceipt Sample.receiptCrypto (Sample.box []) Sample.sender.hex r).2
        = .ok .duplicate
      ↔ ∃ p ∈ ((Sample.box []).post Sample.sender.hex).queue, p.dedupKey = r.dedupKey := by
  intro h
  have hpending : ∃ p ∈ ((Sample.box []).post Sample.sender.hex).queue,
      p.dedupKey = Receipt.dedupKey { Sample.delivered with sig := Sample.bytes 64 0 } := by
    rw [Sample.post_box]
    exact ⟨Sample.delivered, List.mem_singleton_self _, rfl⟩
  have hdup := (h _).mpr hpending
  rw [@MailboxStore.putReceipt_snd Sample.receiptCrypto] at hdup
  have hforged : @Receipt.verify Sample.receiptCrypto
      { Sample.delivered with sig := Sample.bytes 64 0 }
        = .error "receipt signature does not verify (forged or tampered)" := by
    decide +kernel
  rw [hforged] at hdup
  cases hdup

/-! ## One acknowledgement, several keys -/

/-- **No spelling of a node id has a colon in it.** -/
theorem notMem_colon_of_parseNodeId {s : String} {id : NodeId} (h : parseNodeId s = .ok id) :
    ':' ∉ s.toList := by
  intro hmem
  have hspace : isWhitespace ':' = false := by decide
  obtain ⟨rest, hsplit, hrest⟩ := exists_trimmed s
  rw [hsplit, List.mem_append, List.mem_append] at hmem
  rcases hmem with hfront | hdigits | hback
  · exact absurd (List.mem_takeWhile_imp hfront) (by rw [hspace]; decide)
  · have hdigit := (digits_of_hexDecode (parseNodeId_eq_ok.mp h)).2 ':' hdigits
    revert hdigit
    decide
  · exact absurd (hrest ':' hback) (by rw [hspace]; decide)

/-- Where the last colon is, is where the parts meet. -/
theorem append_cons_inj_of_notMem_right {α : Type} {c : α} {l l' m m' : List α} (hm : c ∉ m)
    (hm' : c ∉ m') (h : l ++ c :: m = l' ++ c :: m') : l = l' ∧ m = m' := by
  rcases List.append_eq_append_iff.mp h with ⟨a, rfl, ha⟩ | ⟨a, rfl, ha⟩
  · cases a with
    | nil => exact ⟨(List.append_nil l).symm, (List.cons.inj ha).2⟩
    | cons x a =>
        rw [(List.cons.inj ha).2] at hm
        exact absurd (List.mem_append_right a List.mem_cons_self) hm
  · cases a with
    | nil => exact ⟨List.append_nil l', (List.cons.inj ha).2.symm⟩
    | cons x a =>
        rw [(List.cons.inj ha).2] at hm'
        exact absurd (List.mem_append_right a List.mem_cons_self) hm'

theorem toList_dedupKey (r : Receipt) :
    r.dedupKey.toList = (r.body.messageId.toList ++ ':' :: (toString r.body.kind.tag).toList)
      ++ ':' :: r.body.by.toList := by
  simp [Receipt.dedupKey]

section Crypto

variable [Crypto]

theorem Receipt.exists_byNode {r : Receipt} (h : r.verify = .ok ()) : ∃ id, r.byNode = .ok id := by
  rw [verify] at h
  split at h
  · cases h
  · rename_i id hid
    exact ⟨id, hid⟩

/-- **Verified receipts have one key when they say the same of one message in one spelling.** -/
theorem Receipt.dedupKey_iff {r p : Receipt} (hr : r.verify = .ok ()) (hp : p.verify = .ok ()) :
    r.dedupKey = p.dedupKey ↔ r.body.messageId = p.body.messageId
      ∧ r.body.kind = p.body.kind ∧ r.body.by = p.body.by := by
  refine ⟨?_, ?_⟩
  · intro h
    obtain ⟨id, hid⟩ := exists_byNode hr
    obtain ⟨id', hid'⟩ := exists_byNode hp
    have hlist := congrArg String.toList h
    rw [toList_dedupKey, toList_dedupKey] at hlist
    obtain ⟨hfront, hby⟩ := append_cons_inj_of_notMem_right (notMem_colon_of_parseNodeId hid)
      (notMem_colon_of_parseNodeId hid') hlist
    have htag : ∀ kind : ReceiptKind, ':' ∉ (toString kind.tag).toList := by
      intro kind
      cases kind <;> decide
    obtain ⟨hmessage, hkind⟩ := append_cons_inj_of_notMem_right (htag _) (htag _) hfront
    refine ⟨String.toList_inj.mp hmessage, ?_, String.toList_inj.mp hby⟩
    revert hkind
    cases r.body.kind <;> cases p.body.kind <;> decide
  · intro h
    rcases h with ⟨hmessage, hkind, hby⟩
    rw [dedupKey, dedupKey, hmessage, hkind, hby]

/-- What a receipt acknowledges, and who does. -/
def Receipt.acknowledges (r : Receipt) : String × ReceiptKind × Except String NodeId :=
  (r.body.messageId, r.body.kind, r.byNode)

/-- No two of the receipts are one node's acknowledgement of one kind of one message. -/
def OnePerRecipient (receipts : List Receipt) : Prop := (receipts.map Receipt.acknowledges).Nodup

/-- In every state of a run, the receipts pending for `k` are one for each acknowledgement. -/
def AlwaysOnePerRecipient (selfId : NodeId) (capacity : UInt64) (k : String) (ops : List Op) :
    Prop :=
  ∀ before, before <+: ops → OnePerRecipient ((after selfId capacity before).post k).queue

/--
A receipt spells the acknowledging node as do the pending receipts for the same message
and kind from the same node, those aside that make room for it.
-/
def SpeltAsPending (k : String) (s : MailboxStore) (r : Receipt) : Prop :=
  ∀ p ∈ (s.post k).queue.drop ((s.post k).overflow s.capacity),
    p.acknowledges = r.acknowledges → p.body.by = r.body.by

/-- Every verified receipt that a run puts for `k` is spelt as those pending. -/
def SpellsAlike (selfId : NodeId) (capacity : UInt64) (k : String) (ops : List Op) : Prop :=
  ∀ before op rest, ops = before ++ op :: rest → ∀ r, op = .putReceipt k r →
    r.verify = .ok () → SpeltAsPending k (after selfId capacity before) r

/-- One key is one acknowledgement in one spelling. -/
theorem dedupKey_eq_iff {p r : Receipt} (hp : p.verify = .ok ()) (hr : r.verify = .ok ()) :
    p.dedupKey = r.dedupKey ↔ p.acknowledges = r.acknowledges ∧ p.body.by = r.body.by := by
  rw [Receipt.dedupKey_iff hp hr]
  refine ⟨?_, ?_⟩
  · intro h
    obtain ⟨hmessage, hkind, hby⟩ := h
    refine ⟨?_, hby⟩
    rw [Receipt.acknowledges, Receipt.acknowledges, Receipt.byNode, Receipt.byNode, hmessage,
      hkind, hby]
  · intro h
    obtain ⟨hsame, hby⟩ := h
    exact ⟨congrArg Prod.fst hsame, congrArg (fun t => t.2.1) hsame, hby⟩

/-- One call keeps one receipt for each acknowledgement exactly when it spells as pending. -/
theorem onePerRecipient_call {k : String} {vs : List Visit} {s : MailboxStore}
    (h : Posted k vs s) (hone : OnePerRecipient (s.post k).queue) (op : Op) :
    OnePerRecipient ((s.call op).1.post k).queue
      ↔ ∀ r, op = .putReceipt k r → r.verify = .ok () → SpeltAsPending k s r := by
  rcases post_call s op k with ⟨r, hp, hpost, -⟩ | ⟨hop, hpost⟩ | ⟨-, hpost, hnone, -⟩
  -- the receipt is stored: it joins those it did not push out
  · obtain ⟨hput, hv, hk, hnew⟩ := hp
    have hop : op = .putReceipt k r := hput
    have hdrop : OnePerRecipient ((s.post k).queue.drop ((s.post k).overflow s.capacity)) := by
      rw [OnePerRecipient, List.map_drop]
      exact hone.sublist (List.drop_sublist _ _)
    have hqueue : ((s.call op).1.post k).queue
        = (s.post k).queue.drop ((s.post k).overflow s.capacity) ++ [r] := by
      rw [hpost, Slot.queue_deposit h.capacity_pos hnew]
    rw [hqueue, OnePerRecipient, List.map_append, List.map_singleton, List.nodup_append]
    refine ⟨?_, ?_⟩
    · intro hnd r' hr' _ p hp hsame
      obtain rfl : r = r' := (Op.putReceipt.inj (hop.symm.trans hr')).2
      exact absurd hsame (hnd.2.2 _ (List.mem_map_of_mem hp) _ (List.mem_singleton_self _))
    · intro hspelt
      refine ⟨hdrop, List.nodup_singleton _, ?_⟩
      intro a ha b hb hab
      obtain ⟨p, hp, rfl⟩ := List.mem_map.mp ha
      obtain rfl := List.mem_singleton.mp hb
      have hby := hspelt r hop hv p hp hab
      -- spelt alike, it would have the key of a pending one
      have hpending := List.mem_of_mem_drop hp
      have hkey := (dedupKey_eq_iff (h.verified p hpending) hv).mpr ⟨hab, hby⟩
      exact hnew (h.mem_seen.mpr ⟨p, hpending, hkey⟩)
  · refine iff_of_true ?_ ?_
    · rw [hpost]
      exact List.nodup_nil
    · intro r hr
      cases hop.symm.trans hr
  -- nothing is stored: a verified receipt is recognised, by a pending one spelt as it is
  · rw [hpost]
    refine iff_of_true hone ?_
    intro r hr hv p hp hsame
    subst hr
    have hpending := List.mem_of_mem_drop hp
    have hseen : r.dedupKey ∈ (s.post k).seen := by
      by_contra hnew
      have hstored : Visit.posted k (s, .putReceipt k r) = some r :=
        if_pos ⟨rfl, MailboxStore.putReceipt_stored.mpr ⟨hv, h.key_ne_empty hpending, hnew⟩⟩
      cases hnone.symm.trans hstored
    obtain ⟨q, hq, hkey⟩ := h.mem_seen.mp hseen
    obtain ⟨hqr, hby⟩ := (dedupKey_eq_iff (h.verified q hq) hv).mp hkey
    rw [List.inj_on_of_nodup_map hone hpending hq (hsame.trans hqr.symm)]
    exact hby

/--
**There is one receipt for each acknowledgement as long as nobody respells itself.** In
every state of a run the pending receipts of a key have distinct message, kind and node
exactly when each verified receipt put there spells its node as the pending receipts for
the same message and kind do that it does not push out.
-/
theorem alwaysOnePerRecipient_iff (selfId : NodeId) (capacity : UInt64) (k : String)
    (ops : List Op) :
    AlwaysOnePerRecipient selfId capacity k ops ↔ SpellsAlike selfId capacity k ops := by
  induction ops using List.reverseRecOn with
  | nil =>
      refine iff_of_true ?_ Machine.forall_cut_nil
      intro before hp
      rw [List.prefix_nil.mp hp]
      exact List.nodup_nil
  | append_singleton ops op ih =>
      rw [AlwaysOnePerRecipient, Machine.forall_prefix_concat, SpellsAlike,
        Machine.forall_cut_concat, ← AlwaysOnePerRecipient, ih, ← SpellsAlike, after_concat]
      refine and_congr_right ?_
      intro hspells
      exact onePerRecipient_call (posted_after selfId capacity ops k)
        (ih.mpr hspells ops List.prefix_rfl) op

end Crypto

/-- The recipient acknowledges one message twice, once in capitals. -/
theorem two_pending_from_one_recipient :
    ¬@AlwaysOnePerRecipient Sample.receiptCrypto Sample.mailbox 10 Sample.sender.hex
      [.putReceipt Sample.sender.hex Sample.delivered,
        .putReceipt Sample.sender.hex Sample.deliveredShouted] := by
  intro h
  have hqueue : ((@after Sample.receiptCrypto Sample.mailbox 10
      [.putReceipt Sample.sender.hex Sample.delivered,
        .putReceipt Sample.sender.hex Sample.deliveredShouted]).post Sample.sender.hex).queue
      = [Sample.delivered, Sample.deliveredShouted] := by
    decide +kernel
  have hone := h _ List.prefix_rfl
  rw [hqueue] at hone
  refine (List.nodup_cons.mp hone).1 (List.mem_singleton.mpr ?_)
  decide +kernel

section Crypto

variable [Crypto]

/--
**Only the same acknowledgement is taken for a duplicate.** Verified receipts have one key
exactly when they say the same of the same message in one spelling. So after any calls and
restarts a receipt is answered `Duplicate` exactly when it verifies and a verified receipt
for that message, of that kind and from that node, is pending.
-/
theorem duplicate_same_acknowledgement :
    (∀ r p : Receipt, r.verify = .ok () → p.verify = .ok () →
      (r.dedupKey = p.dedupKey ↔ r.body.messageId = p.body.messageId
        ∧ r.body.kind = p.body.kind ∧ r.body.by = p.body.by))
      ∧ ∀ (selfId : NodeId) (capacity : UInt64) (events : List StoreEvent),
        LifeFits selfId capacity events → ∀ (k : String) (r : Receipt),
        let s := lived selfId capacity events
        (s.putReceipt k r).2 = .ok .duplicate ↔ r.verify = .ok ()
          ∧ ∃ p ∈ (s.post k).queue, p.verify = .ok () ∧ r.body.messageId = p.body.messageId
            ∧ r.body.kind = p.body.kind ∧ r.body.by = p.body.by := by
  refine ⟨fun r p hr hp => Receipt.dedupKey_iff hr hp, ?_⟩
  intro selfId capacity events hfits k r s
  have hboxed := (boxed_lived hfits k).1
  rw [hboxed.putReceipt_duplicate_iff]
  refine and_congr_right ?_
  intro hr
  refine exists_congr ?_
  intro p
  refine and_congr_right ?_
  intro hp
  -- whatever is pending was verified when it was put
  have hverified := hboxed.verified p hp
  rw [eq_comm, Receipt.dedupKey_iff hr hverified]
  exact (and_iff_right hverified).symm

end Crypto

/-- The theorem for a receipt in capitals, and for one that is put again. -/
theorem duplicate_same_acknowledgement_sample :
    Sample.delivered.dedupKey ≠ Sample.deliveredShouted.dedupKey
      ∧ (@MailboxStore.putReceipt Sample.receiptCrypto (Sample.box []) Sample.sender.hex
        Sample.delivered).2 = .ok .duplicate := by
  have hdelivered : @Receipt.verify Sample.receiptCrypto Sample.delivered = .ok () := by
    decide +kernel
  have hshouted : @Receipt.verify Sample.receiptCrypto Sample.deliveredShouted = .ok () := by
    decide +kernel
  obtain ⟨hkeys, hduplicate⟩ := @duplicate_same_acknowledgement Sample.receiptCrypto
  refine ⟨?_, ?_⟩
  · intro h
    exact absurd ((hkeys _ _ hdelivered hshouted).mp h).2.2 (by decide +kernel)
  · have hfits : @LifeFits Sample.receiptCrypto Sample.mailbox 1
        [.call (.putReceipt Sample.sender.hex Sample.delivered)] := by
      refine Machine.forall_cut_cons.mpr ⟨?_, Machine.forall_cut_nil⟩
      intro h
      cases h
    refine (hduplicate Sample.mailbox 1 _ hfits _ _).mpr ⟨hdelivered, Sample.delivered, ?_,
      hdelivered, rfl, rfl, rfl⟩
    have hqueue : ((Sample.box []).post Sample.sender.hex).queue = [Sample.delivered] := by
      rw [Sample.post_box]
    exact hqueue ▸ List.mem_singleton_self _

end CeMail
