import CeMail.Lib.Retention
import CeMail.Lib.Table
import CeMail.Model.Limits
import CeMail.Model.Receipt

/-!
# The mailbox store

Store-and-forward for offline recipients. Mail waits under the recipient's string,
receipts under the original sender's, each in a bounded queue with a set of ids
beside it that recognises a re-delivery. Both strings are used as they came;
nothing here parses them.

Under one key the two tables of a queue are a `Slot`, and the operations act on it
as the slot's own do. Those facts, one per operation, are at the end of the file and
are all that later files use.
-/

namespace CeMail

/-- What `ce_iam_core` supplies, for capabilities of type `Cap`. -/
class Iam (Cap : Type) where
  /--
  `ce_iam_core::authorize(self_id, roots, [], now, requester, ability, chain, is_revoked)`.
  The third argument is the empty slice in every call, and is left out.
  -/
  authorize : NodeId → List NodeId → UInt64 → NodeId → String → List Cap →
    (NodeId → UInt64 → Bool) → Except String Unit

/-- The capability ability a recipient grants a mailbox. -/
def abilityAccept : String := "mail:accept"

/-- A stored envelope plus the unix-second it was accepted. -/
structure StoredEnvelope where
  envelope : Envelope
  storedAt : UInt64
deriving DecidableEq

/-- The key a stored envelope is recognised by. -/
def StoredEnvelope.messageId [Crypto] (s : StoredEnvelope) : String := s.envelope.messageId

instance : Bincode StoredEnvelope :=
  Bincode.via (fun s => (s.envelope, s.storedAt)) (fun (e, t) => some ⟨e, t⟩) (fun _ => rfl)

/-- A store-and-forward mailbox. -/
structure MailboxStore where
  /-- This mailbox node's own id. -/
  selfId : NodeId
  /-- Recipient string to queue of stored envelopes. -/
  queues : Table String (List StoredEnvelope)
  /-- Message ids remembered per recipient. -/
  seen : Table String (Finset String)
  /-- Sender string to receipts addressed to that sender. -/
  receipts : Table String (List Receipt)
  /-- Receipt keys remembered per sender. -/
  receiptsSeen : Table String (Finset String)
  /-- Max envelopes retained per recipient. -/
  capacityPerRecipient : UInt64

/-- Outcome of storing. -/
inductive Accepted where
  | stored
  | duplicate
deriving DecidableEq

/-- The two tables a store keeps for one kind of item, and what became of an item put there. -/
structure Deposit (α : Type) where
  queues : Table String (List α)
  seen : Table String (Finset String)
  accepted : Accepted

/--
The lines `accept` and `put_receipt` have in common: remember the key of an item
unless it is remembered already, push the item, and evict the oldest beyond capacity
together with their keys.
-/
def deposit {α : Type} (capacity : UInt64) (key : α → String) (queues : Table String (List α))
    (seen : Table String (Finset String)) (k : String) (x : α) : Deposit α :=
  let seen := seen.touch k
  if key x ∈ seen.get k then ⟨queues, seen, .duplicate⟩
  else
    let seen := seen.insert k (insert (key x) (seen.get k))
    let q := queues.get k ++ [x]
    if capacity.toNat < q.length then
      let overflow := q.length - capacity.toNat
      let evicted := (q.take overflow).map key
      ⟨queues.insert k (q.drop overflow), Table.modify seen k (evicted.foldl Finset.erase ·),
        .stored⟩
    else ⟨queues.insert k q, seen, .stored⟩

namespace MailboxStore

/-- A new empty mailbox. -/
def new (selfId : NodeId) (capacity : UInt64) : MailboxStore where
  selfId := selfId
  queues := ∅
  seen := ∅
  receipts := ∅
  receiptsSeen := ∅
  capacityPerRecipient := max capacity 1

/-- Does `chain` authorize this mailbox to accept mail for `recipient`? -/
def checkAcceptGrant {Cap : Type} [Iam Cap] (s : MailboxStore) (recipient : NodeId)
    (chain : List Cap) (now : UInt64) (isRevoked : NodeId → UInt64 → Bool) : Except String Unit :=
  match Iam.authorize recipient [recipient] now s.selfId abilityAccept chain isRevoked with
  | .ok () => .ok ()
  | .error e => .error ("mailbox not authorized to accept mail for recipient: " ++ e)

/-- Accept an envelope for storage under its `to`. -/
def accept [Crypto] (s : MailboxStore) (envelope : Envelope) (now : UInt64) :
    MailboxStore × Except String Accepted :=
  match envelope.verify with
  | .error e => (s, .error ("refusing to store unverifiable envelope: " ++ e))
  | .ok () =>
      if envelope.body.to = "" then (s, .error "envelope has no recipient")
      else
        let d := deposit s.capacityPerRecipient StoredEnvelope.messageId s.queues s.seen
          envelope.body.to ⟨envelope, now⟩
        ({ s with queues := d.queues, seen := d.seen }, .ok d.accepted)

/-- Number of stored envelopes for `recipientHex`. -/
def pendingCount (s : MailboxStore) (recipientHex : String) : UInt64 :=
  .ofNat (s.queues.get recipientHex).length

/-- The envelopes from index `since` on, and the new cursor. Nothing is removed. -/
def readFrom (s : MailboxStore) (recipientHex : String) (since : UInt64) :
    List StoredEnvelope × UInt64 :=
  match s.queues.lookup recipientHex with
  | some q =>
      if since.toNat < q.length then (q.drop since.toNat, .ofNat q.length)
      else ([], .ofNat q.length)
  | none => ([], 0)

/--
At most `limit` envelopes from index `since` on, the cursor past them and whether more
remain. A sum past the largest `usize` panics: at the addition when overflow checks
are on, and otherwise at the slice, whose end has then wrapped to below its start.
-/
def readPage (s : MailboxStore) (recipientHex : String) (since limit : UInt64) :
    Except Panic (List StoredEnvelope × UInt64 × Bool) :=
  let limit := max limit 1
  match s.queues.lookup recipientHex with
  | some q =>
      if since.toNat < q.length then
        if since.toNat + limit.toNat < 2 ^ 64 then
          let stop := min (since.toNat + limit.toNat) q.length
          .ok ((q.take stop).drop since.toNat, .ofNat stop, stop < q.length)
        else .error .pageEnd
      else .ok ([], .ofNat q.length, false)
  | none => .ok ([], 0, false)

/-- Deposit a signed receipt addressed to `forSenderHex`. -/
def putReceipt [Crypto] (s : MailboxStore) (forSenderHex : String) (receipt : Receipt) :
    MailboxStore × Except String Accepted :=
  match receipt.verify with
  | .error e => (s, .error ("refusing to store unverifiable receipt: " ++ e))
  | .ok () =>
      if forSenderHex = "" then (s, .error "receipt has no target sender")
      else
        let d := deposit s.capacityPerRecipient Receipt.dedupKey s.receipts s.receiptsSeen
          forSenderHex receipt
        ({ s with receipts := d.queues, receiptsSeen := d.seen }, .ok d.accepted)

/-- Return and remove all receipts addressed to `senderHex`. -/
def collectReceipts (s : MailboxStore) (senderHex : String) : MailboxStore × List Receipt :=
  ({ s with
      receipts := s.receipts.erase senderHex
      receiptsSeen := s.receiptsSeen.erase senderHex },
    (s.receipts.lookup senderHex).getD [])

/-- Remove the first `upToCursor` envelopes; out-of-range is clamped. -/
def ack (s : MailboxStore) (recipientHex : String) (upToCursor : UInt64) : MailboxStore × UInt64 :=
  match s.queues.lookup recipientHex with
  | some q =>
      let n := min upToCursor.toNat q.length
      ({ s with queues := s.queues.insert recipientHex (q.drop n) }, .ofNat n)
  | none => (s, 0)

end MailboxStore

/-! ## One key at a time -/

section Deposit

variable {α : Type} {capacity : UInt64} {key : α → String} {queues : Table String (List α)}
  {seen : Table String (Finset String)} {k : String} {x : α}

/-- What the tables hold under a key. -/
def Deposit.slot (d : Deposit α) (k : String) : Slot String α := ⟨d.queues.get k, d.seen.get k⟩

/-- A remembered key leaves both tables as they were. -/
theorem deposit_of_mem (h : key x ∈ seen.get k) :
    deposit capacity key queues seen k x = ⟨queues, seen, .duplicate⟩ := by
  have hk : k ∈ seen := Table.mem_of_get_ne fun he => by
    rw [he] at h
    exact Finset.notMem_empty _ h
  simp only [deposit, Table.touch_of_mem hk, if_pos h]

theorem deposit_of_notMem (h : key x ∉ seen.get k) :
    (deposit capacity key queues seen k x).accepted = .stored := by
  rw [deposit, Table.get_touch, if_neg h]
  dsimp only
  split <;> rfl

/-- **Storing under a key is storing in its slot**, and touches no other key. -/
theorem slot_deposit (h : key x ∉ seen.get k) (k' : String) :
    (deposit capacity key queues seen k x).slot k' =
      if k' = k then ((⟨queues.get k, seen.get k⟩ : Slot String α).deposit capacity.toNat key x).1
      else ⟨queues.get k', seen.get k'⟩ := by
  rw [deposit, Table.get_touch, if_neg h, Slot.deposit_of_notMem h]
  have hlen : (queues.get k ++ [x]).length = (queues.get k).length + 1 := by simp
  dsimp only
  rw [hlen]
  split
  · rename_i hover
    rw [Deposit.slot, Table.get_modify ((AList.mem_insert _).mpr (Or.inl rfl)), Table.get_insert]
    by_cases hk : k' = k
    · subst hk
      rw [if_pos rfl, if_pos rfl, Table.get_insert]
      rfl
    · rw [if_neg hk, if_neg hk, Table.get_insert_ne hk, Table.get_insert_ne hk, Table.get_touch]
  · rename_i hover
    -- nothing overflows, so the slot drops nothing and forgets nothing
    have hzero : (⟨queues.get k, seen.get k⟩ : Slot String α).overflow capacity.toNat = 0 := by
      show (queues.get k).length + 1 - capacity.toNat = 0
      omega
    rw [Deposit.slot, hzero]
    by_cases hk : k' = k
    · subst hk
      rw [if_pos rfl, Table.get_insert, Table.get_insert]
      rfl
    · rw [if_neg hk, Table.get_insert_ne hk, Table.get_insert_ne hk, Table.get_touch]

end Deposit

namespace MailboxStore

/-- The mail waiting under a key. -/
def mail (s : MailboxStore) (k : String) : Slot String StoredEnvelope :=
  ⟨s.queues.get k, s.seen.get k⟩

/-- The receipts waiting under a key. -/
def post (s : MailboxStore) (k : String) : Slot String Receipt :=
  ⟨s.receipts.get k, s.receiptsSeen.get k⟩

/-- The queue of stored envelopes under a key. -/
abbrev queue (s : MailboxStore) (k : String) : List StoredEnvelope := (s.mail k).queue

/-- The capacity as a number. -/
abbrev capacity (s : MailboxStore) : Nat := s.capacityPerRecipient.toNat

section Crypto

variable [Crypto]

/-- The envelope verifies, is addressed to someone and is not remembered there. -/
def Fresh (s : MailboxStore) (e : Envelope) : Prop :=
  e.verify = .ok () ∧ e.body.to ≠ "" ∧ e.messageId ∉ (s.mail e.body.to).seen

/-- The receipt verifies, is deposited for someone and is not remembered there. -/
def FreshReceipt (s : MailboxStore) (k : String) (r : Receipt) : Prop :=
  r.verify = .ok () ∧ k ≠ "" ∧ r.dedupKey ∉ (s.post k).seen

variable {s : MailboxStore}

/-! ### accept -/

theorem accept_eq {e : Envelope} (hv : e.verify = .ok ()) (hto : e.body.to ≠ "") (now : UInt64) :
    s.accept e now =
      ({ s with
          queues := (deposit s.capacityPerRecipient StoredEnvelope.messageId s.queues s.seen
            e.body.to ⟨e, now⟩).queues
          seen := (deposit s.capacityPerRecipient StoredEnvelope.messageId s.queues s.seen
            e.body.to ⟨e, now⟩).seen },
        .ok (deposit s.capacityPerRecipient StoredEnvelope.messageId s.queues s.seen
          e.body.to ⟨e, now⟩).accepted) := by
  rw [accept, hv]
  exact if_neg hto

theorem accept_duplicate {e : Envelope} (hv : e.verify = .ok ()) (hto : e.body.to ≠ "")
    (hmem : e.messageId ∈ (s.mail e.body.to).seen) (now : UInt64) :
    s.accept e now = (s, .ok .duplicate) := by
  have hdup : deposit s.capacityPerRecipient StoredEnvelope.messageId s.queues s.seen e.body.to
      ⟨e, now⟩ = ⟨s.queues, s.seen, .duplicate⟩ := deposit_of_mem hmem
  rw [accept_eq hv hto, hdup]

/-- What is not fresh is not stored, and refusing it changes nothing. -/
theorem accept_of_not_fresh {e : Envelope} (h : ¬s.Fresh e) (now : UInt64) :
    (s.accept e now).1 = s ∧ (s.accept e now).2 ≠ .ok .stored := by
  cases hv : e.verify with
  | error err =>
      rw [accept, hv]
      exact ⟨rfl, fun h => by cases h⟩
  | ok =>
      by_cases hto : e.body.to = ""
      · rw [accept, hv]
        dsimp only
        rw [if_pos hto]
        exact ⟨rfl, fun h => by cases h⟩
      · have hmem : e.messageId ∈ (s.mail e.body.to).seen := by
          by_contra hnot
          exact h ⟨hv, hto, hnot⟩
        rw [accept_duplicate hv hto hmem]
        exact ⟨rfl, fun h => by cases h⟩

@[simp] theorem accept_stored {e : Envelope} {now : UInt64} :
    (s.accept e now).2 = .ok .stored ↔ s.Fresh e := by
  refine ⟨fun hs => by_contra fun h => (accept_of_not_fresh h now).2 hs, ?_⟩
  intro hfresh
  rcases hfresh with ⟨hv, hto, hnot⟩
  have hdep : (deposit s.capacityPerRecipient StoredEnvelope.messageId s.queues s.seen e.body.to
      ⟨e, now⟩).accepted = .stored := deposit_of_notMem hnot
  rw [accept_eq hv hto, hdep]

/-- A verified envelope is a duplicate exactly when its id is remembered under its recipient. -/
theorem accept_eq_duplicate {e : Envelope} (hv : e.verify = .ok ()) (hto : e.body.to ≠ "")
    (now : UInt64) :
    (s.accept e now).2 = .ok .duplicate ↔ e.messageId ∈ (s.mail e.body.to).seen := by
  refine ⟨?_, ?_⟩
  · intro h
    by_contra hnot
    rw [accept_stored.mpr ⟨hv, hto, hnot⟩] at h
    cases h
  · intro h
    rw [accept_duplicate hv hto h]

/-- The answer of an `accept`, from the slot of the recipient alone. -/
theorem accept_snd (e : Envelope) (now : UInt64) :
    (s.accept e now).2 = match e.verify with
      | .error err => .error ("refusing to store unverifiable envelope: " ++ err)
      | .ok () =>
          if e.body.to = "" then .error "envelope has no recipient"
          else if e.messageId ∈ (s.mail e.body.to).seen then .ok .duplicate
          else .ok .stored := by
  cases hv : e.verify with
  | error err => rw [accept, hv]
  | ok =>
      by_cases hto : e.body.to = ""
      · rw [accept, hv]
        simp only [if_pos hto]
      · simp only [if_neg hto]
        by_cases hmem : e.messageId ∈ (s.mail e.body.to).seen
        · rw [if_pos hmem, accept_duplicate hv hto hmem]
        · rw [if_neg hmem, accept_stored.mpr ⟨hv, hto, hmem⟩]

/-- **Accepting a fresh envelope stores it in its recipient's slot** and in no other. -/
theorem mail_accept {e : Envelope} (h : s.Fresh e) (now : UInt64) (k : String) :
    (s.accept e now).1.mail k =
      if k = e.body.to then
        ((s.mail k).deposit s.capacity StoredEnvelope.messageId ⟨e, now⟩).1
      else s.mail k := by
  obtain ⟨hv, hto, hnot⟩ := h
  have hnew : StoredEnvelope.messageId ⟨e, now⟩ ∉ s.seen.get e.body.to := hnot
  rw [accept_eq hv hto]
  show (deposit s.capacityPerRecipient StoredEnvelope.messageId s.queues s.seen e.body.to
    ⟨e, now⟩).slot k = _
  rw [slot_deposit hnew]
  split
  · rename_i hk; subst hk; rfl
  · rfl

/-- Accepting touches neither the receipts nor the store's own settings. -/
theorem accept_frame (e : Envelope) (now : UInt64) :
    (∀ k, (s.accept e now).1.post k = s.post k)
      ∧ (s.accept e now).1.capacityPerRecipient = s.capacityPerRecipient
      ∧ (s.accept e now).1.selfId = s.selfId := by
  by_cases h : s.Fresh e
  · rw [accept_eq h.1 h.2.1]
    exact ⟨fun _ => rfl, rfl, rfl⟩
  · rw [(accept_of_not_fresh h now).1]
    exact ⟨fun _ => rfl, rfl, rfl⟩

/-! ### put_receipt -/

theorem putReceipt_eq {k : String} {r : Receipt} (hv : r.verify = .ok ()) (hk : k ≠ "") :
    s.putReceipt k r =
      ({ s with
          receipts := (deposit s.capacityPerRecipient Receipt.dedupKey s.receipts s.receiptsSeen
            k r).queues
          receiptsSeen := (deposit s.capacityPerRecipient Receipt.dedupKey s.receipts
            s.receiptsSeen k r).seen },
        .ok (deposit s.capacityPerRecipient Receipt.dedupKey s.receipts s.receiptsSeen
          k r).accepted) := by
  rw [putReceipt, hv]
  exact if_neg hk

theorem putReceipt_duplicate {k : String} {r : Receipt} (hv : r.verify = .ok ()) (hk : k ≠ "")
    (hmem : r.dedupKey ∈ (s.post k).seen) : s.putReceipt k r = (s, .ok .duplicate) := by
  have hdup : deposit s.capacityPerRecipient Receipt.dedupKey s.receipts s.receiptsSeen k r
      = ⟨s.receipts, s.receiptsSeen, .duplicate⟩ := deposit_of_mem hmem
  rw [putReceipt_eq hv hk, hdup]

theorem putReceipt_of_not_fresh {k : String} {r : Receipt} (h : ¬s.FreshReceipt k r) :
    (s.putReceipt k r).1 = s ∧ (s.putReceipt k r).2 ≠ .ok .stored := by
  cases hv : r.verify with
  | error err =>
      rw [putReceipt, hv]
      exact ⟨rfl, fun h => by cases h⟩
  | ok =>
      by_cases hk : k = ""
      · rw [putReceipt, hv]
        dsimp only
        rw [if_pos hk]
        exact ⟨rfl, fun h => by cases h⟩
      · have hmem : r.dedupKey ∈ (s.post k).seen := by
          by_contra hnot
          exact h ⟨hv, hk, hnot⟩
        rw [putReceipt_duplicate hv hk hmem]
        exact ⟨rfl, fun h => by cases h⟩

@[simp] theorem putReceipt_stored {k : String} {r : Receipt} :
    (s.putReceipt k r).2 = .ok .stored ↔ s.FreshReceipt k r := by
  refine ⟨fun hs => by_contra fun h => (putReceipt_of_not_fresh h).2 hs, ?_⟩
  intro hfresh
  rcases hfresh with ⟨hv, hk, hnot⟩
  rw [putReceipt_eq hv hk]
  exact congrArg Except.ok (deposit_of_notMem hnot)

/-- The answer of a `putReceipt`, from the slot of the sender alone. -/
theorem putReceipt_snd (k : String) (r : Receipt) :
    (s.putReceipt k r).2 = match r.verify with
      | .error err => .error ("refusing to store unverifiable receipt: " ++ err)
      | .ok () =>
          if k = "" then .error "receipt has no target sender"
          else if r.dedupKey ∈ (s.post k).seen then .ok .duplicate
          else .ok .stored := by
  cases hv : r.verify with
  | error err => rw [putReceipt, hv]
  | ok =>
      by_cases hk : k = ""
      · rw [putReceipt, hv]
        simp only [if_pos hk]
      · simp only [if_neg hk]
        by_cases hmem : r.dedupKey ∈ (s.post k).seen
        · rw [if_pos hmem, putReceipt_duplicate hv hk hmem]
        · rw [if_neg hmem, putReceipt_stored.mpr ⟨hv, hk, hmem⟩]

/-- **Depositing a fresh receipt stores it in its sender's slot** and in no other. -/
theorem post_putReceipt {k : String} {r : Receipt} (h : s.FreshReceipt k r) (k' : String) :
    (s.putReceipt k r).1.post k' =
      if k' = k then ((s.post k').deposit s.capacity Receipt.dedupKey r).1 else s.post k' := by
  obtain ⟨hv, hk, hnot⟩ := h
  have hnew : Receipt.dedupKey r ∉ s.receiptsSeen.get k := hnot
  rw [putReceipt_eq hv hk]
  show (deposit s.capacityPerRecipient Receipt.dedupKey s.receipts s.receiptsSeen k r).slot k' = _
  rw [slot_deposit hnew]
  split
  · rename_i hk'; subst hk'; rfl
  · rfl

/-- Depositing a receipt touches neither the mail nor the store's own settings. -/
theorem putReceipt_frame (k : String) (r : Receipt) :
    (∀ k', (s.putReceipt k r).1.mail k' = s.mail k')
      ∧ (s.putReceipt k r).1.capacityPerRecipient = s.capacityPerRecipient
      ∧ (s.putReceipt k r).1.selfId = s.selfId := by
  by_cases h : s.FreshReceipt k r
  · rw [putReceipt_eq h.1 h.2.1]
    exact ⟨fun _ => rfl, rfl, rfl⟩
  · rw [(putReceipt_of_not_fresh h).1]
    exact ⟨fun _ => rfl, rfl, rfl⟩

end Crypto

variable {s : MailboxStore}

/-! ### collect_receipts -/

@[simp] theorem collectReceipts_snd (k : String) :
    (s.collectReceipts k).2 = (s.post k).queue := rfl

/-- **Collecting empties one sender's slot**, queue and remembered keys both. -/
theorem post_collectReceipts (k k' : String) :
    (s.collectReceipts k).1.post k' = if k' = k then Slot.empty else s.post k' := by
  rw [collectReceipts, post]
  split
  · rename_i h; subst h
    rw [Table.get_erase, Table.get_erase]
    rfl
  · rename_i h
    rw [Table.get_erase_ne h, Table.get_erase_ne h]
    rfl

@[simp] theorem mail_collectReceipts (k k' : String) :
    (s.collectReceipts k).1.mail k' = s.mail k' := rfl

/-! ### ack and the reads -/

theorem queue_of_lookup_none {k : String} (h : s.queues.lookup k = none) : s.queue k = [] := by
  show s.queues.get k = []
  rw [Table.get, h]
  rfl

theorem queue_of_lookup_some {k : String} {q : List StoredEnvelope}
    (h : s.queues.lookup k = some q) : s.queue k = q := by
  show s.queues.get k = q
  rw [Table.get, h]
  rfl

/-- **An ack frees the front of one slot**, by position. -/
theorem mail_ack (k : String) (c : UInt64) (k' : String) :
    (s.ack k c).1.mail k' = if k' = k then (s.mail k').free c.toNat else s.mail k' := by
  rw [ack]
  split
  · rename_i q hq
    have hget := queue_of_lookup_some hq
    by_cases hk : k' = k
    · subst hk
      have hdrop : (s.queue k').drop c.toNat = q.drop (min c.toNat q.length) := by
        rw [hget]
        exact List.drop_eq_drop_min
      rw [if_pos rfl, Slot.free, hdrop, mail, Table.get_insert]
      rfl
    · rw [if_neg hk, mail, Table.get_insert_ne hk]
      rfl
  · rename_i hq
    split
    · rename_i hk; subst hk
      have hnil : (s.mail k').queue = [] := queue_of_lookup_none hq
      rw [Slot.free, hnil, List.drop_nil, ← hnil]
    · rfl

/-- An ack answers how many envelopes it removed. -/
theorem ack_snd (k : String) (c : UInt64) :
    (s.ack k c).2.toNat = min c.toNat (s.queue k).length := by
  rw [ack]
  split
  · rename_i q hq
    have hlt : min c.toNat q.length < 2 ^ 64 := Nat.lt_of_le_of_lt (Nat.min_le_left _ _) c.toNat_lt
    rw [queue_of_lookup_some hq]
    exact UInt64.toNat_ofNat_of_lt' hlt
  · rename_i hq
    rw [queue_of_lookup_none hq, List.length_nil, Nat.min_zero]
    rfl

/-- An ack touches neither the receipts nor the store's own settings. -/
theorem ack_frame (k : String) (c : UInt64) :
    (∀ k', (s.ack k c).1.post k' = s.post k')
      ∧ (s.ack k c).1.capacityPerRecipient = s.capacityPerRecipient
      ∧ (s.ack k c).1.selfId = s.selfId := by
  rw [ack]
  split <;> exact ⟨fun _ => rfl, rfl, rfl⟩

/-- A read is the rest of the queue from the cursor on, and the queue's length. -/
theorem readFrom_eq (k : String) (since : UInt64) :
    s.readFrom k since = ((s.queue k).drop since.toNat, .ofNat (s.queue k).length) := by
  rw [readFrom]
  split
  · rename_i q hq
    rw [queue_of_lookup_some hq]
    split
    · rfl
    · rename_i hlen
      rw [List.drop_eq_nil_of_le (Nat.le_of_not_lt hlen)]
  · rename_i hq
    rw [queue_of_lookup_none hq, List.drop_nil]
    rfl

/-- A page, from the queue alone: a key that is absent reads as one with an empty queue. -/
theorem readPage_eq (k : String) (since limit : UInt64) :
    s.readPage k since limit =
      if since.toNat < (s.queue k).length then
        if since.toNat + (max limit 1).toNat < 2 ^ 64 then
          let stop := min (since.toNat + (max limit 1).toNat) (s.queue k).length
          .ok (((s.queue k).take stop).drop since.toNat, .ofNat stop, stop < (s.queue k).length)
        else .error .pageEnd
      else .ok ([], .ofNat (s.queue k).length, false) := by
  rw [readPage]
  dsimp only
  split
  · rename_i q hq
    rw [queue_of_lookup_some hq]
  · rename_i hq
    rw [queue_of_lookup_none hq]
    rfl

-- From here on the operations are what the lemmas above say of them. Unfolded, a statement
-- about the state after an `accept` runs into the check of a signature.
attribute [irreducible] accept putReceipt ack

end MailboxStore

end CeMail
