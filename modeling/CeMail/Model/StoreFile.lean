import CeMail.Model.Mailbox

/-!
# The store on disk

A store is written as one bincode tuple: a magic number, the node's id, the queues, the
capacity and the receipts. A hash map goes out as its entries in traversal order, which
is the form of a sequence of pairs, and comes back by inserting them one by one.

The two de-dup indexes are not written. They are made anew from the queues, so what an
index remembered beyond its queue does not survive.
-/

namespace CeMail

/-- Magic prefix tagging the on-disk format that carries receipts: "CEM2". -/
def storeMagic : UInt32 := 0x43454d32

/-- The tuple of the current format. -/
abbrev StoreFile :=
  UInt32 × NodeId × List (String × List StoredEnvelope) × UInt64 × List (String × List Receipt)

/-- The tuple of the format before receipts. -/
abbrev LegacyStoreFile := NodeId × List (String × List StoredEnvelope) × UInt64

/-- One turn of the loop of `rebuild`: the set of a key, created and filled with its items. -/
def fillSeen {α : Type} (key : α → String) (seen : Table String (Finset String))
    (entry : String × List α) : Table String (Finset String) :=
  Table.modify (seen.touch entry.1) entry.1 fun set =>
    entry.2.foldl (fun set x => insert (key x) set) set

/-- The loop of `rebuild` over one table of queues. -/
def rebuildSeen {α : Type} (key : α → String) (queues : Table String (List α)) :
    Table String (Finset String) :=
  queues.pairs.foldl (fillSeen key) ∅

namespace MailboxStore

/-- What of a store is written. -/
def file (s : MailboxStore) : StoreFile :=
  (storeMagic, s.selfId, s.queues.pairs, s.capacityPerRecipient, s.receipts.pairs)

/-- Serialize the whole store. Writing these types to memory has no way to fail. -/
def tryToBytes (s : MailboxStore) : Except String (List UInt8) := .ok (Bincode.enc s.file)

variable [Crypto]

/-- Rebuild the in-memory store from persisted parts. -/
def rebuild (selfId : NodeId) (queues : Table String (List StoredEnvelope)) (capacity : UInt64)
    (receipts : Table String (List Receipt)) : MailboxStore where
  selfId := selfId
  queues := queues
  seen := rebuildSeen StoredEnvelope.messageId queues
  receipts := receipts
  receiptsSeen := rebuildSeen Receipt.dedupKey receipts
  capacityPerRecipient := max capacity 1

/--
Load a store: in the current format if the bytes have it and start with the magic, else
in the legacy one. (After the colon the source adds bincode's own words.)
-/
def fromBytes (bytes : List UInt8) : Except String MailboxStore :=
  match (Bincode.dec bytes : Option (StoreFile × List UInt8)) with
  | some ((magic, selfId, queues, capacity, receipts), _) =>
      if magic = storeMagic then
        .ok (rebuild selfId (.ofPairs queues) capacity (.ofPairs receipts))
      else legacy
  | none => legacy
where
  legacy : Except String MailboxStore :=
    match (Bincode.dec bytes : Option (LegacyStoreFile × List UInt8)) with
    | some ((selfId, queues, capacity), _) => .ok (rebuild selfId (.ofPairs queues) capacity ∅)
    | none => .error "malformed mailbox store: "

/-- Write a store out and load it again. -/
def restart (s : MailboxStore) : Except String MailboxStore := s.tryToBytes >>= fromBytes

/-! ## What a restart keeps -/

/-- The store that comes back when every length fits. -/
def reloaded (s : MailboxStore) : MailboxStore :=
  rebuild s.selfId (.ofPairs s.queues.pairs) s.capacityPerRecipient (.ofPairs s.receipts.pairs)

omit [Crypto] in
/-- The tables are all there is to fit. -/
theorem fits_file {s : MailboxStore} (hqueues : Bincode.Fits s.queues.pairs)
    (hreceipts : Bincode.Fits s.receipts.pairs) : Bincode.Fits s.file :=
  ⟨trivial, trivial, hqueues, trivial, hreceipts⟩

/-- **What was written is read back.** -/
theorem restart_eq {s : MailboxStore} (h : Bincode.Fits s.file) : s.restart = .ok s.reloaded := by
  have hdec : (Bincode.dec (Bincode.enc s.file) : Option (StoreFile × List UInt8))
      = some (s.file, []) := by
    have := Bincode.dec_enc s.file h []
    rwa [List.append_nil] at this
  show fromBytes (Bincode.enc s.file) = _
  rw [fromBytes, hdec]
  exact if_pos rfl

end MailboxStore

section Rebuild

variable {α : Type} {key : α → String} {a : String}

theorem mem_foldl_insert {q : List α} {set : Finset String} :
    a ∈ q.foldl (fun set x => insert (key x) set) set ↔ a ∈ set ∨ a ∈ q.map key := by
  induction q generalizing set with
  | nil => simp
  | cons x q ih =>
    rw [List.foldl_cons, ih, Finset.mem_insert, List.map_cons, List.mem_cons]
    tauto

theorem mem_get_fillSeen {seen : Table String (Finset String)} {entry : String × List α}
    {k : String} :
    a ∈ (fillSeen key seen entry).get k ↔
      a ∈ seen.get k ∨ entry.1 = k ∧ a ∈ entry.2.map key := by
  rw [fillSeen, Table.get_modify (Table.mem_touch _ _)]
  by_cases h : k = entry.1
  · subst h
    rw [if_pos rfl, Table.get_touch, mem_foldl_insert]
    simp
  · rw [if_neg h, Table.get_touch]
    simp [Ne.symm h]

theorem mem_get_foldl_fillSeen {entries : List (String × List α)}
    {seen : Table String (Finset String)} {k : String} :
    a ∈ (entries.foldl (fillSeen key) seen).get k ↔
      a ∈ seen.get k ∨ ∃ entry ∈ entries, entry.1 = k ∧ a ∈ entry.2.map key := by
  induction entries generalizing seen with
  | nil => simp
  | cons entry entries ih =>
    rw [List.foldl_cons, ih, mem_get_fillSeen, List.exists_mem_cons_iff, or_assoc]

/-- **A rebuilt index remembers the queued keys and no others.** -/
theorem get_rebuildSeen (queues : Table String (List α)) (k : String) :
    (rebuildSeen key queues).get k = ((queues.get k).map key).toFinset := by
  ext a
  rw [rebuildSeen, mem_get_foldl_fillSeen, List.mem_toFinset, Table.get_empty]
  refine ⟨?_, ?_⟩
  · intro h
    rcases h with h | ⟨⟨k', q⟩, hentry, rfl, ha⟩
    · exact absurd h (Finset.notMem_empty a)
    · rw [Table.get, Table.mem_pairs.mp hentry]
      exact ha
  · intro ha
    cases hq : queues.lookup k with
    | none =>
        rw [Table.get, hq] at ha
        cases ha
    | some q =>
        rw [Table.get, hq] at ha
        exact Or.inr ⟨(k, q), Table.mem_pairs.mpr hq, rfl, ha⟩

end Rebuild

namespace MailboxStore

variable [Crypto] (s : MailboxStore)

/-- The mail that comes back: every queue as it was, remembering what it holds. -/
theorem mail_reloaded (k : String) :
    s.reloaded.mail k
      = ⟨s.queue k, ((s.queue k).map StoredEnvelope.messageId).toFinset⟩ := by
  rw [mail, reloaded, rebuild, get_rebuildSeen, Table.get_ofPairs_pairs]
  rfl

/-- The receipts that come back. -/
theorem post_reloaded (k : String) :
    s.reloaded.post k
      = ⟨(s.post k).queue, ((s.post k).queue.map Receipt.dedupKey).toFinset⟩ := by
  rw [post, reloaded, rebuild, get_rebuildSeen, Table.get_ofPairs_pairs]
  rfl

end MailboxStore

end CeMail
