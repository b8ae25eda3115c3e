import CeMail.Model.StoreFile
import CeMail.Proof.Wire

/-!
# The store file

A store comes back from its file as it was, in whatever order its hash maps were traversed
when it was written. So does one from the format before receipts, which carries no magic
number: its file is tried as one of the current format first, and the attempt fails
because the two are four bytes out of step. The count of queues is then read from the low
half of the length of the first recipient's string, as a multiple of 2^32, and no file of
less than 2^32 bytes has that many.
-/

namespace CeMail

section Crypto

variable [Crypto]

/-! ## The current format -/

/-- A store that calls have led to from an empty one or one that was loaded. -/
inductive Reachable : MailboxStore → Prop where
  | new (selfId : NodeId) (capacity : UInt64) : Reachable (.new selfId capacity)
  | call {s : MailboxStore} (op : Op) : Reachable s → Reachable (s.call op).1
  | load {s : MailboxStore} (bytes : List UInt8) :
      MailboxStore.fromBytes bytes = .ok s → Reachable s

/-- What is loaded was rebuilt from something. -/
theorem exists_rebuild_of_fromBytes {bytes : List UInt8} {s : MailboxStore}
    (h : MailboxStore.fromBytes bytes = .ok s) :
    ∃ selfId queues capacity receipts,
      s = MailboxStore.rebuild selfId queues capacity receipts := by
  have hlegacy : ∀ {s}, MailboxStore.fromBytes.legacy bytes = .ok s → ∃ selfId queues capacity
      receipts, s = MailboxStore.rebuild selfId queues capacity receipts := by
    intro s h
    unfold MailboxStore.fromBytes.legacy at h
    split at h
    · exact ⟨_, _, _, _, (Except.ok.inj h).symm⟩
    · cases h
  unfold MailboxStore.fromBytes at h
  split at h
  · split at h
    · exact ⟨_, _, _, _, (Except.ok.inj h).symm⟩
    · exact hlegacy h
  · exact hlegacy h

omit [Crypto] in
theorem one_le_max (n : UInt64) : 1 ≤ max n 1 := by
  rw [UInt64.le_iff_toNat_le, UInt64.toNat_max]
  exact Nat.le_max_right _ _

omit [Crypto] in
theorem max_one_of_pos {n : UInt64} (h : 1 ≤ n) : max n 1 = n := by
  refine UInt64.toNat_inj.mp ?_
  rw [UInt64.toNat_max]
  exact Nat.max_eq_left (UInt64.le_iff_toNat_le.mp h)

/-- Every reachable store has room for an envelope. -/
theorem Reachable.capacity_pos {s : MailboxStore} (h : Reachable s) :
    1 ≤ s.capacityPerRecipient := by
  induction h with
  | new selfId capacity => exact one_le_max capacity
  | call op _ ih =>
      rw [(settings_call _ op).1]
      exact ih
  | load bytes hload =>
      obtain ⟨_, _, capacity, _, rfl⟩ := exists_rebuild_of_fromBytes hload
      exact one_le_max capacity

/-- The bytes `try_to_bytes` gives when the hash maps are traversed in some order. -/
def MailboxStore.Writes (s : MailboxStore) (bytes : List UInt8) : Prop :=
  ∃ queues receipts, queues.Perm s.queues.pairs ∧ receipts.Perm s.receipts.pairs
    ∧ bytes = Bincode.enc ((storeMagic, s.selfId, queues, s.capacityPerRecipient, receipts) :
      StoreFile)

omit [Crypto] in
/-- The order of the model's own tables is one of them. -/
theorem writes_tryToBytes {s : MailboxStore} {bytes : List UInt8}
    (h : s.tryToBytes = .ok bytes) : s.Writes bytes :=
  ⟨_, _, List.Perm.refl _, List.Perm.refl _, (Except.ok.inj h).symm⟩

omit [Crypto] in
/-- A traversal order does not matter to what fits. -/
theorem fits_of_perm {α : Type} [Bincode α] {xs ys : List α} (h : xs.Perm ys)
    (hys : Bincode.Fits ys) : Bincode.Fits xs :=
  ⟨h.length_eq ▸ hys.1, fun x hx => hys.2 x (h.mem_iff.mp hx)⟩

/-- Same settings, mail queues and receipts. -/
structure SameContents (s t : MailboxStore) : Prop where
  selfId : s.selfId = t.selfId
  capacity : s.capacityPerRecipient = t.capacityPerRecipient
  queues : ∀ k, s.queues.lookup k = t.queues.lookup k
  receipts : ∀ k, s.receipts.lookup k = t.receipts.lookup k

/-- Each index remembers what is in its queue and nothing else. -/
structure IndexesQueued (s : MailboxStore) : Prop where
  seen : ∀ k, s.seen.get k = ((s.queue k).map StoredEnvelope.messageId).toFinset
  receiptsSeen : ∀ k,
    s.receiptsSeen.get k = ((s.post k).queue.map Receipt.dedupKey).toFinset

theorem indexesQueued_rebuild (selfId : NodeId) (queues : Table String (List StoredEnvelope))
    (capacity : UInt64) (receipts : Table String (List Receipt)) :
    IndexesQueued (.rebuild selfId queues capacity receipts) :=
  ⟨get_rebuildSeen queues, get_rebuildSeen receipts⟩

/-- **What was written is read back**, whatever the traversal order was. -/
theorem fromBytes_of_writes {s : MailboxStore} (hpos : 1 ≤ s.capacityPerRecipient)
    (hfits : Bincode.Fits s.file) {bytes : List UInt8} (h : s.Writes bytes) :
    ∃ s', MailboxStore.fromBytes bytes = .ok s' ∧ SameContents s' s ∧ IndexesQueued s' := by
  obtain ⟨queues, receipts, hqueues, hreceipts, rfl⟩ := h
  obtain ⟨hmagic, hself, hfq, hcap, hfr⟩ := hfits
  have hdec := Bincode.dec_enc_self
    (x := ((storeMagic, s.selfId, queues, s.capacityPerRecipient, receipts) : StoreFile))
    ⟨hmagic, hself, fits_of_perm hqueues hfq, hcap, fits_of_perm hreceipts hfr⟩
  refine ⟨.rebuild s.selfId (.ofPairs queues) s.capacityPerRecipient (.ofPairs receipts), ?_,
    ⟨rfl, max_one_of_pos hpos, Table.lookup_ofPairs_of_perm hqueues,
      Table.lookup_ofPairs_of_perm hreceipts⟩, indexesQueued_rebuild _ _ _ _⟩
  rw [MailboxStore.fromBytes, hdec]
  exact if_pos rfl

/-! ## The format before receipts -/

/-- The bytes of a store of the legacy format. -/
abbrev legacyBytes (selfId : NodeId) (queues : List (String × List StoredEnvelope))
    (capacity : UInt64) : List UInt8 :=
  Bincode.enc ((selfId, queues, capacity) : LegacyStoreFile)

omit [Crypto] in
/-- A short count has four zero bytes behind its low half. -/
theorem leBytes_eight {n : Nat} (h : n < 2 ^ 32) :
    Bincode.leBytes 8 n = Bincode.leBytes 4 n ++ Bincode.leBytes 4 0 := by
  have hhigh : n / 256 ^ 4 = 0 := Nat.div_eq_of_lt h
  rw [Bincode.leBytes_add 4 4, hhigh]

omit [Crypto] in
/-- What the two formats make of the same bytes past the first 40. -/
theorem legacy_tail_eq {selfId selfId' : NodeId} {queues qs : List (String × List StoredEnvelope)}
    {capacity capacity' : UInt64} {magic : UInt32} {rs : List (String × List Receipt)}
    {rest : List UInt8} (hsize : (legacyBytes selfId queues capacity).length < 2 ^ 32)
    (h : legacyBytes selfId queues capacity
      = Bincode.enc ((magic, selfId', qs, capacity', rs) : StoreFile) ++ rest) :
    queues.flatMap Bincode.enc ++ Bincode.enc capacity
      = Bincode.leBytes 4 0 ++ (qs.flatMap Bincode.enc
        ++ (Bincode.enc capacity' ++ Bincode.enc rs ++ rest)) := by
  have hcount := Bincode.length_le_length_flatMap queues
  have hcount' := Bincode.length_le_length_flatMap qs
  -- the fields of both readings, one after the other
  have hlegacy : legacyBytes selfId queues capacity
      = selfId.val ++ (Bincode.enc queues ++ Bincode.enc capacity) := rfl
  have hcurrent : Bincode.enc ((magic, selfId', qs, capacity', rs) : StoreFile) ++ rest
      = Bincode.leBytes 4 magic.toNat ++ (selfId'.val ++ (Bincode.enc qs
        ++ (Bincode.enc capacity' ++ Bincode.enc rs))) ++ rest := rfl
  have hlen := congrArg List.length h
  rw [hcurrent] at hlen h
  rw [hlegacy] at hsize hlen h
  simp only [List.length_append, Bincode.length_enc_list] at hsize hlen
  -- neither count reaches 2^32, so both have four zero bytes in front of the first queue
  have hn : queues.length < 2 ^ 32 := by omega
  have hm : qs.length < 2 ^ 32 := by omega
  rw [Bincode.enc_list (Nat.lt_trans hn (by decide)), leBytes_eight hn,
    Bincode.enc_list (Nat.lt_trans hm (by decide)), leBytes_eight hm] at h
  have hsplit : (selfId.val ++ Bincode.leBytes 4 queues.length)
        ++ (Bincode.leBytes 4 0 ++ (queues.flatMap Bincode.enc ++ Bincode.enc capacity))
      = (Bincode.leBytes 4 magic.toNat ++ selfId'.val)
        ++ (Bincode.leBytes 4 qs.length ++ (Bincode.leBytes 4 0 ++ (qs.flatMap Bincode.enc
          ++ (Bincode.enc capacity' ++ Bincode.enc rs ++ rest)))) := by
    simpa only [List.append_assoc] using h
  have hlen36 : (selfId.val ++ Bincode.leBytes 4 queues.length).length
      = (Bincode.leBytes 4 magic.toNat ++ selfId'.val).length := by
    rw [List.length_append, List.length_append, selfId.property, selfId'.property,
      Bincode.length_leBytes, Bincode.length_leBytes]
  have htail := (List.append_inj hsplit hlen36).2
  exact (List.append_inj htail (by simp)).2

omit [Crypto] in
/--
**A file of the legacy format is none of the current one**, whatever the id in front is.
Four bytes out of step, the length of the first key is a count of queues in the high half.
-/
theorem dec_legacyBytes {selfId : NodeId} {queues : List (String × List StoredEnvelope)}
    {capacity : UInt64} (hkeys : ∀ entry ∈ queues, entry.1 ≠ "")
    (hsize : (legacyBytes selfId queues capacity).length < 2 ^ 32) :
    (Bincode.dec (legacyBytes selfId queues capacity) : Option (StoreFile × List UInt8))
      = none := by
  cases hdec : (Bincode.dec (legacyBytes selfId queues capacity) :
      Option (StoreFile × List UInt8)) with
  | none => rfl
  | some p =>
      exfalso
      obtain ⟨⟨magic, selfId', qs, capacity', rs⟩, rest⟩ := p
      have htail := legacy_tail_eq hsize (Bincode.Canonical.exact hdec)
      cases queues with
      | nil =>
          -- eight bytes of capacity are too few for a capacity and a count of receipts
          have hlen := congrArg List.length htail
          have hcap : ∀ c : UInt64, (Bincode.enc c).length = 8 := fun c =>
            Bincode.length_leBytes 8 _
          simp only [List.length_append, Bincode.length_enc_list, Bincode.length_leBytes, hcap,
            List.flatMap_nil, List.length_nil] at hlen
          omega
      | cons entry queues =>
          obtain ⟨k, items⟩ := entry
          have hk : k ≠ "" := hkeys _ List.mem_cons_self
          have henc : Bincode.enc (k, items) = Bincode.enc k.toUTF8.data.toList
              ++ Bincode.enc items := rfl
          have hlegacy : (legacyBytes selfId ((k, items) :: queues) capacity).length
              = (selfId.val ++ (Bincode.enc ((k, items) :: queues)
                ++ Bincode.enc capacity)).length := rfl
          have hbytes : k.toUTF8.data.toList.length = k.utf8ByteSize := Array.length_toList
          have hcount := Bincode.length_le_length_flatMap k.toUTF8.data.toList
          rw [hlegacy] at hsize
          simp only [List.length_append, Bincode.length_enc_list, List.flatMap_cons, henc] at hsize
          have hshort : k.toUTF8.data.toList.length < 2 ^ 32 := by omega
          rw [List.flatMap_cons, henc, Bincode.enc_list (Nat.lt_trans hshort (by decide)),
            leBytes_eight hshort] at htail
          simp only [List.append_assoc] at htail
          have hlow := congrArg Bincode.ofLE (List.append_inj htail (by simp)).1
          rw [Bincode.ofLE_leBytes 4 _ hshort, Bincode.ofLE_leBytes 4 0 (by decide), hbytes] at hlow
          exact hk (String.utf8ByteSize_eq_zero_iff.mp hlow)

/-- **A legacy file is read as what it is.** -/
theorem fromBytes_legacyBytes {selfId : NodeId} {table : Table String (List StoredEnvelope)}
    {queues : List (String × List StoredEnvelope)} {capacity : UInt64}
    (hqueues : queues.Perm table.pairs) (hkeys : ∀ k ∈ table, k ≠ "")
    (hsize : (legacyBytes selfId queues capacity).length < 2 ^ 32) :
    ∃ s, MailboxStore.fromBytes (legacyBytes selfId queues capacity) = .ok s
      ∧ s.selfId = selfId ∧ s.capacityPerRecipient = max capacity 1
      ∧ (∀ k, s.queues.lookup k = table.lookup k) ∧ s.receipts = ∅ ∧ IndexesQueued s := by
  have hkeys' : ∀ entry ∈ queues, entry.1 ≠ "" := by
    intro entry hentry
    refine hkeys _ (AList.lookup_isSome.mp ?_)
    rw [Table.mem_pairs.mp (hqueues.mem_iff.mp hentry)]
    rfl
  have hdec := Bincode.dec_enc_self (x := ((selfId, queues, capacity) : LegacyStoreFile))
    (Bincode.Canonical.fits _ (Nat.lt_trans hsize (by decide)))
  refine ⟨.rebuild selfId (.ofPairs queues) capacity ∅, ?_, rfl, rfl,
    Table.lookup_ofPairs_of_perm hqueues, rfl, indexesQueued_rebuild _ _ _ _⟩
  rw [MailboxStore.fromBytes, dec_legacyBytes hkeys' hsize]
  simp only [MailboxStore.fromBytes.legacy, hdec]

/--
**Store file format, both versions.** The bytes of a reachable store, written in any
traversal order, are read as a store with the same settings, queues and receipts, whose
indexes remember what is queued and nothing else. The bytes of a store of the legacy
format with no empty key and fewer than 2^32 of them are read as its queues, its capacity
or 1, and no receipts; whatever the node's id is.
-/
theorem storeFormat :
    (∀ s, Reachable s → Bincode.Fits s.file → ∀ bytes, s.Writes bytes →
        ∃ s', MailboxStore.fromBytes bytes = .ok s' ∧ SameContents s' s ∧ IndexesQueued s')
      ∧ ∀ (selfId : NodeId) (table : Table String (List StoredEnvelope)) (capacity : UInt64)
          (queues : List (String × List StoredEnvelope)),
        queues.Perm table.pairs → (∀ k ∈ table, k ≠ "") →
        (legacyBytes selfId queues capacity).length < 2 ^ 32 →
          ∃ s, MailboxStore.fromBytes (legacyBytes selfId queues capacity) = .ok s
            ∧ s.selfId = selfId ∧ s.capacityPerRecipient = max capacity 1
            ∧ (∀ k, s.queues.lookup k = table.lookup k) ∧ s.receipts = ∅ ∧ IndexesQueued s :=
  ⟨fun _ h hfits _ hbytes => fromBytes_of_writes h.capacity_pos hfits hbytes,
    fun _ _ _ _ hqueues hkeys hsize => fromBytes_legacyBytes hqueues hkeys hsize⟩

end Crypto

namespace Sample

/-- An id that begins as a file of the current format does. -/
def magicId : NodeId := bytes 32 (0x324d4543 * 256 ^ 28)

/-- The first envelope in the recipient's queue. -/
def oneQueue : Table String (List StoredEnvelope) := .ofPairs [(recipient.hex, [⟨first, 1⟩])]

end Sample

/-- A legacy file that starts with the magic of the current format, and its one queue. -/
theorem storeFormat_sample :
    ∃ s, @MailboxStore.fromBytes Sample.crypto
        (legacyBytes Sample.magicId Sample.oneQueue.pairs 0) = .ok s
      ∧ s.capacityPerRecipient = 1
      ∧ s.queues.lookup Sample.recipient.hex = some [⟨Sample.first, 1⟩] := by
  obtain ⟨s, hs, -, hcap, hqueues, -⟩ := (@storeFormat Sample.crypto).2 Sample.magicId
    Sample.oneQueue 0 Sample.oneQueue.pairs (List.Perm.refl _) (by decide +kernel)
    (by decide +kernel)
  refine ⟨s, hs, ?_, ?_⟩
  · rw [hcap]
    decide
  · rw [hqueues]
    decide +kernel

end CeMail
