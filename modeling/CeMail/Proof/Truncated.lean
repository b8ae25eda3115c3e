import CeMail.Proof.StoreFormat

/-!
# A truncated store file

No proper start of a store's file is one of the current format. It is then tried as one of
the format before receipts, in which bytes may be left over, so what decides is whether a
legacy file stands at the front of the whole file. The two formats are four bytes out of
step: the count of queues is the last four bytes of the node's id and the low half of the
real count. In a file of less than 2^32 bytes only a count of 0 can be followed by as many
queues, and then whatever comes next will do as a capacity.
-/

namespace CeMail

section Canonical

variable {α : Type} [Bincode α] [Bincode.Canonical α] {bs : List UInt8}

/-- Some proper start of the bytes is read exactly when a value stands at their front. -/
theorem exists_start_read_iff (hlen : bs.length < 2 ^ 64) :
    (∃ p, p <+: bs ∧ p ≠ bs ∧ ∃ r, (Bincode.dec p : Option (α × List UInt8)) = some r)
      ↔ ∃ x : α, Bincode.enc x <+: bs ∧ Bincode.enc x ≠ bs := by
  refine ⟨?_, ?_⟩
  · intro h
    obtain ⟨p, hp, hne, ⟨x, rest⟩, hdec⟩ := h
    have hx : Bincode.enc x <+: p := ⟨rest, (Bincode.Canonical.exact hdec).symm⟩
    refine ⟨x, hx.trans hp, ?_⟩
    intro heq
    -- the value would fill the bytes, and the start with them
    exact hne (hp.eq_of_length_le (heq ▸ hx.length_le))
  · intro h
    obtain ⟨x, hx, hne⟩ := h
    have hfits := Bincode.Canonical.fits x (Nat.lt_of_le_of_lt hx.length_le hlen)
    exact ⟨Bincode.enc x, hx, hne, _, Bincode.dec_enc_self hfits⟩

end Canonical

/-- A legacy file stands at the front of the bytes, with something left over. -/
def StartsAsLegacy (bs : List UInt8) : Prop :=
  ∃ y : LegacyStoreFile, Bincode.enc y <+: bs ∧ Bincode.enc y ≠ bs

/-! ## The two formats side by side -/

section Front

variable {selfId : NodeId} {queues : List (String × List StoredEnvelope)} {capacity : UInt64}
  {receipts : List (String × List Receipt)}

/-- A count below 2^32 has four zero bytes in its high half. -/
theorem enc_short_list {α : Type} [Bincode α] {xs : List α} (h : xs.length < 2 ^ 32) :
    Bincode.enc xs = Bincode.leBytes 4 xs.length
      ++ (Bincode.leBytes 4 0 ++ xs.flatMap Bincode.enc) := by
  rw [Bincode.enc_list (Nat.lt_trans h (by decide)), leBytes_eight h, List.append_assoc]

theorem enc_uint64 (n : UInt64) : Bincode.enc n = Bincode.leBytes 4 n.toNat
    ++ Bincode.leBytes 4 (n.toNat / 2 ^ 32) := Bincode.leBytes_add 4 4 n.toNat

theorem eq_of_leBytes_four {n m : Nat} (hn : n < 2 ^ 32) (hm : m < 2 ^ 32)
    (h : Bincode.leBytes 4 n = Bincode.leBytes 4 m) : n = m := by
  have hof := congrArg Bincode.ofLE h
  rwa [Bincode.ofLE_leBytes 4 n hn, Bincode.ofLE_leBytes 4 m hm] at hof

/-- Two short lists at the front of one string of bytes, both of whose counts are cut in half. -/
theorem split_four {n m : Nat} {xs ys : List UInt8}
    (h : Bincode.leBytes 4 n ++ xs = Bincode.leBytes 4 m ++ ys) :
    Bincode.leBytes 4 n = Bincode.leBytes 4 m ∧ xs = ys :=
  List.append_inj h (by rw [Bincode.length_leBytes, Bincode.length_leBytes])

/-- The file of a store, field by field. -/
theorem enc_storeFile :
    Bincode.enc ((storeMagic, selfId, queues, capacity, receipts) : StoreFile)
      = (Bincode.leBytes 4 storeMagic.toNat ++ selfId.val.take 28) ++ (selfId.val.drop 28
        ++ (Bincode.enc queues ++ (Bincode.enc capacity ++ Bincode.enc receipts))) := by
  have hself : selfId.val.take 28 ++ selfId.val.drop 28 = selfId.val := List.take_append_drop 28 _
  show Bincode.leBytes 4 storeMagic.toNat ++ (selfId.val ++ (Bincode.enc queues
    ++ (Bincode.enc capacity ++ Bincode.enc receipts))) = _
  rw [List.append_assoc, ← List.append_assoc (selfId.val.take 28), hself]

theorem length_id_front :
    (Bincode.leBytes 4 storeMagic.toNat ++ selfId.val.take 28).length = 32 := by
  rw [List.length_append, Bincode.length_leBytes, List.length_take, selfId.property]
  decide

omit selfId queues in
/--
Behind a count of queues that is not 0, what is left of an empty store is none: its first key
would be empty, its first queue not, and four bytes remain for the envelopes in it.
-/
theorem no_legacy_queue (hpos : 1 ≤ capacity) {k : String} {items : List StoredEnvelope}
    {more : List UInt8} (hsize : (Bincode.enc receipts).length < 2 ^ 32 - 16)
    (h : Bincode.enc (k, items) ++ more
      = Bincode.leBytes 4 0 ++ (Bincode.enc capacity ++ Bincode.enc receipts)) : False := by
  have henc : Bincode.enc (k, items) = Bincode.enc k.toUTF8.data.toList ++ Bincode.enc items := rfl
  have hlen := congrArg List.length h
  have hk := Bincode.length_le_length_flatMap k.toUTF8.data.toList
  have hitems := Bincode.length_le_length_flatMap items
  have hreceipts := Bincode.length_le_length_flatMap receipts
  have hcap : (Bincode.enc capacity).length = 8 := Bincode.length_leBytes 8 _
  have hcapacity : capacity.toNat / 2 ^ 32 < 2 ^ 32 := by
    have := capacity.toNat_lt
    omega
  rw [henc] at h hlen
  simp only [List.length_append, Bincode.length_enc_list, Bincode.length_leBytes, hcap]
    at hsize hlen
  have hkey : k.toUTF8.data.toList.length < 2 ^ 32 := by omega
  have hshort : items.length < 2 ^ 32 ∧ receipts.length < 2 ^ 32 := by omega
  rw [enc_short_list hkey, enc_short_list hshort.1, enc_short_list hshort.2, enc_uint64] at h
  simp only [List.append_assoc] at h
  -- the key is empty, and the low half of the capacity is 0
  obtain ⟨hkey, h⟩ := split_four h
  have hempty : k.toUTF8.data.toList = [] :=
    List.length_eq_zero_iff.mp (eq_of_leBytes_four (by omega) (by decide) hkey)
  rw [hempty, List.flatMap_nil, List.nil_append] at h
  obtain ⟨hlow, h⟩ := split_four h
  obtain ⟨hhigh, h⟩ := split_four h
  obtain ⟨hcount, h⟩ := split_four h
  have hitemsCount := eq_of_leBytes_four (by omega) hcapacity hhigh
  have hreceiptsCount := eq_of_leBytes_four (by decide) (by omega) hcount
  rw [List.length_eq_zero_iff.mp hreceiptsCount.symm] at h
  cases items with
  | nil =>
      -- then the high half of the capacity is 0 as well
      have hsmall : capacity.toNat < 2 ^ 32 := by
        rw [List.length_nil] at hitemsCount
        omega
      have hzero := eq_of_leBytes_four (by decide) hsmall hlow
      have hpos' : 1 ≤ capacity.toNat := hpos
      omega
  | cons x items =>
      have hx : (Bincode.enc x).length
          = (Bincode.enc x.envelope).length + (Bincode.enc x.storedAt).length :=
        List.length_append
      have hstored : (Bincode.enc x.storedAt).length = 8 := Bincode.length_leBytes 8 _
      have hfour := congrArg List.length h
      simp only [List.flatMap_cons, List.flatMap_nil, List.length_append, Bincode.length_leBytes,
        List.length_nil] at hfour
      omega

/-- **A short file that is read as a legacy one has no queues** and an id that ends in zeros. -/
theorem of_startsAsLegacy (hpos : 1 ≤ capacity)
    (hsize : (Bincode.enc ((storeMagic, selfId, queues, capacity, receipts) : StoreFile)).length
      < 2 ^ 32)
    (h : StartsAsLegacy
      (Bincode.enc ((storeMagic, selfId, queues, capacity, receipts) : StoreFile))) :
    selfId.val.drop 28 = Bincode.leBytes 4 0 ∧ queues = [] := by
  obtain ⟨⟨selfId', qs, capacity'⟩, ⟨rest, hstart⟩, -⟩ := h
  rw [enc_storeFile] at hsize hstart
  have hlegacy : Bincode.enc ((selfId', qs, capacity') : LegacyStoreFile)
      = selfId'.val ++ (Bincode.enc qs ++ Bincode.enc capacity') := rfl
  rw [hlegacy, List.append_assoc] at hstart
  -- past the ids
  have htail := (List.append_inj hstart (selfId'.property.trans length_id_front.symm)).2
  have hlen := congrArg List.length htail
  have hcount := Bincode.length_le_length_flatMap queues
  have hcount' := Bincode.length_le_length_flatMap qs
  simp only [List.length_append, Bincode.length_enc_list] at hsize hlen
  have hn : queues.length < 2 ^ 32 := by omega
  have hm : qs.length < 2 ^ 32 := by omega
  rw [enc_short_list hn, enc_short_list hm] at htail
  simp only [List.append_assoc] at htail
  have hdrop : (Bincode.leBytes 4 qs.length).length = (selfId.val.drop 28).length := by
    rw [Bincode.length_leBytes, List.length_drop, selfId.property]
  obtain ⟨hid, htail⟩ := List.append_inj htail hdrop
  obtain ⟨hzero, htail⟩ := split_four htail
  have hqueues : queues = [] :=
    List.length_eq_zero_iff.mp (eq_of_leBytes_four (by decide) hn hzero).symm
  subst hqueues
  rw [List.flatMap_nil, List.nil_append] at htail
  cases qs with
  | nil => exact ⟨hid.symm, rfl⟩
  | cons entry qs =>
      rw [List.flatMap_cons, List.append_assoc] at htail
      refine (no_legacy_queue hpos ?_ htail).elim
      have hcap : (Bincode.enc capacity).length = 8 := Bincode.length_leBytes 8 _
      simp only [Bincode.length_leBytes, List.length_take, selfId.property] at hsize
      rw [Bincode.length_enc_list]
      omega

/--
What the file of a store without queues is read as if its id ends in zeros: a store of
another node, with the low half of the capacity for the high half of its own.
-/
def misread (selfId : NodeId) (capacity : UInt64) : LegacyStoreFile :=
  (⟨Bincode.leBytes 4 storeMagic.toNat ++ selfId.val.take 28, length_id_front⟩, [],
    .ofNat (Bincode.ofLE (Bincode.leBytes 4 0 ++ Bincode.leBytes 4 capacity.toNat)))

theorem enc_misread : Bincode.enc (misread selfId capacity)
    = (Bincode.leBytes 4 storeMagic.toNat ++ selfId.val.take 28) ++ (Bincode.leBytes 4 0
      ++ (Bincode.leBytes 4 0 ++ (Bincode.leBytes 4 0 ++ Bincode.leBytes 4 capacity.toNat))) := by
  have hlen : (Bincode.leBytes 4 0 ++ Bincode.leBytes 4 capacity.toNat).length = 8 := by
    rw [List.length_append, Bincode.length_leBytes, Bincode.length_leBytes]
  have hlt := Bincode.ofLE_lt (Bincode.leBytes 4 0 ++ Bincode.leBytes 4 capacity.toNat)
  have hback := Bincode.leBytes_ofLE (Bincode.leBytes 4 0 ++ Bincode.leBytes 4 capacity.toNat)
  rw [hlen] at hlt hback
  have hcapacity : Bincode.enc (misread selfId capacity).2.2
      = Bincode.leBytes 4 0 ++ Bincode.leBytes 4 capacity.toNat := by
    show Bincode.leBytes 8 (UInt64.ofNat _).toNat = _
    rw [UInt64.toNat_ofNat_of_lt' hlt, hback]
  show _ ++ (Bincode.leBytes 8 0 ++ Bincode.enc (misread selfId capacity).2.2) = _
  rw [hcapacity]
  rfl

/-- **An id that ends in zeros makes a legacy file of an empty store's**, whatever its size. -/
theorem startsAsLegacy_of_zeros (h : selfId.val.drop 28 = Bincode.leBytes 4 0) :
    StartsAsLegacy (Bincode.enc ((storeMagic, selfId, [], capacity, receipts) : StoreFile)) := by
  have hnone : Bincode.enc ([] : List (String × List StoredEnvelope))
      = Bincode.leBytes 4 0 ++ Bincode.leBytes 4 0 := rfl
  have hfile : Bincode.enc ((storeMagic, selfId, [], capacity, receipts) : StoreFile)
      = Bincode.enc (misread selfId capacity)
        ++ (Bincode.leBytes 4 (capacity.toNat / 2 ^ 32) ++ Bincode.enc receipts) := by
    rw [enc_storeFile, enc_misread, h, hnone, enc_uint64]
    simp only [List.append_assoc]
  refine ⟨misread selfId capacity, ⟨_, hfile.symm⟩, ?_⟩
  intro heq
  have hall := congrArg List.length (heq.trans hfile)
  simp only [List.length_append, Bincode.length_leBytes] at hall
  omega

end Front

/-! ## Every start of a file -/

section Crypto

variable [Crypto] {s : MailboxStore} {bytes : List UInt8}

/-- A proper start of a store's file is read as a legacy file if at all. -/
theorem fromBytes_start (hw : s.Writes bytes) (hlen : bytes.length < 2 ^ 64) {p : List UInt8}
    (hp : p <+: bytes) (hne : p ≠ bytes) :
    (∃ m, MailboxStore.fromBytes p = .error m)
      ↔ ¬∃ r, (Bincode.dec p : Option (LegacyStoreFile × List UInt8)) = some r := by
  obtain ⟨queues, receipts, -, -, rfl⟩ := hw
  have hnone : (Bincode.dec p : Option (StoreFile × List UInt8)) = none :=
    Bincode.dec_proper_start (Bincode.Canonical.fits _ hlen) hp hne
  have hlegacy : MailboxStore.fromBytes p = MailboxStore.fromBytes.legacy p := by
    rw [MailboxStore.fromBytes, hnone]
  rw [hlegacy, MailboxStore.fromBytes.legacy]
  cases hdec : (Bincode.dec p : Option (LegacyStoreFile × List UInt8)) with
  | none => exact iff_of_true ⟨_, rfl⟩ fun h => by cases h.choose_spec
  | some r =>
      refine iff_of_false ?_ fun h => h ⟨r, rfl⟩
      intro h
      obtain ⟨m, h⟩ := h
      cases h

/-- All of them are refused unless a legacy file stands at the front of the whole. -/
theorem starts_refused_iff (hw : s.Writes bytes) (hlen : bytes.length < 2 ^ 64) :
    (∀ p, p <+: bytes → p ≠ bytes → ∃ m, MailboxStore.fromBytes p = .error m)
      ↔ ¬StartsAsLegacy bytes := by
  rw [StartsAsLegacy, ← exists_start_read_iff hlen]
  refine ⟨?_, ?_⟩
  · intro h hread
    obtain ⟨p, hp, hne, hdec⟩ := hread
    exact (fromBytes_start hw hlen hp hne).mp (h p hp hne) hdec
  · intro h p hp hne
    exact (fromBytes_start hw hlen hp hne).mpr fun hdec => h ⟨p, hp, hne, hdec⟩

/-- The node's id ends in four zero bytes, and there is no queue. -/
def MailboxStore.Misleads (s : MailboxStore) : Prop :=
  s.selfId.val.drop 28 = [0, 0, 0, 0] ∧ s.queues.pairs = []

omit [Crypto] in
theorem startsAsLegacy_of_misleads (hw : s.Writes bytes) (h : s.Misleads) :
    StartsAsLegacy bytes := by
  obtain ⟨queues, receipts, hqueues, -, rfl⟩ := hw
  obtain ⟨hid, hnone⟩ := h
  rw [hnone] at hqueues
  obtain rfl := hqueues.eq_nil
  exact startsAsLegacy_of_zeros hid

/-- In less than 2^32 bytes there is no other legacy file. -/
theorem misleads_of_startsAsLegacy (h : Reachable s) (hw : s.Writes bytes)
    (hsize : bytes.length < 2 ^ 32) (hstarts : StartsAsLegacy bytes) : s.Misleads := by
  obtain ⟨queues, receipts, hqueues, -, rfl⟩ := hw
  obtain ⟨hid, rfl⟩ := of_startsAsLegacy h.capacity_pos hsize hstarts
  exact ⟨hid, hqueues.nil_eq.symm⟩

/--
**When a truncated store file is refused.** The file of a reachable store, written in any
traversal order, has no proper start that is read as a store, exactly when the node's id
does not end in four zero bytes or there is a queue; and, for a file of 2^32 bytes and more,
no legacy file happens to stand at its front. (A file is read into memory, so it has less
than 2^64 bytes.)
-/
theorem truncated_refused_iff (s : MailboxStore) (h : Reachable s) (bytes : List UInt8)
    (hw : s.Writes bytes) (hlen : bytes.length < 2 ^ 64) :
    ((∀ p, p <+: bytes → p ≠ bytes → ∃ m, MailboxStore.fromBytes p = .error m)
      ↔ ¬(s.selfId.val.drop 28 = [0, 0, 0, 0] ∧ s.queues.pairs = [])
        ∧ (2 ^ 32 ≤ bytes.length → ¬StartsAsLegacy bytes))
      ∧ (bytes.length < 2 ^ 32 →
        ((∀ p, p <+: bytes → p ≠ bytes → ∃ m, MailboxStore.fromBytes p = .error m)
          ↔ ¬(s.selfId.val.drop 28 = [0, 0, 0, 0] ∧ s.queues.pairs = []))) := by
  rw [starts_refused_iff hw hlen]
  have hmisled := startsAsLegacy_of_misleads hw
  have hsmall := misleads_of_startsAsLegacy h hw
  refine ⟨⟨?_, ?_⟩, ?_⟩
  · intro hnot
    exact ⟨fun hmisleads => hnot (hmisled hmisleads), fun _ => hnot⟩
  · intro hnot hstarts
    obtain ⟨hid, hlarge⟩ := hnot
    rcases Nat.lt_or_ge bytes.length (2 ^ 32) with hsize | hsize
    · exact hid (hsmall hsize hstarts)
    · exact hlarge hsize hstarts
  · intro hsize
    exact not_congr ⟨hsmall hsize, hmisled⟩

end Crypto

namespace Sample

/-- A public key whose last four bytes are zero. -/
def zeroEnded : NodeId :=
  bytes 32 0xaace07277898cf395c38648c29c75ca915a3bc723e2af4f69682ae1f00000000

/-- The first 48 of the 60 bytes of a new store of that node. -/
def truncated : List UInt8 := (Bincode.enc (MailboxStore.new zeroEnded 1000).file).take 48

end Sample

/-- A new store's file that was cut off within the capacity. -/
theorem truncated_refused_iff_sample :
    ∃ m, @MailboxStore.fromBytes Sample.crypto
      ((Bincode.enc (MailboxStore.new Sample.mailbox 2).file).take 48) = .error m := by
  have hlen : (Bincode.enc (MailboxStore.new Sample.mailbox 2).file).length = 60 := by
    decide +kernel
  refine ((@truncated_refused_iff Sample.crypto (.new Sample.mailbox 2)
    (@Reachable.new Sample.crypto Sample.mailbox 2) _ (writes_tryToBytes rfl)
    (by rw [hlen]; decide)).2 (by rw [hlen]; decide)).mpr ?_ _ (List.take_prefix 48 _) ?_
  · intro h
    exact absurd h.1 (by decide)
  · intro heq
    have hcut := congrArg List.length heq
    rw [List.length_take, hlen] at hcut
    omega

/-- A store that was cut off is read as that of another node, with another capacity. -/
theorem truncated_store_is_loaded :
    Sample.truncated <+: Bincode.enc (MailboxStore.new Sample.zeroEnded 1000).file
      ∧ Sample.truncated ≠ Bincode.enc (MailboxStore.new Sample.zeroEnded 1000).file
      ∧ (@MailboxStore.fromBytes Sample.crypto Sample.truncated).map
          (fun s => (decide (s.selfId = Sample.zeroEnded), s.capacityPerRecipient))
        = .ok (false, 4294967296000) := by
  refine ⟨List.take_prefix 48 _, ?_, ?_⟩
  · decide +kernel
  · decide +kernel

end CeMail
