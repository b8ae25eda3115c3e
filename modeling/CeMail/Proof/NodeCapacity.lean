import CeMail.Proof.ServiceRun

/-!
# Capacity per node

The capacity of a mailbox bounds every queue, and a node has a queue for each spelling of
its id. What is kept for one node in all is within the capacity only as long as nothing is
stored for it under one spelling while the mailbox is full for it under others.
-/

namespace CeMail

/-! ## One node in a table of queues -/

/-- How much a queue counts for a node: its length, when its key parses to the node. -/
def weight {α : Type} (owner : NodeId) (k : String) (q : List α) : Nat :=
  if parseNodeId k = .ok owner then q.length else 0

/-- How many stored envelopes have a `to` that parses to the node. -/
def heldFor (s : MailboxStore) (owner : NodeId) : Nat :=
  Table.total (fun _ q => q.countP fun x => parseNodeId x.envelope.body.to = .ok owner) s.queues

/-- How many stored receipts are under a key that parses to the node. -/
def receiptsHeldFor (s : MailboxStore) (owner : NodeId) : Nat :=
  Table.total (weight owner) s.receipts

section Table

variable {α : Type} {owner : NodeId} {k : String} {t t' : Table String (List α)} {capacity : Nat}

theorem weight_default (k : String) : weight owner k (default : List α) = 0 := ite_self 0

theorem weight_of_parse (h : parseNodeId k = .ok owner) (q : List α) :
    weight owner k q = q.length := if_pos h

theorem weight_of_not_parse (h : parseNodeId k ≠ .ok owner) (q : List α) :
    weight owner k q = 0 := if_neg h

theorem weight_eq_zero {q : List α} :
    weight owner k q = 0 ↔ (parseNodeId k = .ok owner → q = []) := by
  rw [weight]
  split
  · rename_i h
    exact List.length_eq_zero_iff.trans ⟨fun hq _ => hq, fun hq => hq h⟩
  · rename_i h
    exact iff_of_true rfl fun hk => absurd hk h

/-- Nothing for the node waits under another spelling than `k`. -/
def OnlyUnder (owner : NodeId) (t : Table String (List α)) (k : String) : Prop :=
  ∀ k' ≠ k, parseNodeId k' = .ok owner → t.get k' = []

/-- An item more under one key stays within capacity if that is all there is, or there is room. -/
theorem total_le_iff (hk : parseNodeId k = .ok owner) (hrest : ∀ k' ≠ k, t'.get k' = t.get k')
    (hlen : (t'.get k).length = min ((t.get k).length + 1) capacity)
    (hle : Table.total (weight owner) t ≤ capacity) :
    Table.total (weight owner) t' ≤ capacity ↔
      OnlyUnder owner t k ∨ Table.total (weight owner) t < capacity := by
  obtain ⟨rest, ht, ht', hzero⟩ := Table.exists_total_eq_add weight_default k hrest
  rw [weight_of_parse hk] at ht ht'
  have honly : OnlyUnder owner t k ↔ rest = 0 := by
    rw [hzero]
    exact forall₂_congr fun k' _ => weight_eq_zero.symm
  rw [honly, ht', hlen]
  omega

/--
**One step of a table of queues**: with `Puts` the keys under which it stores, of which
there is at most one, the table stays within capacity for a node exactly when storing
under a spelling of the node finds nothing under the others, or finds room.
-/
theorem total_step_iff {Puts : String → Prop}
    (hstep : (∃ k, (∀ k', Puts k' ↔ k' = k) ∧ (∀ k' ≠ k, t'.get k' = t.get k')
        ∧ (t'.get k).length = min ((t.get k).length + 1) capacity)
      ∨ (∀ k, ¬Puts k) ∧ ∀ k, (t'.get k).length ≤ (t.get k).length)
    (hle : Table.total (weight owner) t ≤ capacity) :
    Table.total (weight owner) t' ≤ capacity ↔
      ∀ k, Puts k → parseNodeId k = .ok owner →
        OnlyUnder owner t k ∨ Table.total (weight owner) t < capacity := by
  rcases hstep with ⟨k, hputs, hrest, hlen⟩ | ⟨hnone, hshrink⟩
  · simp only [hputs, forall_eq]
    by_cases hk : parseNodeId k = .ok owner
    · rw [total_le_iff hk hrest hlen hle]
      exact ⟨fun h _ => h, fun h => h hk⟩
    · -- the key is no spelling of the node, so nothing changed for it
      obtain ⟨rest, ht, ht', -⟩ := Table.exists_total_eq_add weight_default k hrest
      rw [weight_of_not_parse hk] at ht ht'
      refine iff_of_true ?_ fun h => absurd h hk
      omega
  · refine iff_of_true (Nat.le_trans ?_ hle) fun k hk => absurd hk (hnone k)
    refine Table.total_le_total weight_default ?_
    intro k
    rw [weight, weight]
    split
    · exact hshrink k
    · exact Nat.le_refl 0

/-- A deposit makes a queue one longer, up to the capacity. -/
theorem length_deposit {ι : Type} [DecidableEq ι] {key : α → ι} {s : Slot ι α} {x : α}
    (hcap : 0 < capacity) (hle : s.queue.length ≤ capacity) (h : key x ∉ s.seen) :
    (s.deposit capacity key x).1.queue.length = min (s.queue.length + 1) capacity := by
  rw [Slot.queue_deposit hcap h, List.length_append, List.length_drop, List.length_singleton]
  unfold Slot.overflow
  omega

end Table

section Service

variable {Cap : Type} [Crypto] [Iam Cap] {selfId : NodeId} {capacity : UInt64} {limits : Limits}

/-- The envelopes of a node are those under its spellings, since each is under its own `to`. -/
theorem heldFor_eq (calls : List (Call Cap)) (owner : NodeId) :
    heldFor (serviceAfter selfId capacity limits calls).store owner
      = Table.total (weight owner) (serviceAfter selfId capacity limits calls).store.queues := by
  refine Table.total_congr (fun _ => rfl) weight_default ?_
  intro k
  rw [store_serviceAfter]
  have haddr := (kept_after selfId capacity (serviceOps selfId capacity limits calls) k).addressed
  rw [weight]
  split
  · rename_i hk
    refine List.countP_eq_length.mpr ?_
    intro x hx
    rw [(haddr x hx).2.1, hk]
    exact decide_eq_true rfl
  · rename_i hk
    refine List.countP_eq_zero.mpr ?_
    intro x hx
    rw [(haddr x hx).2.1]
    exact fun h => hk (of_decide_eq_true h)

variable (selfId capacity limits)

/-- What is held for a node, envelopes and receipts each, is within capacity all along. -/
def NodeBounded (owner : NodeId) (calls : List (Call Cap)) : Prop :=
  ∀ before, before <+: calls →
    heldFor (serviceAfter selfId capacity limits before).store owner ≤ max capacity.toNat 1
      ∧ receiptsHeldFor (serviceAfter selfId capacity limits before).store owner
        ≤ max capacity.toNat 1

/--
Whenever a request stores something for the node, nothing is held for it under another
spelling, or less than the capacity in all.
-/
def StoresWithinNode (owner : NodeId) (calls : List (Call Cap)) : Prop :=
  ∀ before c later, calls = before ++ c :: later →
    (∀ k, (∃ e, (serviceAfter selfId capacity limits before).Stores c e ∧ e.body.to = k) →
        parseNodeId k = .ok owner →
        OnlyUnder owner (serviceAfter selfId capacity limits before).store.queues k
          ∨ heldFor (serviceAfter selfId capacity limits before).store owner
            < max capacity.toNat 1)
      ∧ ∀ k, (∃ r, (serviceAfter selfId capacity limits before).Posts c k r) →
        parseNodeId k = .ok owner →
        OnlyUnder owner (serviceAfter selfId capacity limits before).store.receipts k
          ∨ receiptsHeldFor (serviceAfter selfId capacity limits before).store owner
            < max capacity.toNat 1

variable {selfId capacity limits}

theorem capacity_serviceAfter (calls : List (Call Cap)) :
    (serviceAfter selfId capacity limits calls).store.capacity = max capacity.toNat 1 := by
  rw [store_serviceAfter, capacity_after]

/-- One request and the envelopes of a node. -/
theorem heldFor_step {calls : List (Call Cap)} {owner : NodeId} (c : Call Cap)
    (hle : heldFor (serviceAfter selfId capacity limits calls).store owner
      ≤ max capacity.toNat 1) :
    heldFor (serviceAfter selfId capacity limits (calls ++ [c])).store owner
        ≤ max capacity.toNat 1 ↔
      ∀ k, (∃ e, (serviceAfter selfId capacity limits calls).Stores c e ∧ e.body.to = k) →
        parseNodeId k = .ok owner →
        OnlyUnder owner (serviceAfter selfId capacity limits calls).store.queues k
          ∨ heldFor (serviceAfter selfId capacity limits calls).store owner
            < max capacity.toNat 1 := by
  rw [heldFor_eq] at hle
  rw [heldFor_eq, heldFor_eq, serviceAfter_concat, ← capacity_serviceAfter calls]
  rw [← capacity_serviceAfter calls] at hle
  refine total_step_iff ?_ hle
  have hpos : 0 < (serviceAfter selfId capacity limits calls).store.capacity :=
    capacity_pos_serviceAfter calls
  rcases (serviceAfter selfId capacity limits calls).mail_step c with ⟨e, hstores, hmail⟩
    | ⟨hnone, hsuffix⟩
  · refine Or.inl ⟨e.body.to, fun k => ⟨?_, ?_⟩, ?_, ?_⟩
    · intro h
      rcases h with ⟨e', hstores', rfl⟩
      rw [hstores.unique hstores']
    · intro heq
      subst heq
      exact ⟨e, hstores, rfl⟩
    · intro k hk
      exact congrArg Slot.queue ((hmail k).trans (if_neg hk))
    · have hkept := kept_after selfId capacity (serviceOps selfId capacity limits calls) e.body.to
      rw [← store_serviceAfter] at hkept
      have hself := congrArg Slot.queue ((hmail e.body.to).trans (if_pos rfl))
      exact (congrArg List.length hself).trans
        (length_deposit hpos hkept.sound.bounded hstores.fresh.2.2)
  · exact Or.inr ⟨fun k ⟨e, h, _⟩ => hnone e h, fun k => (hsuffix k).length_le⟩

/-- One request and the receipts of a node. -/
theorem receiptsHeldFor_step {calls : List (Call Cap)} {owner : NodeId} (c : Call Cap)
    (hle : receiptsHeldFor (serviceAfter selfId capacity limits calls).store owner
      ≤ max capacity.toNat 1) :
    receiptsHeldFor (serviceAfter selfId capacity limits (calls ++ [c])).store owner
        ≤ max capacity.toNat 1 ↔
      ∀ k, (∃ r, (serviceAfter selfId capacity limits calls).Posts c k r) →
        parseNodeId k = .ok owner →
        OnlyUnder owner (serviceAfter selfId capacity limits calls).store.receipts k
          ∨ receiptsHeldFor (serviceAfter selfId capacity limits calls).store owner
            < max capacity.toNat 1 := by
  rw [serviceAfter_concat, ← capacity_serviceAfter calls]
  rw [← capacity_serviceAfter calls] at hle
  refine total_step_iff ?_ hle
  have hpos : 0 < (serviceAfter selfId capacity limits calls).store.capacity :=
    capacity_pos_serviceAfter calls
  rcases (serviceAfter selfId capacity limits calls).post_step c with ⟨k, r, hposts, hpost⟩
    | ⟨hnone, hsuffix⟩
  · refine Or.inl ⟨k, fun k' => ⟨?_, ?_⟩, ?_, ?_⟩
    · intro h
      rcases h with ⟨r', hposts'⟩
      exact (hposts.unique hposts').1
    · intro heq
      subst heq
      exact ⟨r, hposts⟩
    · intro k' hk'
      exact congrArg Slot.queue ((hpost k').trans (if_neg hk'))
    · have hposted := posted_after selfId capacity (serviceOps selfId capacity limits calls) k
      rw [← store_serviceAfter] at hposted
      have hself := congrArg Slot.queue ((hpost k).trans (if_pos rfl))
      exact (congrArg List.length hself).trans
        (length_deposit hpos hposted.sound.bounded hposts.fresh.2.2)
  · exact Or.inr ⟨fun k ⟨r, h⟩ => hnone k r h, fun k => (hsuffix k).length_le⟩

/--
**What is held for a node stays within capacity exactly when every item is stored where
the rest of the node's is, or with room to spare.** Nothing makes the senders keep to
one spelling, so it need not.
-/
theorem nodeBounded_iff (selfId : NodeId) (capacity : UInt64) (limits : Limits) (owner : NodeId)
    (calls : List (Call Cap)) :
    NodeBounded selfId capacity limits owner calls
      ↔ StoresWithinNode selfId capacity limits owner calls := by
  induction calls using List.reverseRecOn with
  | nil =>
      refine iff_of_true ?_ ?_
      · intro before hp
        rw [List.prefix_nil.mp hp]
        exact ⟨Nat.zero_le _, Nat.zero_le _⟩
      · intro before c later hcut
        simp at hcut
  | append_singleton calls c ih =>
      rw [NodeBounded, Machine.forall_prefix_concat, StoresWithinNode, Machine.forall_cut_concat,
        ← NodeBounded, ih, ← StoresWithinNode]
      refine and_congr_right ?_
      intro hstart
      obtain ⟨hheld, hreceipts⟩ := ih.mpr hstart calls List.prefix_rfl
      exact and_congr (heldFor_step c hheld) (receiptsHeldFor_step c hreceipts)

end Service

/-- Two envelopes held for one node at capacity 1, one under each spelling of its id. -/
theorem spellings_exceed_capacity :
    ¬@NodeBounded (NodeId × NodeId) Sample.crypto Sample.iam Sample.mailbox 1 default
      Sample.recipient [Sample.delivery Sample.first, Sample.delivery Sample.shouted] := by
  intro h
  have hheld := (h _ List.prefix_rfl).1
  revert hheld
  decide +kernel

end CeMail
