import CeMail.Proof.Thread

/-!
# Conversations partition the list

Each id of the list is in one conversation, once, whatever the reply links are: the map of
groups holds every message of the de-duplicated list under the one root that following its
links ends in, and sorting neither loses nor adds anything. What is sorted has no two equal
entries, messages by their ids and conversations by their roots, so it is strictly in order.
-/

namespace CeMail

/-- Earlier in a conversation: sent earlier, or at the same time with a smaller id. -/
def Envelope.Before [Crypto] (a b : Envelope) : Prop :=
  a.body.sentAt < b.body.sentAt ∨ a.body.sentAt = b.body.sentAt ∧ a.messageId < b.messageId

/-- Earlier in the inbox: active later, or to the same time with a smaller root. -/
def Conversation.Before (c d : Conversation) : Prop :=
  d.lastActivity < c.lastActivity ∨ c.lastActivity = d.lastActivity ∧ c.root < d.root

/-- What grouping makes of a list of envelopes. -/
structure OrderedPartition [Crypto] (es : List Envelope) (convs : List Conversation) : Prop where
  /-- Every id is there exactly once, in all conversations together. -/
  once : ∀ e ∈ es, ((convs.flatMap Conversation.messages).map Envelope.messageId).count
    e.messageId = 1
  /-- There is nothing else. -/
  only : ∀ c ∈ convs, ∀ m ∈ c.messages, m ∈ es
  nonempty : ∀ c ∈ convs, c.messages ≠ []
  roots : (convs.map Conversation.root).Nodup
  root : ∀ c ∈ convs, ∀ m ∈ c.messages, resolveRoot m.messageId (parentMap (dedup es)) = c.root
  messages : ∀ c ∈ convs, c.messages.Pairwise Envelope.Before
  lastActivity : ∀ c ∈ convs, (∃ m ∈ c.messages, m.body.sentAt = c.lastActivity)
    ∧ ∀ m ∈ c.messages, m.body.sentAt ≤ c.lastActivity
  order : convs.Pairwise Conversation.Before

/-- Two orders one after the other, where the second tells things apart. -/
theorem lt_or_of_isLE_then {α β : Type} [Ord α] [LT α] [Std.LawfulLTOrd α] [Std.LawfulEqOrd α]
    [Ord β] [LT β] [Std.LawfulLTOrd β] [Std.LawfulEqOrd β] {a a' : α} {b b' : β}
    (h : ((compare a a').then (compare b b')).isLE) (hne : b ≠ b') :
    a < a' ∨ a = a' ∧ b < b' := by
  cases hfirst : compare a a' with
  | lt => exact Or.inl (Std.LawfulLTCmp.eq_lt_iff_lt.mp hfirst)
  | gt =>
      rw [hfirst] at h
      cases h
  | eq =>
      rw [hfirst] at h
      refine Or.inr ⟨Std.LawfulEqCmp.eq_of_compare hfirst, ?_⟩
      cases hsecond : compare b b' with
      | lt => exact Std.LawfulLTCmp.eq_lt_iff_lt.mp hsecond
      | eq => exact absurd (Std.LawfulEqCmp.eq_of_compare hsecond) hne
      | gt =>
          rw [hsecond] at h
          cases h

instance lawfulOrderMax_uint64 : Std.LawfulOrderMax UInt64 where
  max_eq_or a b := by
    rw [← UInt64.toNat_inj, ← UInt64.toNat_inj, UInt64.toNat_max]
    omega
  max_le_iff a b c := by
    simp only [UInt64.le_iff_toNat_le, UInt64.toNat_max]
    omega

instance : Std.TransCmp Conversation.byActivity :=
  have : Std.TransCmp fun c d : Conversation => compare d.lastActivity c.lastActivity :=
    @Std.TransCmp.opposite _ (compareOn Conversation.lastActivity) _
  inferInstanceAs (Std.TransCmp (compareLex _ _))

instance [Crypto] : Std.TransCmp Envelope.chronological :=
  inferInstanceAs (Std.TransCmp (compareLex _ _))

section Crypto

variable [Crypto] {es : List Envelope} {convs : List Conversation}

/-- The ids of a conversation are distinct. -/
theorem nodup_messages (h : GroupsInto es convs) {c : Conversation} (hc : c ∈ convs) :
    (c.messages.map Envelope.messageId).Nodup := by
  rw [((mem_of_groupsInto h).mp hc).1]
  refine ((List.mergeSort_perm _ _).map _).nodup_iff.mpr ?_
  exact (nodup_dedupFrom ∅ es).sublist ((List.filter_sublist).map _)

theorem nodup_roots (h : GroupsInto es convs) : (convs.map Conversation.root).Nodup := by
  obtain ⟨groups, hperm, rfl⟩ := h
  have hroots : (groups.map Conversation.ofGroup).map Conversation.root = groups.map Prod.fst := by
    rw [List.map_map]
    rfl
  rw [conversations, ((List.mergeSort_perm _ _).map _).nodup_iff, hroots,
    (hperm.map Prod.fst).nodup_iff]
  exact Table.pairs_fst_nodup _

/-- Two conversations share no id, since an id has one root. -/
theorem nodup_flatMap_messages (h : GroupsInto es convs) :
    ((convs.flatMap Conversation.messages).map Envelope.messageId).Nodup := by
  rw [List.map_flatMap, List.nodup_flatMap]
  refine ⟨fun c hc => nodup_messages h hc, ?_⟩
  refine (List.pairwise_map.mp (nodup_roots h)).imp_of_mem ?_
  intro c d hc hd hne id hid hid'
  obtain ⟨m, hm, rfl⟩ := List.mem_map.mp hid
  obtain ⟨m', hm', heq⟩ := List.mem_map.mp hid'
  refine hne ?_
  rw [← ((mem_messages h hc).mp hm).2, ← ((mem_messages h hd).mp hm').2, heq]

theorem mem_flatMap_messages (h : GroupsInto es convs) {e : Envelope} :
    e ∈ convs.flatMap Conversation.messages ↔ e ∈ dedup es := by
  rw [List.mem_flatMap]
  refine ⟨?_, ?_⟩
  · intro hmem
    obtain ⟨c, hc, hm⟩ := hmem
    exact ((mem_messages h hc).mp hm).1
  · intro he
    have hc : Conversation.ofGroup (rootIn es e.messageId, groupOf es (rootIn es e.messageId))
        ∈ convs := (mem_of_groupsInto h).mpr ⟨rfl, e, he, rfl⟩
    exact ⟨_, hc, (mem_messages h hc).mpr ⟨he, rfl⟩⟩

theorem messages_ne_nil (h : GroupsInto es convs) {c : Conversation} (hc : c ∈ convs) :
    c.messages ≠ [] := by
  obtain ⟨e, he, hroot⟩ := ((mem_of_groupsInto h).mp hc).2
  exact List.ne_nil_of_mem ((mem_messages h hc).mpr ⟨he, hroot⟩)

theorem pairwise_messages (h : GroupsInto es convs) {c : Conversation} (hc : c ∈ convs) :
    c.messages.Pairwise Envelope.Before := by
  have hnodup := List.pairwise_map.mp (nodup_messages h hc)
  have hsorted : c.messages.Pairwise fun a b => (a.chronological b).isLE := by
    rw [((mem_of_groupsInto h).mp hc).1]
    exact pairwise_isLE_mergeSort _
  exact (hsorted.and hnodup).imp fun hab => lt_or_of_isLE_then hab.1 hab.2

omit [Crypto] in
/-- The last activity is that of some message, and no message is later. -/
theorem lastActivity_spec {c : Conversation} (hne : c.messages ≠ []) :
    (∃ m ∈ c.messages, m.body.sentAt = c.lastActivity)
      ∧ ∀ m ∈ c.messages, m.body.sentAt ≤ c.lastActivity := by
  have hne' : (c.messages.map fun e => e.body.sentAt) ≠ [] := by simpa using hne
  cases hmax : (c.messages.map fun e => e.body.sentAt).max? with
  | none => exact absurd (List.max?_eq_none_iff.mp hmax) hne'
  | some t =>
      have hlast : c.lastActivity = t := by rw [Conversation.lastActivity, hmax]; rfl
      obtain ⟨hmem, hle⟩ := List.max?_eq_some_iff.mp hmax
      obtain ⟨m, hm, hsent⟩ := List.mem_map.mp hmem
      rw [hlast]
      exact ⟨⟨m, hm, hsent⟩, fun m hm => hle _ (List.mem_map_of_mem hm)⟩

theorem pairwise_conversations (h : GroupsInto es convs) : convs.Pairwise Conversation.Before := by
  have hnodup := List.pairwise_map.mp (nodup_roots h)
  have hsorted : convs.Pairwise fun c d => (c.byActivity d).isLE := by
    obtain ⟨groups, -, rfl⟩ := h
    exact pairwise_isLE_mergeSort _
  refine (hsorted.and hnodup).imp fun {c d} hcd => ?_
  rcases lt_or_of_isLE_then hcd.1 hcd.2 with hlt | ⟨heq, hroot⟩
  · exact Or.inl hlt
  · exact Or.inr ⟨heq.symm, hroot⟩

/--
**Grouping is an ordered partition**, of any list of envelopes and in whatever order the
groups are visited. Every id of the list is in one conversation, once; nothing else is, and
no conversation is empty; roots are distinct, and a conversation's root is where the links
of each of its messages lead; messages and conversations are strictly in order.
-/
theorem groupThreads_partition (es : List Envelope) (convs : List Conversation)
    (h : GroupsInto es convs) : OrderedPartition es convs where
  once e he := by
    obtain ⟨d, hd, hid⟩ := exists_mem_dedup he
    have hmem := List.mem_map_of_mem (f := Envelope.messageId) ((mem_flatMap_messages h).mpr hd)
    rw [hid] at hmem
    exact List.count_eq_one_of_mem (nodup_flatMap_messages h) hmem
  only c hc m hm := mem_of_mem_dedup ((mem_messages h hc).mp hm).1
  nonempty c hc := messages_ne_nil h hc
  roots := nodup_roots h
  root c hc m hm := ((mem_messages h hc).mp hm).2
  messages c hc := pairwise_messages h hc
  lastActivity c hc := lastActivity_spec (messages_ne_nil h hc)
  order := pairwise_conversations h

end Crypto

/-- The theorem at two answers to a message that is not there. -/
theorem groupThreads_partition_sample :
    @OrderedPartition Sample.answersCrypto [Sample.answerC, Sample.answerD, Sample.answerC]
      (@groupThreads Sample.answersCrypto [Sample.answerC, Sample.answerD, Sample.answerC]) :=
  @groupThreads_partition Sample.answersCrypto _ _
    (@groupsInto_groupThreads Sample.answersCrypto _)

end CeMail
