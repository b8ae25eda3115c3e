import CeMail.Proof.Titles

/-!
# Conversations as mail arrives

Mail that arrives goes to the end of the list, and of two envelopes with one id the links are
the first one's. So no link that was there is lost, and a conversation only grows: what was
shown together stays together and in order. Two conversations become one when a message
arrives that they were waiting for, an answer whose own answers came before it.
-/

namespace CeMail

section Crypto

variable [Crypto] {es more : List Envelope} {convs convs' : List Conversation}

theorem firstWith_append (es more : List Envelope) (a : String) :
    firstWith (es ++ more) a = (firstWith es a).or (firstWith more a) := List.find?_append

theorem firstWith_append_of_mem {e : Envelope} (h : e ∈ es) (more : List Envelope) :
    firstWith (es ++ more) e.messageId = firstWith es e.messageId := by
  obtain ⟨d, hd, hid⟩ := exists_mem_dedup h
  rw [firstWith_append, ← hid, mem_dedup.mp hd, Option.some_or]

/-- Nothing that was shown is displaced. -/
theorem mem_dedup_append {e : Envelope} (h : e ∈ dedup es) (more : List Envelope) :
    e ∈ dedup (es ++ more) := by
  refine mem_dedup.mpr ?_
  rw [firstWith_append_of_mem (mem_of_mem_dedup h), mem_dedup.mp h]

theorem replyLink_append_of_mem {e : Envelope} (h : e ∈ es) (more : List Envelope) :
    replyLink (es ++ more) e.messageId = replyLink es e.messageId := by
  rw [replyLink, replyLink, firstWith_append_of_mem h]

/-- **No link is lost.** -/
theorem step_append (a b : String) (h : Links.Step (replyLink es) a b) :
    Links.Step (replyLink (es ++ more)) a b := by
  obtain ⟨e, he, -⟩ := Option.bind_eq_some_iff.mp h
  have hid : e.messageId = a := by simpa using List.find?_some he
  subst hid
  rw [Links.Step, replyLink_append_of_mem (List.mem_of_find?_eq_some he)]
  exact h

/-- A root is resolved to where the old root leads now. -/
theorem rootIn_append (hacyclic : Links.Acyclic (replyLink (es ++ more))) (a : String) :
    rootIn (es ++ more) a = rootIn (es ++ more) (rootIn es a) := by
  have hends := rootIn_ends (hacyclic.of_extends step_append) a
  exact (rootIn_ends hacyclic a).unique (hends.extends step_append (rootIn_ends hacyclic _))

/-- A root that is in the list has no link, and gets none. -/
theorem rootIn_of_root_mem (hacyclic : Links.Acyclic (replyLink (es ++ more))) {a : String}
    {e : Envelope} (he : e ∈ es) (hroot : e.messageId = rootIn es a) :
    rootIn (es ++ more) (rootIn es a) = rootIn es a := by
  have hends := rootIn_ends (hacyclic.of_extends step_append) a
  have hunlinked : replyLink (es ++ more) (rootIn es a) = none := by
    rw [← hroot, replyLink_append_of_mem he, hroot]
    exact hends.unlinked
  exact (rootIn_ends hacyclic _).unique (Links.Ends.refl hunlinked)

/-- In a conversation an envelope is never before itself, so to be in it is to be in order. -/
theorem sublist_of_messages_subset (h : GroupsInto es convs) {c : Conversation} (hc : c ∈ convs)
    {es' : List Envelope} (h' : GroupsInto es' convs') {c' : Conversation} (hc' : c' ∈ convs')
    (hsub : c.messages ⊆ c'.messages) : c.messages.Sublist c'.messages := by
  have : Std.Antisymm Envelope.Before := ⟨fun a b hab hba => absurd hba hab.not_before⟩
  refine List.sublist_of_subperm_of_pairwise ?_ (pairwise_messages h hc) (pairwise_messages h' hc')
  exact List.subperm_of_subset (nodup_messages h hc).of_map hsub

/-- **A conversation of the old list lies in one of the new**, under the root its own leads to. -/
theorem exists_grown (hacyclic : Links.Acyclic (replyLink (es ++ more))) (h : GroupsInto es convs)
    (h' : GroupsInto (es ++ more) convs') {c : Conversation} (hc : c ∈ convs) :
    ∃ c' ∈ convs', c.messages.Sublist c'.messages ∧ c'.root = rootIn (es ++ more) c.root := by
  have hroot : ∀ m ∈ c.messages,
      m ∈ dedup (es ++ more) ∧ rootIn (es ++ more) m.messageId = rootIn (es ++ more) c.root := by
    intro m hm
    obtain ⟨hkept, hold⟩ := (mem_messages h hc).mp hm
    refine ⟨mem_dedup_append hkept more, ?_⟩
    rw [rootIn_append hacyclic, hold]
  obtain ⟨m, hm⟩ := List.exists_mem_of_ne_nil _ (messages_ne_nil h hc)
  have hc' : Conversation.ofGroup (rootIn (es ++ more) c.root,
      groupOf (es ++ more) (rootIn (es ++ more) c.root)) ∈ convs' :=
    (mem_of_groupsInto h').mpr ⟨rfl, m, (hroot m hm).1, (hroot m hm).2⟩
  exact ⟨_, hc', sublist_of_messages_subset h hc h' hc' fun m hm =>
    (mem_messages h' hc').mpr (hroot m hm), rfl⟩

/-- A message that was not in the list has arrived, and is an answer itself. -/
def ArrivesAsAnswer (es more : List Envelope) (id : String) : Prop :=
  (∀ e ∈ es, e.messageId ≠ id) ∧ ∃ m ∈ more, m.messageId = id ∧ m.body.inReplyTo ≠ ""

/-- A root that leads on now is a message that has arrived. -/
theorem arrives_of_rootIn_ne (hacyclic : Links.Acyclic (replyLink (es ++ more))) {a : String}
    (hne : rootIn (es ++ more) (rootIn es a) ≠ rootIn es a) :
    ArrivesAsAnswer es more (rootIn es a) := by
  have hmissing : ∀ e ∈ es, e.messageId ≠ rootIn es a :=
    fun e he hid => hne (rootIn_of_root_mem hacyclic he hid)
  refine ⟨hmissing, ?_⟩
  have hends := rootIn_ends hacyclic (rootIn es a)
  rcases Relation.ReflTransGen.cases_head hends.reaches with heq | ⟨b, hstep, -⟩
  · exact absurd heq.symm hne
  obtain ⟨m, hm, hparent⟩ := Option.bind_eq_some_iff.mp hstep
  have hid : m.messageId = rootIn es a := by simpa using List.find?_some hm
  obtain ⟨hreply, hnonempty⟩ := parent_eq_some.mp hparent
  rcases List.mem_append.mp (List.mem_of_find?_eq_some hm) with hold | hnew
  · exact absurd hid (hmissing m hold)
  · exact ⟨m, hnew, hid, hreply ▸ hnonempty⟩

/--
**Conversations only grow and join as mail arrives**, in whatever orders the groups are
visited. Every conversation there was is in one there is, in its order and under the root
that its old root leads to. What else a conversation has is mail that is new, or all of
another that there was; and where two that there were have become one, a message that one of
them was waiting for has arrived and is an answer itself.
-/
theorem conversations_only_grow (es more : List Envelope)
    (hacyclic : Links.Acyclic (replyLink (es ++ more))) (convs convs' : List Conversation)
    (h : GroupsInto es convs) (h' : GroupsInto (es ++ more) convs') :
    (∀ c ∈ convs, ∃ c' ∈ convs', c.messages.Sublist c'.messages
        ∧ Links.Ends (replyLink (es ++ more)) c.root c'.root)
      ∧ (∀ c' ∈ convs', ∀ m ∈ c'.messages,
        (m ∈ more ∧ ∀ e ∈ es, e.messageId ≠ m.messageId)
          ∨ ∃ c ∈ convs, m ∈ c.messages ∧ c.messages.Sublist c'.messages)
      ∧ ∀ c ∈ convs, ∀ d ∈ convs, c.root ≠ d.root → ∀ c' ∈ convs',
        c.messages ⊆ c'.messages → d.messages ⊆ c'.messages →
        ArrivesAsAnswer es more c.root ∨ ArrivesAsAnswer es more d.root := by
  have hroot : ∀ c ∈ convs, ∃ m ∈ c.messages, c.root = rootIn es m.messageId := by
    intro c hc
    obtain ⟨m, hm⟩ := List.exists_mem_of_ne_nil _ (messages_ne_nil h hc)
    exact ⟨m, hm, ((mem_messages h hc).mp hm).2.symm⟩
  refine ⟨?_, ?_, ?_⟩
  · intro c hc
    obtain ⟨c', hc', hsub, hroot'⟩ := exists_grown hacyclic h h' hc
    exact ⟨c', hc', hsub, hroot' ▸ rootIn_ends hacyclic c.root⟩
  · intro c' hc' m hm
    obtain ⟨hkept, hroot'⟩ := (mem_messages h' hc').mp hm
    refine or_iff_not_imp_right.mpr ?_
    intro hnone
    -- an envelope that was there is shown in some conversation that there was
    have hnew : ∀ e ∈ es, e.messageId ≠ m.messageId := by
      intro e he hid
      have hold : m ∈ dedup es := by
        rw [mem_dedup, ← hid, firstWith_append_of_mem he, hid] at hkept
        exact mem_dedup.mpr hkept
      obtain ⟨c, hc, hmc⟩ := List.mem_flatMap.mp ((mem_flatMap_messages h).mpr hold)
      obtain ⟨c₁, hc₁, hsub, -⟩ := exists_grown hacyclic h h' hc
      obtain rfl : c₁ = c' := by
        refine List.inj_on_of_nodup_map (nodup_roots h') hc₁ hc' ?_
        rw [← ((mem_messages h' hc₁).mp (hsub.subset hmc)).2, hroot']
      exact hnone ⟨c, hc, hmc, hsub⟩
    refine ⟨?_, hnew⟩
    rcases List.mem_append.mp (mem_of_mem_dedup hkept) with hold | hmore
    · exact absurd rfl (hnew m hold)
    · exact hmore
  · intro c hc d hd hne c' hc' hcsub hdsub
    obtain ⟨m, hm, hcroot⟩ := hroot c hc
    obtain ⟨p, hp, hdroot⟩ := hroot d hd
    have hcroot' : rootIn (es ++ more) c.root = c'.root := by
      rw [hcroot, ← rootIn_append hacyclic]
      exact ((mem_messages h' hc').mp (hcsub hm)).2
    have hdroot' : rootIn (es ++ more) d.root = c'.root := by
      rw [hdroot, ← rootIn_append hacyclic]
      exact ((mem_messages h' hc').mp (hdsub hp)).2
    by_cases hmoved : c'.root = c.root
    · refine Or.inr ?_
      rw [hdroot] at hne hdroot' ⊢
      refine arrives_of_rootIn_ne hacyclic ?_
      rw [hdroot', hmoved]
      exact hne
    · refine Or.inl ?_
      rw [hcroot] at hmoved hcroot' ⊢
      refine arrives_of_rootIn_ne hacyclic ?_
      rw [hcroot']
      exact hmoved

end Crypto

namespace Sample

/-- Both answers link to the message they answer, which is not there. -/
theorem acyclic_answers :
    Links.Acyclic (@replyLink answersCrypto ([answerC] ++ [answerD])) := by
  refine Links.acyclic_of_lt (fun a => if a =
    "60ff8f80b897d5f0adc49214573ad0c98f926b2593e79389cf67f6cd74a95c1d" then 0 else 1) ?_
  intro a b h
  have hlink := h
  rw [Links.Step, List.singleton_append, replyLink_answers] at hlink
  split at hlink
  · rename_i ha
    obtain rfl := Option.some.inj hlink
    rcases ha with rfl | rfl <;> decide
  · cases hlink

theorem mem_messages_answerC : ∃ c ∈ @groupThreads answersCrypto [answerC],
    answerC ∈ c.messages := by
  have hkept : answerC ∈ @dedup answersCrypto [answerC] := by
    rw [@mem_dedup answersCrypto, @firstWith_cons answersCrypto, if_pos rfl]
  exact List.mem_flatMap.mp ((@mem_flatMap_messages answersCrypto _ _
    (@groupsInto_groupThreads answersCrypto _) _).mpr hkept)

end Sample

/-- The theorem at two answers to a message that is not there, one after the other. -/
theorem conversations_only_grow_sample :
    ∃ c ∈ @groupThreads Sample.answersCrypto [Sample.answerC], Sample.answerC ∈ c.messages
      ∧ ∃ c' ∈ @groupThreads Sample.answersCrypto ([Sample.answerC] ++ [Sample.answerD]),
        c.messages.Sublist c'.messages := by
  obtain ⟨c, hc, hmem⟩ := Sample.mem_messages_answerC
  obtain ⟨c', hc', hsub, -⟩ := (@conversations_only_grow Sample.answersCrypto _ _
    Sample.acyclic_answers _ _ (@groupsInto_groupThreads Sample.answersCrypto _)
    (@groupsInto_groupThreads Sample.answersCrypto _)).1 c hc
  exact ⟨c, hc, hmem, c', hc', hsub⟩

end CeMail
