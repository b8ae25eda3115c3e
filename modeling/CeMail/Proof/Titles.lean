import CeMail.Proof.Conversations

/-!
# Titles

A conversation is titled by its first message, and the first is the one stamped earliest, by
whoever sent it. The root is found by reply links, which no stamp changes. The two give one
title exactly when no message of the conversation with another title is stamped before all
those with the root's.
-/

namespace CeMail

section Crypto

variable [Crypto] {es : List Envelope} {convs : List Conversation}

/-- What a message would title its conversation. -/
def Envelope.title (e : Envelope) : String := normalizeSubject e.body.subject

/-- Each conversation whose root message is in the list has the root's title. -/
def TitledByRoots (es : List Envelope) (convs : List Conversation) : Prop :=
  ∀ c ∈ convs, ∀ m ∈ es, m.messageId = c.root → c.subject = normalizeSubject m.body.subject

/--
No message with another title than the root of its thread has is stamped before all messages
of the thread with the root's title.
-/
def RootTitlesFirst (es : List Envelope) : Prop :=
  ∀ m ∈ es, ∀ e ∈ dedup es, resolveRoot e.messageId (parentMap (dedup es)) = m.messageId →
    e.title ≠ m.title →
    ∃ d ∈ dedup es, resolveRoot d.messageId (parentMap (dedup es)) = m.messageId
      ∧ d.title = m.title ∧ d.Before e

theorem Envelope.Before.not_before {a b : Envelope} (h : a.Before b) : ¬b.Before a := by
  rintro (hlt | ⟨heq, hid⟩)
  · rcases h with hlt' | ⟨heq', -⟩
    · exact UInt64.lt_asymm hlt hlt'
    · exact UInt64.ne_of_lt hlt heq'.symm
  · rcases h with hlt' | ⟨-, hid'⟩
    · exact UInt64.ne_of_lt hlt' heq.symm
    · exact lt_asymm hid hid'

/-- The first message of a conversation, before all others. -/
theorem exists_first (h : GroupsInto es convs) {c : Conversation} (hc : c ∈ convs) :
    ∃ first ∈ c.messages, c.subject = first.title
      ∧ ∀ m ∈ c.messages, m = first ∨ first.Before m := by
  have hne := messages_ne_nil h hc
  have hsorted := pairwise_messages h hc
  cases hms : c.messages with
  | nil => exact absurd hms hne
  | cons first rest =>
      rw [hms, List.pairwise_cons] at hsorted
      refine ⟨first, List.mem_cons_self, ?_, ?_⟩
      · rw [Conversation.subject, hms]
        rfl
      · intro m hm
        rcases List.mem_cons.mp hm with heq | hm
        · exact Or.inl heq
        · exact Or.inr (hsorted.1 m hm)

/-- Where a root gives the title, it or a message with its title was stamped first. -/
theorem rootTitlesFirst_of_titledByRoots (h : GroupsInto es convs)
    (htitled : TitledByRoots es convs) : RootTitlesFirst es := by
  intro m hm e he hroot hne
  have hc : Conversation.ofGroup (m.messageId, groupOf es m.messageId) ∈ convs :=
    (mem_of_groupsInto h).mpr ⟨rfl, e, he, hroot⟩
  obtain ⟨first, hfirst, htitle, hbefore⟩ := exists_first h hc
  obtain ⟨hmem, hroot'⟩ := (mem_messages h hc).mp hfirst
  have hsame : first.title = m.title := htitle.symm.trans (htitled _ hc m hm rfl)
  refine ⟨first, hmem, hroot', hsame, ?_⟩
  rcases hbefore e ((mem_messages h hc).mpr ⟨he, hroot⟩) with rfl | hbefore
  · exact absurd hsame hne
  · exact hbefore

/--
**Conversations are titled by their roots exactly when the roots' titles come first**, by the
stamps and ids of the messages.
-/
theorem titledByRoots_iff (es : List Envelope) (convs : List Conversation)
    (h : GroupsInto es convs) : TitledByRoots es convs ↔ RootTitlesFirst es := by
  refine ⟨rootTitlesFirst_of_titledByRoots h, ?_⟩
  intro hfirst c hc m hm hroot
  obtain ⟨first, hmem, htitle, hbefore⟩ := exists_first h hc
  obtain ⟨hin, hroot'⟩ := (mem_messages h hc).mp hmem
  by_contra hne
  have hother : first.title ≠ m.title := by
    rw [← htitle]
    exact hne
  obtain ⟨d, hd, hdroot, hdtitle, hdbefore⟩ :=
    hfirst m hm first hin (hroot'.trans hroot.symm) hother
  -- another title came first, and something before it
  rcases hbefore d ((mem_messages h hc).mpr ⟨hd, hdroot.trans hroot⟩) with rfl | hbefore
  · exact hother hdtitle
  · exact hbefore.not_before hdbefore

end Crypto

namespace Sample

/-- An answer of `sender` to `first` with a subject of its own, stamped a second before it. -/
def backdated : Envelope where
  body := { (answer "c" 0).body with sentAt := 0 }
  sig := bytes 64 <|
    0xd571af62afefe08a513a15cca27a6fd8e376179a8a01ea6f26b105b1b36daf94 * 2 ^ 256 +
    0x8f11b9d2081de9ee99eb924ed98c31c8126e2ea3b7f88c9143d9ca9bffe96c06

@[reducible] def backdatedCrypto : Crypto := cryptoOn [
  (first, 0x60ff8f80b897d5f0adc49214573ad0c98f926b2593e79389cf67f6cd74a95c1d),
  (backdated, 0x3a2ac9d2298d031738f590b66c535377652dee4bb5cd9ef2c836350c160d0b63)]

end Sample

/-- The theorem at a message and its backdated answer. -/
theorem titledByRoots_iff_sample :
    @TitledByRoots Sample.backdatedCrypto [Sample.first, Sample.backdated]
        (@groupThreads Sample.backdatedCrypto [Sample.first, Sample.backdated])
      ↔ @RootTitlesFirst Sample.backdatedCrypto [Sample.first, Sample.backdated] :=
  @titledByRoots_iff Sample.backdatedCrypto _ _ (@groupsInto_groupThreads Sample.backdatedCrypto _)

/-- The answer, not the root, titles their conversation. -/
theorem backdated_answer_titles :
    ¬@TitledByRoots Sample.backdatedCrypto [Sample.first, Sample.backdated]
      (@groupThreads Sample.backdatedCrypto [Sample.first, Sample.backdated]) := by
  intro h
  have hfirst := @rootTitlesFirst_of_titledByRoots Sample.backdatedCrypto _ _
    (@groupsInto_groupThreads Sample.backdatedCrypto _) h
  have hdedup : @dedup Sample.backdatedCrypto [Sample.first, Sample.backdated]
      = [Sample.first, Sample.backdated] := by decide +kernel
  have hroot : resolveRoot (@Envelope.messageId Sample.backdatedCrypto Sample.backdated)
      (@parentMap Sample.backdatedCrypto [Sample.first, Sample.backdated])
        = @Envelope.messageId Sample.backdatedCrypto Sample.first := by
    have hparent : (@parentMap Sample.backdatedCrypto [Sample.first, Sample.backdated]).lookup
        (@Envelope.messageId Sample.backdatedCrypto Sample.backdated)
          = some (@Envelope.messageId Sample.backdatedCrypto Sample.first) := by decide +kernel
    have hnew : @Envelope.messageId Sample.backdatedCrypto Sample.first ∉
        ({@Envelope.messageId Sample.backdatedCrypto Sample.backdated} : Finset String) := by
      decide +kernel
    have hend : @Envelope.messageId Sample.backdatedCrypto Sample.first ∉
        @parentMap Sample.backdatedCrypto [Sample.first, Sample.backdated] := by decide +kernel
    rw [resolveRoot, resolveFrom, hparent]
    simp only [if_neg hnew, if_neg hend]
  obtain ⟨d, hd, -, htitle, hbefore⟩ := hfirst Sample.first List.mem_cons_self Sample.backdated
    (by rw [hdedup]; exact List.mem_cons_of_mem _ List.mem_cons_self)
    (by rw [hdedup]; exact hroot) (by decide +kernel)
  rw [hdedup] at hd
  rcases List.mem_pair.mp hd with rfl | rfl
  · rcases hbefore with hlt | ⟨heq, -⟩
    · exact absurd hlt (by decide)
    · exact absurd heq (by decide)
  · revert htitle
    decide +kernel

end CeMail
