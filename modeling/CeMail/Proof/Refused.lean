import CeMail.Proof.Server

/-!
# What refused requests and clean batches change

Nothing. A request that is answered with an error or as a duplicate, or that cannot change
the store at all, leaves it as it was, every index included. The dirty flag of the loop is
raised at every other answer to a request that can, so a batch that ends clean has handled
only requests that changed nothing.
-/

namespace CeMail

/-- The events of the loop over the messages of a batch. -/
def ServerEvent.inBatch : ServerEvent → Bool
  | .handle _ _ => true
  | .reply _ => true
  | _ => false

section Refused

variable {Cap : Type} [Crypto] [Bincode Cap] [Iam Cap] {selfId : NodeId} {capacity : UInt64}

/-- The store is that of the start of the batch, as long as the batch is clean. -/
def Untouched (store : MailboxStore) (s : Server Cap) : Prop :=
  ∀ p, s.process = some p → p.phase.dirty = false → p.svc.store = store

theorem untouched_step {store : MailboxStore} {s : Server Cap} (h : Untouched store s)
    {i : ServerEvent} (hi : i.inBatch = true) :
    Untouched store (Server.step selfId capacity s i).1 := by
  have hmoves := moves_step selfId capacity s i
  generalize (Server.step selfId capacity s i).1 = s',
    (Server.step selfId capacity s i).2 = out at hmoves
  intro p hp hclean
  cases hmoves with
  | idle _ => exact h p hp hclean
  | begun => cases hi
  | @skipped file svc msg rest dirty now isRevoked =>
      obtain rfl := Option.some.inj hp
      exact h ⟨svc, .serving (msg :: rest) dirty⟩ rfl hclean
  | @handled file svc svc' msg rest dirty c token reply hstep =>
      obtain rfl := Option.some.inj hp
      obtain ⟨hdirty, hrequest⟩ := Bool.or_eq_false_iff.mp hclean
      rw [store_eq_of_clean hstep hrequest]
      exact h ⟨svc, .serving (msg :: rest) dirty⟩ rfl hdirty
  | died => cases hp
  | @replied file svc sent rest dirty delivered =>
      obtain rfl := Option.some.inj hp
      exact h ⟨svc, .replying sent rest dirty⟩ rfl hclean
  | ended => cases hi
  | restarted => cases hi

/--
**Refused requests change nothing**, and the dirty flag is sound: the store after a batch
that leaves it down is the store before.
-/
theorem refused_changes_nothing :
    (∀ (svc : MailService) (requester : NodeId) (request : MailRequest Cap) (now : UInt64)
      (isRevoked : NodeId → UInt64 → Bool) (svc' : MailService) (reply : MailReply),
      svc.handle requester request now isRevoked = (svc', .ok reply) →
        reply.isError = true ∨ reply = .delivered true ∨ reply = .receiptAccepted true
          ∨ requestMutates request = false →
        svc'.store = svc.store)
      ∧ ∀ (s : Server Cap) (svc svc' : MailService) (messages : List AppMessage)
        (batch : List ServerEvent), (∀ i ∈ batch, i.inBatch = true) →
        s.process = some ⟨svc, .serving messages false⟩ →
        (Machine.final (Server.step selfId capacity) s batch).process
          = some ⟨svc', .serving [] false⟩ →
        svc'.store = svc.store := by
  refine ⟨?_, ?_⟩
  · intro svc requester request now isRevoked svc' reply h hrefused
    have hstep : svc.step (⟨requester, request, now, isRevoked⟩ : Call Cap) = (svc', .ok reply) := h
    refine store_eq_of_unchanging hstep ?_
    rcases hrefused with herror | hdup | hdup | hmutates
    · cases reply with
      | error message => exact Or.inr rfl
      | _ => cases herror
    · subst hdup
      exact Or.inr rfl
    · subst hdup
      exact Or.inr rfl
    · exact Or.inl hmutates
  · intro s svc svc' messages batch hbatch hstart hend
    have hinit : Untouched svc.store s := by
      intro p hp _
      obtain rfl := Option.some.inj (hstart.symm.trans hp)
      rfl
    have hfinal : Untouched svc.store (Machine.final (Server.step selfId capacity) s batch) :=
      Machine.invariant_on (I := fun i : ServerEvent => i.inBatch = true) hinit
        (fun s i hi h => untouched_step h hi) hbatch
    exact hfinal ⟨svc', .serving [] false⟩ hend rfl

end Refused

end CeMail
