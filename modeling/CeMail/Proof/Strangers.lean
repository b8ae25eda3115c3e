import CeMail.Proof.Alike
import CeMail.Proof.ServiceRun

/-!
# What strangers see and touch

A party whose requests carry no grant of a node can neither learn anything of that
node's mail nor change it. The gate looks at the id a string parses to and the tables at
the string itself, so the mail of a node is what waits under any spelling of its id; two
stores that differ only there answer the party alike, request by request, refusals and
panics included.

What `authorize` answers is not looked into.
-/

namespace CeMail

section Requests

variable {Cap : Type}

/-- The string a request is about. -/
def MailRequest.key : MailRequest Cap → String
  | .deliver envelope _ => envelope.body.to
  | .drain recipient _ _ => recipient
  | .ack recipient _ _ => recipient
  | .drainPage recipient _ _ _ => recipient
  | .putReceipt forSender _ _ => forSender
  | .collectReceipts sender _ => sender

/-- The chain a request presents. -/
def MailRequest.grant : MailRequest Cap → List Cap
  | .deliver _ grant => grant
  | .drain _ _ grant => grant
  | .ack _ _ grant => grant
  | .drainPage _ _ _ grant => grant
  | .putReceipt _ _ grant => grant
  | .collectReceipts _ grant => grant

theorem MailRequest.key_of_mem_ops {request : MailRequest Cap} {limits : Limits} {now : UInt64}
    {op : Op} (h : op ∈ request.ops limits now) : op.key = request.key := by
  cases request with
  | drainPage k since limit grant =>
      simp only [ops] at h
      split at h
      · rw [List.mem_singleton.mp h]
        rfl
      · cases h
  | _ =>
      rw [List.mem_singleton.mp h]
      rfl

/-- The chain of a request authorizes neither its requester nor the mailbox for `owner`. -/
structure Ungranted [Iam Cap] (mailbox owner : NodeId) (c : Call Cap) : Prop where
  requester : Iam.authorize owner [owner] c.now c.requester abilityAccept c.request.grant
    c.isRevoked ≠ .ok ()
  mailbox : Iam.authorize owner [owner] c.now mailbox abilityAccept c.request.grant
    c.isRevoked ≠ .ok ()

end Requests

/-- The keys that do not spell the id of `owner`. -/
def Elsewhere (owner : NodeId) (k : String) : Prop := parseNodeId k ≠ .ok owner

section Service

variable {Cap : Type} [Crypto] [Iam Cap] {svc svc' : MailService} {c : Call Cap} {owner : NodeId}

omit [Crypto] in
/-- **The gate refuses a stranger** whatever is asked of the owner's mail. -/
theorem not_admits_of_ungranted (hne : c.requester ≠ owner)
    (h : Ungranted svc.store.selfId owner c) (hkey : parseNodeId c.request.key = .ok owner) :
    ¬svc.Admits c := by
  intro hadmits
  obtain ⟨hreq, hmail⟩ := h
  unfold MailService.Admits at hadmits
  -- the owner is the only id the key of the request parses to
  have huniq : ∀ id, parseNodeId c.request.key = .ok id → id = owner := by
    intro id hid
    exact Except.ok.inj (hid.symm.trans hkey)
  have howner : ∀ role, MailService.gateOwner role c.request.key c.requester c.request.grant c.now
      c.isRevoked ≠ .ok () := by
    intro role hgate
    obtain ⟨id, hid, hpass⟩ := MailService.parseAs_bind_eq_ok.mp hgate
    rw [huniq id hid, if_neg hne] at hpass
    exact hreq hpass
  cases hr : c.request with
  | deliver e grant =>
      rw [hr] at hadmits huniq hmail
      obtain ⟨id, hid, -, hpass⟩ := MailService.gate_deliver.mp hadmits
      rw [huniq id hid] at hpass
      exact hmail hpass
  | putReceipt k r grant =>
      rw [hr] at hadmits huniq hmail
      obtain ⟨id, hid, hpass⟩ := MailService.gate_putReceipt.mp hadmits
      rw [huniq id hid] at hpass
      exact hmail hpass
  | drain _ _ _ | ack _ _ _ | drainPage _ _ _ _ =>
      rw [hr] at hadmits howner
      exact howner "recipient" hadmits
  | collectReceipts _ _ =>
      rw [hr] at hadmits howner
      exact howner "sender" hadmits

/-- No request changes the id of the mailbox. -/
theorem MailService.selfId_step (svc : MailService) (c : Call Cap) :
    (svc.step c).1.store.selfId = svc.store.selfId := by
  rw [store_step]
  refine Machine.invariant (P := fun s : MailboxStore => s.selfId = svc.store.selfId) rfl ?_ _
  intro s op h
  exact (settings_call s op).2.trans h

/-- Same id and limits, and stores alike under the keys of `P`. -/
structure AlikeServices (P : String → Prop) (svc svc' : MailService) : Prop where
  selfId : svc.store.selfId = svc'.store.selfId
  limits : svc.limits = svc'.limits
  store : AlikeOn P svc.store svc'.store

namespace AlikeServices

variable {P : String → Prop}

omit [Crypto] in
/-- The gate looks at no table. -/
theorem gate (h : AlikeServices P svc svc') (requester : NodeId) (now : UInt64)
    (isRevoked : NodeId → UInt64 → Bool) (request : MailRequest Cap) :
    svc.gate requester now isRevoked request = svc'.gate requester now isRevoked request := by
  cases request with
  | deliver e grant =>
      simp only [MailService.gate, MailboxStore.checkAcceptGrant, h.selfId, h.limits]
  | putReceipt k r grant =>
      simp only [MailService.gate, MailboxStore.checkAcceptGrant, h.selfId]
  | _ => rfl

omit [Iam Cap] in
/-- A request about a key of `P` is answered alike. -/
theorem perform (h : AlikeServices P svc svc') (now : UInt64) {request : MailRequest Cap}
    (hk : P request.key) : (svc.perform now request).2 = (svc'.perform now request).2 := by
  cases request with
  | deliver e grant =>
      have hkey : P (Op.accept e now).key := hk
      have hans := Answer.accepted.inj (h.store.answer hkey)
      simp only [MailService.perform, hans]
  | drain k since grant =>
      have hqueue := h.store.queue (k := k) hk
      simp only [MailService.perform, MailboxStore.readFrom_eq, hqueue]
  | ack k cursor grant =>
      have hkey : P (Op.ack k cursor).key := hk
      have hans := Answer.acked.inj (h.store.answer hkey)
      simp only [MailService.perform, hans]
  | drainPage k since limit grant =>
      have hqueue := h.store.queue (k := k) hk
      simp only [MailService.perform, MailboxStore.readPage_eq, hqueue, h.limits]
  | putReceipt k r grant =>
      have hkey : P (Op.putReceipt k r).key := hk
      have hans := Answer.accepted.inj (h.store.answer hkey)
      simp only [MailService.perform, hans]
  | collectReceipts k grant =>
      have hkey : P (Op.collectReceipts k).key := hk
      have hans := Answer.receipts.inj (h.store.answer hkey)
      simp only [MailService.perform, hans]

/-- **Preserved by every request about a key of `P`**, and by every one that is refused. -/
theorem step (h : AlikeServices P svc svc') (hk : svc.Admits c → P c.request.key) :
    (svc.step c).2 = (svc'.step c).2 ∧ AlikeServices P (svc.step c).1 (svc'.step c).1 := by
  have hgate := h.gate c.requester c.now c.isRevoked c.request
  cases hpass : svc.gate c.requester c.now c.isRevoked c.request with
  | error message =>
      rw [MailService.step, MailService.step, MailService.handle_of_error hpass,
        MailService.handle_of_error (hgate.symm.trans hpass)]
      exact ⟨rfl, h⟩
  | ok =>
      have hpass' := hgate.symm.trans hpass
      have hP := hk hpass
      refine ⟨?_, ?_, ?_, ?_⟩
      · rw [MailService.step_of_admits hpass, MailService.step_of_admits hpass']
        exact h.perform c.now hP
      · rw [MailService.selfId_step, MailService.selfId_step, h.selfId]
      · rw [MailService.step, MailService.step, MailService.limits_handle,
          MailService.limits_handle, h.limits]
      · have hcalls : svc.calls c = svc'.calls c := by
          rw [MailService.calls, MailService.calls, hpass, hpass', h.limits]
        have hkeys : ∀ op ∈ svc.calls c, P op.key := by
          intro op hop
          rw [MailRequest.key_of_mem_ops (MailService.mem_calls.mp hop).2]
          exact hP
        rw [MailService.store_step, MailService.store_step, ← hcalls]
        exact (Machine.unwind (I := fun op => P op.key) (fun _ _ _ hop h => h.call hop) h.store
          hkeys).2

end AlikeServices

/-- **A request leaves every key but its own as it was**, and every key if it is refused. -/
theorem MailService.frame_step {k : String} (hk : svc.Admits c → k ≠ c.request.key) :
    (svc.step c).1.store.mail k = svc.store.mail k
      ∧ (svc.step c).1.store.post k = svc.store.post k := by
  have hkeys : ∀ op ∈ svc.calls c, k ≠ op.key := by
    intro op hop
    obtain ⟨hadmits, hop⟩ := MailService.mem_calls.mp hop
    rw [MailRequest.key_of_mem_ops hop]
    exact hk hadmits
  rw [MailService.store_step]
  refine Machine.invariant_on (I := fun op : Op => k ≠ op.key)
    (P := fun s : MailboxStore => s.mail k = svc.store.mail k ∧ s.post k = svc.store.post k)
    ⟨rfl, rfl⟩ ?_ hkeys
  intro s op hop h
  obtain ⟨hmail, hpost⟩ := frame_call s op hop
  rw [hmail, hpost]
  exact h

/--
**Strangers neither see nor touch another node's mailbox.** Let every request of a run be
of one requester and carry no chain that authorizes the requester or the mailbox for
`owner`, another node. On two stores that agree under every key which does not parse to
`owner`, the run gets the same replies; and it leaves the queue and the index of every
key that does parse to `owner`, of mail and of receipts, as they were.
-/
theorem stranger_noninterference {requester owner : NodeId} (hne : requester ≠ owner)
    {s t : MailboxStore} (hself : s.selfId = t.selfId) (halike : AlikeOn (Elsewhere owner) s t)
    (limits : Limits) {calls : List (Call Cap)}
    (hcalls : ∀ c ∈ calls, c.requester = requester ∧ Ungranted s.selfId owner c) :
    Machine.outputs MailService.step (.withLimits s limits) calls
        = Machine.outputs MailService.step (.withLimits t limits) calls
      ∧ ∀ k, parseNodeId k = .ok owner →
        (Machine.final MailService.step (.withLimits s limits) calls).store.mail k = s.mail k
          ∧ (Machine.final MailService.step (.withLimits s limits) calls).store.post k
            = s.post k := by
  -- whichever request passes is about a key elsewhere
  have hpass : ∀ {svc : MailService} {c : Call Cap}, svc.store.selfId = s.selfId →
      c.requester = requester ∧ Ungranted s.selfId owner c → svc.Admits c →
        Elsewhere owner c.request.key := by
    intro svc c hid h hadmits hkey
    rcases h with ⟨rfl, hgrant⟩
    rw [← hid] at hgrant
    exact not_admits_of_ungranted hne hgrant hkey hadmits
  refine ⟨?_, ?_⟩
  · have hstart : AlikeServices (Elsewhere owner) (.withLimits s limits) (.withLimits t limits) :=
      ⟨hself, rfl, halike⟩
    refine (Machine.unwind
      (R := fun svc svc' => AlikeServices (Elsewhere owner) svc svc' ∧ svc.store.selfId = s.selfId)
      ?_ ⟨hstart, rfl⟩ hcalls).1
    intro svc svc' c hc h
    rcases h with ⟨h, hid⟩
    obtain ⟨hout, hnext⟩ := h.step (hpass hid hc)
    exact ⟨hout, hnext, (MailService.selfId_step svc c).trans hid⟩
  · intro k hk
    refine (Machine.invariant_on (P := fun svc : MailService => svc.store.selfId = s.selfId
      ∧ svc.store.mail k = s.mail k ∧ svc.store.post k = s.post k) ⟨rfl, rfl, rfl⟩ ?_ hcalls).2
    intro svc c hc h
    rcases h with ⟨hid, hmail, hpost⟩
    obtain ⟨hmail', hpost'⟩ := MailService.frame_step fun hadmits (heq : k = c.request.key) =>
      hpass hid hc hadmits (heq ▸ hk)
    exact ⟨(MailService.selfId_step svc c).trans hid, hmail'.trans hmail, hpost'.trans hpost⟩

end Service

namespace Sample

/-- The sender asks for the recipient's mail, delivers it more, and asks for its own. -/
def strangersCalls : List (Call (NodeId × NodeId)) :=
  [.drain recipient.hex 0 [], .deliver second [], .drain sender.hex 0 []].map fun request =>
    { requester := sender, request := request, now := 1, isRevoked := fun _ _ => false }

end Sample

/-- The theorem at a mailbox that holds mail of the recipient and one that holds none. -/
theorem stranger_noninterference_sample :
    let full :=
      (@MailboxStore.call Sample.crypto (.new Sample.mailbox 1) (.accept Sample.first 1)).1
    @Machine.outputs _ _ _ (@MailService.step _ Sample.crypto Sample.iam)
        (.withLimits full default) Sample.strangersCalls
      = @Machine.outputs _ _ _ (@MailService.step _ Sample.crypto Sample.iam)
        (.withLimits (.new Sample.mailbox 1) default) Sample.strangersCalls := by
  intro full
  have halike : AlikeOn (Elsewhere Sample.recipient) full (.new Sample.mailbox 1) := by
    have hframe : ∀ k, Elsewhere Sample.recipient k →
        full.mail k = (MailboxStore.new Sample.mailbox 1).mail k
          ∧ full.post k = (MailboxStore.new Sample.mailbox 1).post k := by
      intro k hk
      refine @frame_call Sample.crypto _ (.accept Sample.first 1) k fun heq => hk ?_
      rw [heq]
      exact parseNodeId_hex Sample.recipient
    exact ⟨(@settings_call Sample.crypto _ _).1, fun k hk => (hframe k hk).1,
      fun k hk => (hframe k hk).2⟩
  refine (@stranger_noninterference _ Sample.crypto Sample.iam Sample.sender Sample.recipient
    (by decide) full (.new Sample.mailbox 1) (@settings_call Sample.crypto _ _).2 halike default
    Sample.strangersCalls ?_).1
  intro c hc
  have hself : full.selfId = Sample.mailbox := (@settings_call Sample.crypto _ _).2
  rw [hself]
  simp only [Sample.strangersCalls, List.map_cons, List.map_nil, List.mem_cons,
    List.not_mem_nil, or_false] at hc
  rcases hc with rfl | rfl | rfl
  all_goals exact ⟨rfl, @Ungranted.mk _ Sample.iam _ _ _ (by decide) (by decide)⟩

end CeMail
