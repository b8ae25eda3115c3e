import CeMail.Model.Node
import CeMail.Proof.Server
import CeMail.Proof.Strangers

/-!
# Revoked grants

From the time the loop knows of a revocation, no chain with the revoked capability opens
anything: not mail, not a receipt, not an inbox to a delegate. It stays so for as long as every
set that is fetched has the revocation in it, whatever fetches fail, and across restarts of
the process that fetch one.

Of `authorize` it is used that it refuses a chain with a revoked capability, whatever else is
in the chain.
-/

namespace CeMail

section Node

variable {Cap : Type} {issuer : Cap → NodeId} {nonce : Cap → UInt64}

/-- `authorize` refuses chains in which `is_revoked` knows some capability. -/
def RefusesRevoked [Iam Cap] (issuer : Cap → NodeId) (nonce : Cap → UInt64) : Prop :=
  ∀ self roots now requester ability (chain : List Cap) (isRevoked : NodeId → UInt64 → Bool),
    (∃ cap ∈ chain, isRevoked (issuer cap) (nonce cap) = true) →
      Iam.authorize self roots now requester ability chain isRevoked ≠ .ok ()

/-- The request gives the mailbox something to keep. -/
def MailRequest.isDeposit : MailRequest Cap → Bool
  | .deliver _ _ => true
  | .putReceipt _ _ _ => true
  | _ => false

theorem isRevoked_iff {revoked : Revocations} {i : NodeId} {n : UInt64} :
    Revocations.isRevoked revoked i n = true ↔ (i.hex, n) ∈ revoked := by
  simp only [Revocations.isRevoked, List.any_eq_true, Bool.and_eq_true, decide_eq_true_eq]
  refine ⟨?_, fun h => ⟨_, h, rfl, rfl⟩⟩
  intro h
  obtain ⟨⟨i', n'⟩, hmem, rfl, rfl⟩ := h
  exact hmem

/-! ## The gate -/

/-- **A revoked chain passes no gate**, unless the requester needs no chain. -/
theorem not_admits_of_revoked [Iam Cap] (hiam : RefusesRevoked issuer nonce) {svc : MailService}
    {c : Call Cap} {cap : Cap} (hcap : cap ∈ c.request.grant)
    (hrevoked : c.isRevoked (issuer cap) (nonce cap) = true)
    (hneeds : c.request.isDeposit = true ∨ parseNodeId c.request.key ≠ .ok c.requester) :
    ¬svc.Admits c := by
  have hrefuses : ∀ self roots requester ability, Iam.authorize self roots c.now requester ability
      c.request.grant c.isRevoked ≠ .ok () := fun self roots requester ability =>
    hiam self roots c.now requester ability _ _ ⟨cap, hcap, hrevoked⟩
  intro hadmits
  unfold MailService.Admits at hadmits
  have howner : parseNodeId c.request.key ≠ .ok c.requester → ∀ role,
      MailService.gateOwner role c.request.key c.requester c.request.grant c.now c.isRevoked
        ≠ .ok () := by
    intro hforeign role hgate
    obtain ⟨id, hid, hpass⟩ := MailService.parseAs_bind_eq_ok.mp hgate
    have hne : c.requester ≠ id := by
      intro heq
      rw [← heq] at hid
      exact hforeign hid
    rw [if_neg hne] at hpass
    exact hrefuses _ _ _ _ hpass
  cases hr : c.request with
  | deliver e grant =>
      rw [hr] at hadmits hrefuses
      obtain ⟨id, -, -, hpass⟩ := MailService.gate_deliver.mp hadmits
      exact hrefuses _ _ _ _ hpass
  | putReceipt k r grant =>
      rw [hr] at hadmits hrefuses
      obtain ⟨id, -, hpass⟩ := MailService.gate_putReceipt.mp hadmits
      exact hrefuses _ _ _ _ hpass
  | drain _ _ _ | ack _ _ _ | drainPage _ _ _ _ =>
      rw [hr] at hadmits howner hneeds
      exact howner (hneeds.resolve_left Bool.false_ne_true) "recipient" hadmits
  | collectReceipts _ _ =>
      rw [hr] at hadmits howner hneeds
      exact howner (hneeds.resolve_left Bool.false_ne_true) "sender" hadmits

/-- What the gate refuses is answered with an error and changes nothing. -/
theorem step_of_refused [Crypto] [Iam Cap] {svc : MailService} {c : Call Cap} (h : ¬svc.Admits c) :
    ∃ message, svc.step c = (svc, .ok (.error message)) := by
  cases hgate : svc.gate c.requester c.now c.isRevoked c.request with
  | error message => exact ⟨message, MailService.handle_of_error hgate⟩
  | ok => exact absurd hgate h

/-! ## What the node knows -/

/-- A set that the event fetches has the capability in it, and a process that starts fetches one. -/
def NodeEvent.Lists (i : NodeId) (n : UInt64) : NodeEvent → Prop
  | .handle _ (some fetched) _ => (i.hex, n) ∈ fetched
  | .refresh (some fetched) => (i.hex, n) ∈ fetched
  | .restart fetched => ∃ set, fetched = some set ∧ (i.hex, n) ∈ set
  | _ => True

variable [Crypto] [Bincode Cap] [Iam Cap] {selfId : NodeId} {capacity : UInt64} {node : Node Cap}
  {i : NodeId} {n : UInt64}

/-- A known revocation stays known. -/
theorem revoked_step (h : (i.hex, n) ∈ node.revoked) {e : NodeEvent} (he : e.Lists i n) :
    (i.hex, n) ∈ (node.step selfId capacity e).1.revoked := by
  have hset : (node.step selfId capacity e).1.revoked = node.revokedAfter e := by
    unfold Node.step
    split <;> rfl
  rw [hset]
  cases e with
  | handle now fetched late =>
      cases fetched with
      | none => exact h
      | some set => exact he
  | refresh fetched =>
      cases fetched with
      | none => exact h
      | some set => exact he
  | restart fetched =>
      obtain ⟨set, rfl, hmem⟩ := he
      unfold Node.revokedAfter
      dsimp only
      split
      · exact hmem
      · exact h
  | _ => exact h

theorem revoked_run (h : (i.hex, n) ∈ node.revoked) {events : List NodeEvent}
    (hevents : ∀ e ∈ events, e.Lists i n) :
    (i.hex, n) ∈ (Machine.final (Node.step selfId capacity) node events).revoked := by
  refine Machine.invariant_on (P := fun node : Node Cap => (i.hex, n) ∈ node.revoked) h ?_ hevents
  intro node e he hnode
  exact revoked_step hnode he

/--
**A revoked grant opens nothing.** Once the node knows that a capability is revoked, and while
every set that is fetched has it, a request with a chain that the capability is in is
answered with an error and leaves the service as it was, however early or late in the
checks a new set comes in. Only requests of the owner for its own inbox need no chain.
-/
theorem revoked_grant_opens_nothing (hiam : RefusesRevoked issuer nonce) {cap : Cap}
    (hknown : ((issuer cap).hex, nonce cap) ∈ node.revoked) {events before rest : List NodeEvent}
    (hlists : ∀ e ∈ events, e.Lists (issuer cap) (nonce cap)) {now : UInt64}
    {fetched : Option Revocations} {late : NodeId → UInt64 → Bool}
    (hcut : events = before ++ .handle now fetched late :: rest) {svc : MailService}
    {msg : AppMessage} {messages : List AppMessage} {dirty : Bool}
    (hmet : (Machine.final (Node.step selfId capacity) node before).server.process
      = some ⟨svc, .serving (msg :: messages) dirty⟩)
    {token : UInt64} {requester : NodeId} {request : MailRequest Cap}
    (hreq : msg.request = some (token, requester, request)) (hcap : cap ∈ request.grant)
    (hneeds : request.isDeposit = true ∨ parseNodeId request.key ≠ .ok requester) :
    ∃ message, (Machine.final (Node.step selfId capacity) node
        (before ++ [.handle now fetched late])).server.process
      = some ⟨svc, .replying ⟨token, request, .error message⟩ messages dirty⟩ := by
  subst hcut
  have hbefore : ∀ e ∈ before, e.Lists (issuer cap) (nonce cap) :=
    fun e he => hlists e (List.mem_append_left _ he)
  have hevent := hlists (.handle now fetched late)
    (List.mem_append_right _ List.mem_cons_self)
  have hknown' : ((issuer cap).hex, nonce cap)
      ∈ (Machine.final (Node.step selfId capacity) node before).revoked :=
    revoked_run hknown hbefore
  rw [Machine.final_concat]
  generalize Machine.final (Node.step selfId capacity) node before = met at hmet hknown'
  -- an early check sees the old set and a late one the new, and both have the capability
  have hrevoked : Revocations.isRevoked
      (if late (issuer cap) (nonce cap) then fetched.getD met.revoked else met.revoked)
      (issuer cap) (nonce cap) = true := by
    refine isRevoked_iff.mpr ?_
    split
    · cases fetched with
      | none => exact hknown'
      | some set => exact hevent
    · exact hknown'
  let c : Call Cap := ⟨requester, request, now, fun i n =>
    Revocations.isRevoked (if late i n then fetched.getD met.revoked else met.revoked) i n⟩
  have hrefused : ¬svc.Admits c := not_admits_of_revoked hiam hcap hrevoked hneeds
  obtain ⟨message, hstep⟩ := step_of_refused hrefused
  refine ⟨message, ?_⟩
  obtain ⟨⟨file, process⟩, revoked⟩ := met
  obtain rfl : process = _ := hmet
  show svc.serve msg messages dirty c.now c.isRevoked = _
  have hclean : (dirty || requestMutates request && !(MailReply.error message).isError)
      = dirty := by
    simp [MailReply.isError]
  rw [MailService.serve_of_step hreq hstep, hclean]

end Node

namespace Sample

/-- As `iam`, with capabilities of nonce 0 that can be revoked. -/
@[reducible] def revokingIam : Iam (NodeId × NodeId) where
  authorize _ roots _ requester _ chain isRevoked :=
    if (roots.any fun root => chain = [(root, requester)])
        && !(chain.any fun cap => isRevoked cap.1 0)
    then .ok () else .error "no valid chain"

theorem refusesRevoked : @RefusesRevoked (NodeId × NodeId) revokingIam Prod.fst fun _ => 0 := by
  intro self roots now requester ability chain isRevoked hrevoked hpass
  have hany : (chain.any fun cap => isRevoked cap.1 0) = true := List.any_eq_true.mpr hrevoked
  unfold Iam.authorize at hpass
  dsimp only at hpass
  rw [hany, Bool.not_true, Bool.and_false] at hpass
  cases hpass

/-- The recipient's grant to the mailbox is revoked. -/
def grantRevoked : Revocations := [(recipient.hex, 0)]

/-- A set fetched later, with a grant of the sender's in it too. -/
def moreRevoked : Revocations := (sender.hex, 3) :: grantRevoked

end Sample

/--
The theorem for a delivery to a node that knows its grant to be revoked. A new set comes
while the delivery is checked, and the checks of the recipient's grants see it.
-/
theorem revoked_grant_opens_nothing_sample :
    ∃ message, (Machine.final (@Node.step (NodeId × NodeId) Sample.crypto _ Sample.revokingIam
        Sample.mailbox 1) ⟨.down none, Sample.grantRevoked⟩
        [.restart (some Sample.grantRevoked), .poll (some [Sample.delivering Sample.first]),
          .handle 1 (some Sample.moreRevoked)
            fun issuer _ => issuer = Sample.recipient]).server.process
      = some ⟨Sample.fresh, .replying ⟨7, (Sample.delivery Sample.first).request,
        .error message⟩ [] false⟩ := by
  refine @revoked_grant_opens_nothing (NodeId × NodeId) Prod.fst (fun _ => 0) Sample.crypto _
    Sample.revokingIam Sample.mailbox 1 _ Sample.refusesRevoked (Sample.recipient, Sample.mailbox)
    (List.mem_singleton_self _) _
    [.restart (some Sample.grantRevoked), .poll (some [Sample.delivering Sample.first])] []
    ?_ _ _ _ rfl _ _ _ _ rfl _ _ _ Sample.request_delivering (List.mem_singleton_self _)
    (Or.inl rfl)
  intro e he
  rcases List.mem_cons.mp he with rfl | he
  · exact ⟨_, rfl, List.mem_singleton_self _⟩
  rcases List.mem_cons.mp he with rfl | he
  · trivial
  obtain rfl := List.mem_singleton.mp he
  exact List.mem_cons_of_mem _ (List.mem_singleton_self _)

end CeMail
