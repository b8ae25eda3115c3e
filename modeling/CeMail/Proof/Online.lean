import CeMail.Lib.Track
import CeMail.Model.Online
import CeMail.Proof.Command
import CeMail.Proof.Delivery

/-!
# The command on a network and the desk

`Desk` has a mailbox of its own and takes a step at a time. Here the command is a program on
a network on which anything else happens meanwhile, and the mailbox is the service it asks.
As long as nobody else acks the recipient's mail, whatever comes of a run is what the desk
can come to: its drain is the desk's drain at the point where the request was handled, the
deliveries handled before and after are the desk's, it panics over the same list, and
wherever else the run stops the desk crashes. So what is proved of the desk in every run
holds of the command.
-/

namespace CeMail

open Effect

/-! ## What happens on the network meanwhile -/

section Goes

variable {Cap : Type} {k address : String} {n m n' : Network Cap}

/-- The request acks the mail under the key. -/
def Call.AcksKey (c : Call Cap) (k : String) : Prop :=
  ∃ cursor grant, c.request = .ack k cursor grant

/-- None of the others acks the mail under the key at the address. -/
def Network.LeavesMail (n : Network Cap) (address k : String) : Prop :=
  ∀ turn ∈ n.turns, ∀ call ∈ callsAt address turn.others, ¬call.AcksKey k

/-- The network goes on, and nobody acks the mail under the key at the address. -/
structure Network.Goes (address k : String) (n n' : Network Cap) : Prop where
  start : n'.start = n.start
  turns : n'.turns ⊆ n.turns
  calls : ∃ calls, callsAt address n'.past = callsAt address n.past ++ calls
    ∧ ∀ call ∈ calls, ¬call.AcksKey k

theorem Network.Goes.refl (n : Network Cap) : n.Goes address k n :=
  ⟨rfl, List.Subset.refl _, [], (List.append_nil _).symm, fun _ h => by cases h⟩

theorem Network.Goes.trans (h : n.Goes address k m) (h' : m.Goes address k n') :
    n.Goes address k n' := by
  obtain ⟨calls, hcalls, hnot⟩ := h.calls
  obtain ⟨calls', hcalls', hnot'⟩ := h'.calls
  refine ⟨h'.start.trans h.start, List.Subset.trans h'.turns h.turns, calls ++ calls', ?_, ?_⟩
  · rw [hcalls', hcalls, List.append_assoc]
  · exact fun call hcall => (List.mem_append.mp hcall).elim (hnot call) (hnot' call)

theorem Network.LeavesMail.goes (h : n.LeavesMail address k) (hgoes : n.Goes address k n') :
    n'.LeavesMail address k := fun turn hturn => h turn (hgoes.turns hturn)

theorem Network.LeavesMail.await (h : n.LeavesMail address k) : n.Goes address k n.await.2 := by
  unfold Network.await
  split
  · exact .refl n
  · rename_i turn turns hturns
    refine ⟨rfl, ?_, callsAt address turn.others, callsAt_append address n.past turn.others, ?_⟩
    · exact hturns ▸ List.subset_cons_self turn turns
    · exact h turn (hturns ▸ List.mem_cons_self)

theorem Network.goes_happen {call : Call Cap} (h : ¬call.AcksKey k) :
    n.Goes address k (n.happen (call.event address)) :=
  ⟨rfl, List.Subset.refl _, [call], callsAt_happen n address call,
    fun _ hc => List.mem_singleton.mp hc ▸ h⟩

end Goes

section Crypto

variable [Crypto]

/-! ## The mail under one key -/

/-- Same capacity, and the same mail under the key. -/
structure SameMail (k : String) (s t : MailboxStore) : Prop where
  capacity : s.capacityPerRecipient = t.capacityPerRecipient
  mail : s.mail k = t.mail k

variable {k : String} {s t : MailboxStore}

omit [Crypto] in
theorem SameMail.readFrom (h : SameMail k s t) (since : UInt64) :
    s.readFrom k since = t.readFrom k since := by
  have hqueue : s.queue k = t.queue k := congrArg Slot.queue h.mail
  rw [MailboxStore.readFrom_eq, MailboxStore.readFrom_eq, hqueue]

omit [Crypto] in
theorem SameMail.ack (h : SameMail k s t) (cursor : UInt64) :
    SameMail k (s.ack k cursor).1 (t.ack k cursor).1 := by
  refine ⟨?_, ?_⟩
  · rw [(MailboxStore.ack_frame k cursor).2.1, (MailboxStore.ack_frame k cursor).2.1, h.capacity]
  · rw [MailboxStore.mail_ack, MailboxStore.mail_ack, h.mail]

/-- An envelope is stored in both, or in neither, or elsewhere. -/
theorem SameMail.accept (h : SameMail k s t) (e : Envelope) (now : UInt64) :
    SameMail k (s.accept e now).1 (t.accept e now).1 := by
  refine ⟨?_, ?_⟩
  · rw [(MailboxStore.accept_frame e now).2.1, (MailboxStore.accept_frame e now).2.1, h.capacity]
  by_cases hk : k = e.body.to
  · subst hk
    have hfresh : s.Fresh e ↔ t.Fresh e := by
      rw [MailboxStore.Fresh, MailboxStore.Fresh, h.mail]
    by_cases hs : s.Fresh e
    · rw [MailboxStore.mail_accept hs, MailboxStore.mail_accept (hfresh.mp hs), h.mail,
        MailboxStore.capacity, MailboxStore.capacity, h.capacity]
    · rw [(MailboxStore.accept_of_not_fresh hs now).1,
        (MailboxStore.accept_of_not_fresh (fun ht => hs (hfresh.mpr ht)) now).1, h.mail]
  · have hs := (frame_call s (.accept e now) hk).1
    have ht := (frame_call t (.accept e now) hk).1
    rw [MailboxStore.call_accept] at hs ht
    rw [hs, ht, h.mail]

/-! ## The steps of the desk -/

theorem Desk.leads {d d' : Desk} {a : DeskAct} {printed : List Message}
    (h : Desk.step k d a = (d', printed)) : Machine.Leads (Desk.step k) d printed d' := by
  have hleads := Machine.leads_step (Desk.step k) d a
  rwa [h] at hleads

theorem Desk.step_inbox {d : Desk} (h : d.stage = .idle) (ack : Bool) (since : Option UInt64)
    (fetch : Fetch) : Desk.step k d (.inbox ack since fetch)
      = ({ d with stage := .drained (d.drain k ack since fetch) }, []) := by
  unfold Desk.step
  dsimp only
  rw [h]

/-! ## What the service is asked -/

variable {Cap : Type} [Iam Cap]

/-- A request that acks no mail under the key is a delivery to the desk, or nothing. -/
theorem leads_of_call {d : Desk} {svc : MailService} (h : SameMail k d.store svc.store)
    {c : Call Cap} (hnot : ¬c.AcksKey k) :
    ∃ store, Machine.Leads (Desk.step k) d [] { d with store := store }
      ∧ SameMail k store (svc.step c).1.store := by
  rcases svc.store_step_cases c with hsame | ⟨-, op, hop, hcall⟩
  · exact ⟨d.store, .refl d, hsame ▸ h⟩
  rw [hcall]
  rcases mail_call svc.store op k with ⟨e, now, ⟨haccept, -⟩, -⟩ | ⟨cursor, hack, -⟩ | ⟨hmail, -⟩
  · obtain rfl : op = .accept e now := haccept
    exact ⟨_, Machine.leads_step (Desk.step k) d (.deliver e now), h.accept e now⟩
  · subst hack
    obtain ⟨grant, hreq⟩ := request_of_ack_mem hop
    exact absurd ⟨cursor, grant, hreq⟩ hnot
  · refine ⟨d.store, .refl d, ?_, ?_⟩
    · rw [(settings_call svc.store op).1, h.capacity]
    · rw [hmail, h.mail]

theorem leads_of_calls {d : Desk} {svc : MailService} (h : SameMail k d.store svc.store)
    {calls : List (Call Cap)} (hnot : ∀ c ∈ calls, ¬c.AcksKey k) :
    ∃ store, Machine.Leads (Desk.step k) d [] { d with store := store }
      ∧ SameMail k store (Machine.final MailService.step svc calls).store := by
  induction calls generalizing d svc with
  | nil => exact ⟨d.store, .refl d, h⟩
  | cons c calls ih =>
      obtain ⟨hc, hcalls⟩ := List.forall_mem_cons.mp hnot
      obtain ⟨store, hfirst, hstore⟩ := leads_of_call h hc
      obtain ⟨store', hrest, hstore'⟩ := ih (d := { d with store := store }) hstore hcalls
      exact ⟨store', hfirst.trans hrest, hstore'⟩

/-! ## The operations of the client -/

section Client

variable [Bincode Cap] [Bincode.Canonical Cap] {address : String} {n n' : Network Cap}
  {c : MailClient (Network Cap)} {me : NodeId}

omit [Bincode Cap] [Bincode.Canonical Cap] in
theorem goes_getBlob (h : n.LeavesMail address k) (cid : String) :
    Effect.Keeps (n.Goes address k) (Network.getBlob cid) := by
  have hawait : Effect.Keeps (n.Goes address k) (act Network.await) :=
    keeps_act fun n' hgoes => hgoes.trans (h.goes hgoes).await
  refine hawait.bind fun turn => ?_
  cases turn.fate with
  | dropped | unanswered => exact keeps_throw _
  | served =>
      refine keeps_act fun n' hgoes => ?_
      split <;> exact hgoes

/-- A request that gets there is the last thing that happens. -/
theorem run_exchange (me : NodeId) (address : String) (req : MailRequest Cap) (turn : NetTurn Cap)
    (fate : Fate) (m : Network Cap) :
    let exchange : NetM (Network Cap) (List UInt8) := do
      let payload ← Network.transmit req.encode
      let req ← Effect.lift (MailRequest.decode payload)
      let reply ← Effect.act (Network.serve address me req turn)
      if fate = .unanswered then throw "injected request failure (dropped peer)"
      else Network.transmit reply.encode
    let trip := exchange >>= fun reply => Effect.lift (MailReply.decode reply)
    (∃ e, trip.run.run m = (.error e, m))
      ∨ ∃ call : Call Cap, call.request = req
        ∧ (trip.run.run m).2 = m.happen (call.event address) := by
  intro exchange trip
  have hdecoded : (trip.run.run m).2 = (exchange.run.run m).2 := state_bind (fun _ _ => rfl) m
  by_cases hlen : req.encode.length < 2 ^ 64
  · refine Or.inr ⟨⟨me, req, turn.now, turn.isRevoked⟩, rfl, hdecoded.trans ?_⟩
    have htransmit : Runs (Network.transmit req.encode) m req.encode m := by
      unfold Network.transmit
      rw [if_pos hlen]
      exact runs_pure.mpr ⟨rfl, rfl⟩
    have hdecode : Runs (Effect.lift (MailRequest.decode req.encode)) m req m :=
      runs_lift.mpr ⟨decode_encode_request hlen, rfl⟩
    have hserve : ((act (Network.serve address me req turn)).run.run m).2
        = m.happen (.request address me req turn.now turn.isRevoked) := by
      show (Network.serve address me req turn m).2 = _
      unfold Network.serve
      dsimp only
      split <;> rfl
    rw [run_bind_of_runs htransmit, run_bind_of_runs hdecode, state_bind]
    · exact hserve
    · intro reply t
      split
      · rfl
      · unfold Network.transmit
        split <;> rfl
  · refine Or.inl ⟨"message does not fit in memory", run_bind_of_error (run_bind_of_error ?_)⟩
    unfold Network.transmit
    rw [if_neg hlen]
    rfl

/-- A round trip fails before the request is handled, or that is the last thing that happens. -/
theorem run_roundTrip (hc : c.transport = Network.handle me) (h : n.LeavesMail address k)
    (req : MailRequest Cap) :
    ∃ m, n.Goes address k m ∧ ((∃ e, (c.roundTrip address req).run.run n = (.error e, m))
      ∨ ∃ call : Call Cap, call.request = req
        ∧ ((c.roundTrip address req).run.run n).2 = m.happen (call.event address)) := by
  obtain ⟨x, hx⟩ : ∃ x, x = c.roundTrip address req := ⟨_, rfl⟩
  rw [← hx]
  unfold MailClient.roundTrip at hx
  rw [hc] at hx
  change x = Network.request me address req.encode >>= _ at hx
  unfold Network.request at hx
  rw [bind_assoc] at hx
  subst hx
  have hawait := h.await
  rcases hturn : n.await with ⟨error | turn, m⟩
  · rw [hturn] at hawait
    exact ⟨m, hawait, Or.inl ⟨error, run_bind_of_error hturn⟩⟩
  · rw [hturn] at hawait
    refine ⟨m, hawait, ?_⟩
    rw [run_bind_of_runs (runs_act.mpr hturn)]
    cases turn.fate with
    | dropped => exact Or.inl ⟨_, rfl⟩
    | served => exact run_exchange me address req turn .served m
    | unanswered => exact run_exchange me address req turn .unanswered m

/-- Nothing but an ack acks. -/
theorem goes_roundTrip (hc : c.transport = Network.handle me) (h : n.LeavesMail address k)
    {req : MailRequest Cap} (hnot : ∀ cursor grant, req ≠ .ack k cursor grant) :
    Effect.Keeps (n.Goes address k) (c.roundTrip address req) := by
  intro n' hgoes
  obtain ⟨m, hm, hrun⟩ := run_roundTrip hc (h.goes hgoes) req
  rcases hrun with ⟨e, hrun⟩ | ⟨call, hreq, hrun⟩
  · rw [hrun]
    exact hgoes.trans hm
  · rw [hrun]
    refine (hgoes.trans hm).trans (Network.goes_happen ?_)
    rintro ⟨cursor, grant, hack⟩
    exact hnot cursor grant (hreq ▸ hack)

variable [Curve] [Sha512] [Aead] {selfId : NodeId} {capacity : UInt64} {limits : Limits}

omit [Bincode.Canonical Cap] in
theorem goes_composeMessages (hc : c.transport = Network.handle me) (h : n.LeavesMail address k)
    (envs : List Envelope) : Effect.Keeps (n.Goes address k) (c.composeMessages envs) := by
  refine keeps_composeMessages_of_get ?_ envs
  intro cid
  rw [hc]
  exact goes_getBlob h cid

theorem goes_drainInbox (hc : c.transport = Network.handle me) (h : n.LeavesMail address k)
    (since : UInt64) (grant : List Cap) :
    Effect.Keeps (n.Goes address k) (c.drainInbox address since grant) := by
  have hdrain : ∀ cursor grant', (.drain c.identity.nodeId.hex since grant : MailRequest Cap)
      ≠ .ack k cursor grant' := fun _ _ heq => by cases heq
  refine (goes_roundTrip hc h hdrain).bind fun reply => ?_
  cases reply with
  | drained envelopes cursor =>
      exact (goes_composeMessages hc h envelopes).bind fun _ => keeps_pure _
  | _ => exact keeps_throw _

/-- The store behind an address on a network. -/
def Network.storeAt (selfId : NodeId) (capacity : UInt64) (limits : Limits) (address : String)
    (n : Network Cap) : MailboxStore :=
  (serviceAfter selfId capacity limits (callsAt address n.past)).store

omit [Bincode Cap] [Bincode.Canonical Cap] [Curve] [Sha512] [Aead] in
/-- The desk keeps up with a network that goes on. -/
theorem leads_of_goes {d : Desk}
    (h : SameMail k d.store (n.storeAt selfId capacity limits address))
    (hgoes : n.Goes address k n') :
    ∃ store, Machine.Leads (Desk.step k) d [] { d with store := store }
      ∧ SameMail k store (n'.storeAt selfId capacity limits address) := by
  obtain ⟨calls, hcalls, hnot⟩ := hgoes.calls
  obtain ⟨store, hleads, hstore⟩ := leads_of_calls h hnot
  refine ⟨store, hleads, ?_⟩
  rw [Network.storeAt, hcalls, serviceAfter, Machine.final_append]
  exact hstore

omit [Bincode Cap] [Bincode.Canonical Cap] [Curve] [Sha512] [Aead] in
/-- A drain shows no envelope twice. -/
theorem nodup_readFrom (n : Network Cap) (since : UInt64) :
    (((n.storeAt selfId capacity limits address).readFrom k since).1.map
      StoredEnvelope.envelope).Nodup := by
  have hkept := kept_serviceAfter selfId capacity limits (callsAt address n.past) k
  refine List.Nodup.of_map Envelope.messageId ?_
  rw [MailboxStore.readFrom_eq, List.map_map]
  exact hkept.sound.nodup.sublist ((List.drop_sublist _ _).map _)

/-- **A drain over the network is a drain of the desk**, among the deliveries around it. -/
theorem leads_drain (hc : c.transport = Network.handle me)
    (hhosts : n.Hosts address selfId capacity limits)
    (h : n.LeavesMail address c.identity.nodeId.hex) {d : Desk} (hidle : d.stage = .idle)
    (hstore : SameMail c.identity.nodeId.hex d.store (n.storeAt selfId capacity limits address))
    (ack : Bool) (since : Option UInt64) {grant : List Cap} {messages : List Message}
    {cursor : UInt64}
    (hrun : Runs (c.drainInbox address (since.getD d.dir.cursor) grant) n (messages, cursor) n') :
    ∃ store session, Machine.Leads (Desk.step c.identity.nodeId.hex) d []
        { d with store := store, stage := .drained session }
      ∧ SameMail c.identity.nodeId.hex store (n'.storeAt selfId capacity limits address)
      ∧ session.msgs = messages ∧ session.cursor = cursor
      ∧ session.acks = (ack && since.getD d.dir.cursor < cursor) := by
  obtain ⟨reply, n₁, htrip, hreply⟩ := runs_bind.mp hrun
  obtain ⟨m, hm, hstate⟩ := run_roundTrip hc h
    (.drain c.identity.nodeId.hex (since.getD d.dir.cursor) grant)
  obtain ⟨before, call, -, hreq, -, hcalls, hanswer⟩ := runs_roundTrip hc hhosts htrip
  rcases hstate with ⟨e, herror⟩ | ⟨call', hreq', hlast⟩
  · cases htrip.symm.trans herror
  -- the drain was the last thing that happened, on what was there before it
  obtain rfl : n₁ = m.happen (call'.event address) := by
    rw [← hlast, htrip]
  rw [callsAt_happen] at hcalls
  obtain ⟨rfl, -⟩ := List.append_inj' hcalls rfl
  have hnot : ¬call'.AcksKey c.identity.nodeId.hex := by
    rintro ⟨cursor, grant, hack⟩
    cases hreq'.symm.trans hack
  cases reply with
  | drained envelopes cursor' =>
      obtain ⟨messages', n₂, hmessages, hpure⟩ := runs_bind.mp hreply
      obtain ⟨hpair, rfl⟩ := runs_pure.mp hpure
      obtain ⟨rfl, rfl⟩ := Prod.mk.inj hpair
      obtain ⟨henvelopes, hcursor⟩ := drained_of_answer hreq hanswer
      obtain ⟨store, hfirst, hstore⟩ := leads_of_goes hstore hm
      have hread := hstore.readFrom (since.getD d.dir.cursor)
      -- the answers of the network make the messages
      have hnodup : envelopes.Nodup := henvelopes ▸ nodup_readFrom m _
      obtain ⟨fetch, n₃, hfetch⟩ := exists_composeMessages (c := c) hnodup
        (m.happen (call'.event address))
      obtain ⟨rfl, -⟩ := hfetch.unique hmessages
      let opened : Desk := { d with store := store }
      let session := opened.drain c.identity.nodeId.hex ack since fetch
      have hstep : Desk.step c.identity.nodeId.hex opened (.inbox ack since fetch)
          = ({ opened with stage := .drained session }, []) :=
        Desk.step_inbox (d := opened) hidle ack since fetch
      have hgoes := (Network.goes_happen hnot).trans <|
        (goes_composeMessages hc ((h.goes hm).goes (Network.goes_happen hnot)) envelopes).runs
          hmessages (.refl _)
      let drained : Desk := { opened with stage := .drained session }
      obtain ⟨store', hrest, hstore'⟩ := leads_of_goes (d := drained) hstore hgoes
      have hcursor' : session.cursor = cursor := (congrArg Prod.snd hread).trans hcursor.symm
      have henvelopes' : session.envelopes = envelopes :=
        (congrArg (fun r => r.1.map StoredEnvelope.envelope) hread).trans henvelopes.symm
      refine ⟨store', session, (hfirst.trans (Desk.leads hstep)).trans hrest, hstore',
        congrArg fetch.messages henvelopes', hcursor', ?_⟩
      rw [← hcursor']
      rfl
  | _ => exact absurd hreply not_runs_throw

/-! ## The command -/

/-- The desk is at this stage of a run, with the files of the command and the mail of its
mailbox. -/
structure Mirrors (selfId : NodeId) (capacity : UInt64) (limits : Limits) (address k : String)
    (stage : Stage) (s : Network Cap × DataDir) (d : Desk) : Prop where
  dir : d.dir = s.2
  stage : d.stage = stage
  mail : SameMail k d.store (s.1.storeAt selfId capacity limits address)
  hosts : s.1.Hosts address selfId capacity limits
  alone : s.1.LeavesMail address k

variable {stage : Stage} {s : Network Cap × DataDir} {d : Desk}

omit [Bincode Cap] [Bincode.Canonical Cap] [Curve] [Sha512] [Aead] in
/-- Where a run stops the desk crashes. -/
theorem Mirrors.crash (h : Mirrors selfId capacity limits address k stage s d) :
    ∃ d', Machine.Leads (Desk.step k) d [] d'
      ∧ Mirrors selfId capacity limits address k .idle s d' :=
  ⟨_, Machine.leads_step (Desk.step k) d .crash, h.dir, rfl, h.mail, h.hosts, h.alone⟩

omit [Bincode Cap] [Bincode.Canonical Cap] [Curve] [Sha512] [Aead] in
/-- A run that panics over its list is over with it. -/
theorem Mirrors.panic {session : Session} (hpanics : ¬session.Lists)
    (h : Mirrors selfId capacity limits address k (.drained session) s d) :
    ∃ d', Machine.Leads (Desk.step k) d (listed session.msgs) d'
      ∧ Mirrors selfId capacity limits address k .idle s d' :=
  ⟨_, Desk.leads (Desk.next_panics h.stage hpanics), h.dir, rfl, h.mail, h.hosts, h.alone⟩

omit [Bincode Cap] [Bincode.Canonical Cap] [Curve] [Sha512] [Aead] in
/-- A run that acks nothing is over with its two files. -/
theorem Mirrors.finish {session : Session} (hacks : ¬session.acks = true)
    (h : Mirrors selfId capacity limits address k (.cursorSaved session) s d) :
    ∃ d', Machine.Leads (Desk.step k) d [] d'
      ∧ Mirrors selfId capacity limits address k .idle s d' :=
  ⟨_, Desk.leads (Desk.next_finished h.stage hacks), h.dir, rfl, h.mail, h.hosts, h.alone⟩

omit [Bincode Cap] [Bincode.Canonical Cap] [Curve] [Sha512] [Aead] in
/-- A step of the network that keeps the mailbox, and the desk with it. -/
theorem Mirrors.goes (h : Mirrors selfId capacity limits address k stage s d)
    (hgoes : s.1.Goes address k n') {store : MailboxStore}
    (hmail : SameMail k store (n'.storeAt selfId capacity limits address)) :
    Mirrors selfId capacity limits address k stage (n', s.2) { d with store := store } where
  dir := h.dir
  stage := h.stage
  mail := hmail
  hosts := by
    rw [Network.Hosts, hgoes.start]
    exact h.hosts
  alone := h.alone.goes hgoes

theorem tracks_drain (hc : c.transport = Network.handle me) (ack : Bool) (since : Option UInt64)
    (grant : List Cap) (start : UInt64) :
    Tracks (Desk.step c.identity.nodeId.hex)
      (Mirrors selfId capacity limits address c.identity.nodeId.hex .idle)
      (fun s d => Mirrors selfId capacity limits address c.identity.nodeId.hex .idle s d
        ∧ start = since.getD s.2.cursor)
      (online (c.drainInbox address start grant))
      fun r shown s d => shown = [] ∧ ∃ session : Session, session.msgs = r.1
        ∧ session.cursor = r.2 ∧ session.acks = (ack && start < r.2)
        ∧ Mirrors selfId capacity limits address c.identity.nodeId.hex (.drained session) s d := by
  refine tracks_act ?_ ?_
  · rintro ⟨n, dir⟩ d ⟨messages, cursor⟩ ⟨h, rfl⟩ hresult
    have hgoes := goes_drainInbox hc h.alone (since.getD dir.cursor) grant n (.refl n)
    have hrun : Runs (c.drainInbox address (since.getD d.dir.cursor) grant) n (messages, cursor)
        ((c.drainInbox address (since.getD dir.cursor) grant).run.run n).2 := by
      rw [h.dir]
      exact Prod.ext hresult rfl
    obtain ⟨store, session, hleads, hmail, hmsgs, hcursor, hacks⟩ :=
      leads_drain hc h.hosts h.alone h.stage h.mail ack since hrun
    rw [h.dir] at hacks
    obtain ⟨hdir, -, hmail, hhosts, halone⟩ := h.goes hgoes hmail
    exact ⟨_, [], hleads, rfl, session, hmsgs, hcursor, hacks, hdir, rfl, hmail, hhosts, halone⟩
  · rintro ⟨n, dir⟩ d e ⟨h, rfl⟩ -
    have hgoes := goes_drainInbox hc h.alone (since.getD dir.cursor) grant n (.refl n)
    obtain ⟨store, hleads, hmail⟩ := leads_of_goes h.mail hgoes
    exact ⟨_, [], hleads, h.goes hgoes hmail⟩

omit [Bincode Cap] [Bincode.Canonical Cap] [Curve] [Sha512] [Aead] in
/-- A file is written, which is the next step of the desk, or the desk crashes. -/
theorem tracks_saveFile {stage' : Stage} {write : DataDir → DataDir} {printed : List Message}
    (hnext : ∀ d : Desk, d.stage = stage →
      Desk.step k d .next = ({ d with dir := write d.dir, stage := stage' }, printed))
    (outcome : Except String Unit) :
    Tracks (Desk.step k) (Mirrors selfId capacity limits address k .idle)
      (Mirrors selfId capacity limits address k stage) (saveFile outcome write)
      fun _ shown (s : Network Cap × DataDir) d => shown = printed
        ∧ Mirrors selfId capacity limits address k stage' s d := by
  refine tracks_act ?_ ?_
  · intro s d _ h hresult
    cases outcome with
    | error message => cases hresult
    | ok _ =>
        exact ⟨_, _, Desk.leads (hnext d h.stage), rfl,
          ⟨congrArg write h.dir, rfl, h.mail, h.hosts, h.alone⟩⟩
  · intro s d e h hresult
    cases outcome with
    | error message =>
        obtain ⟨d', hleads, hidle⟩ := h.crash
        exact ⟨d', [], hleads, hidle⟩
    | ok _ => cases hresult

omit [Aead] in
/-- **Whatever comes of an ack**, the desk can come to. -/
theorem leads_ack (hc : c.transport = Network.handle me) {session : Session}
    (hacks : session.acks = true)
    (h : Mirrors selfId capacity limits address c.identity.nodeId.hex (.cursorSaved session) s d)
    (grant : List Cap) :
    ∃ d', Machine.Leads (Desk.step c.identity.nodeId.hex) d [] d'
      ∧ Mirrors selfId capacity limits address c.identity.nodeId.hex .idle
        (((c.ack address session.cursor grant).run.run s.1).2, s.2) d' := by
  obtain ⟨n', hn'⟩ : ∃ n', n' = ((c.ack address session.cursor grant).run.run s.1).2 := ⟨_, rfl⟩
  rw [← hn']
  have htrip : n' = ((c.roundTrip address
      (.ack c.identity.nodeId.hex session.cursor grant)).run.run s.1).2 := by
    rw [hn']
    refine state_bind ?_ s.1
    intro reply t
    cases reply <;> rfl
  obtain ⟨m, hm, hstate⟩ := run_roundTrip hc h.alone
    (.ack c.identity.nodeId.hex session.cursor grant)
  obtain ⟨store, hfirst, hstore⟩ := leads_of_goes h.mail hm
  have hmet := h.goes hm hstore
  rcases hstate with ⟨e, herror⟩ | ⟨call, hreq, hlast⟩
  · obtain rfl : n' = m := by rw [htrip, herror]
    obtain ⟨d', hrest, hidle⟩ := hmet.crash
    exact ⟨d', hfirst.trans hrest, hidle⟩
  obtain rfl : n' = m.happen (call.event address) := by rw [htrip, hlast]
  have hafter : (m.happen (call.event address)).storeAt selfId capacity limits address
      = ((serviceAfter selfId capacity limits (callsAt address m.past)).step call).1.store := by
    rw [Network.storeAt, callsAt_happen, serviceAfter_concat]
  rcases (serviceAfter selfId capacity limits (callsAt address m.past)).store_step_cases call with
    hsame | ⟨-, op, hop, hcall⟩
  · -- the service refused it
    obtain ⟨d', hrest, hdir, hidle, hmail, hhosts, halone⟩ := hmet.crash
    exact ⟨d', hfirst.trans hrest, hdir, hidle, (hafter.trans hsame) ▸ hmail, hhosts, halone⟩
  · rw [hreq] at hop
    obtain rfl := List.mem_singleton.mp hop
    rw [MailboxStore.call_ack] at hcall
    refine ⟨_, hfirst.trans (Desk.leads (Desk.next_acks hmet.stage hacks)), h.dir, rfl, ?_,
      hmet.hosts, hmet.alone⟩
    rw [hafter, hcall]
    exact hstore.ack session.cursor

omit [Aead] in
theorem tracks_ack (hc : c.transport = Network.handle me) {session : Session}
    (hacks : session.acks = true) (grant : List Cap) :
    Tracks (Desk.step c.identity.nodeId.hex)
      (Mirrors selfId capacity limits address c.identity.nodeId.hex .idle)
      (Mirrors selfId capacity limits address c.identity.nodeId.hex (.cursorSaved session))
      (online (c.ack address session.cursor grant))
      fun _ shown s d => shown = []
        ∧ Mirrors selfId capacity limits address c.identity.nodeId.hex .idle s d := by
  refine tracks_act ?_ ?_
  · intro s d _ h _
    obtain ⟨d', hleads, hidle⟩ := leads_ack hc hacks h grant
    exact ⟨d', [], hleads, rfl, hidle⟩
  · intro s d _ h _
    obtain ⟨d', hleads, hidle⟩ := leads_ack hc hacks h grant
    exact ⟨d', [], hleads, hidle⟩

/-- **Whatever comes of a run of the command**, the desk can come to. -/
theorem tracks_inbox (hc : c.transport = Network.handle me) (call : InboxCall Cap) :
    Tracks (Desk.step c.identity.nodeId.hex)
      (Mirrors selfId capacity limits address c.identity.nodeId.hex .idle)
      (Mirrors selfId capacity limits address c.identity.nodeId.hex .idle)
      (c.inbox address call)
      fun messages shown s d => shown = messages
        ∧ Mirrors selfId capacity limits address c.identity.nodeId.hex .idle s d := by
  unfold MailClient.inbox
  refine Tracks.bind (Q := fun start shown s d => shown = [] ∧
    Mirrors selfId capacity limits address c.identity.nodeId.hex .idle s d
      ∧ start = call.since.getD s.2.cursor) (tracks_act ?_ ?_) fun start shown => ?_
  · rintro s d _ h hresult
    cases hresult
    exact ⟨d, [], .refl d, rfl, h, rfl⟩
  · rintro s d e - hresult
    cases hresult
  refine tracks_of_fact fun hnone => ?_
  subst hnone
  refine (tracks_drain hc call.ack call.since call.grant start).bind fun r shown => ?_
  obtain ⟨messages, cursor⟩ := r
  refine tracks_of_fact fun hnone => tracks_of_exists fun session => ?_
  subst hnone
  refine tracks_of_fact fun hmsgs => tracks_of_fact fun hcursor => tracks_of_fact fun hacks => ?_
  dsimp only at hmsgs hcursor hacks ⊢
  subst hmsgs hcursor
  split
  · rename_i fault hfault
    refine tracks_throw fun s d h => ?_
    have hpanics : ¬session.Lists := by
      rintro ⟨lines, hlines⟩
      cases hfault.symm.trans hlines
    obtain ⟨d', hleads, hidle⟩ := h.panic hpanics
    exact ⟨d', _, hleads, hidle⟩
  rename_i lines hlines
  have hlists : session.Lists := ⟨lines, hlines⟩
  -- the first write is where the desk prints, the second saves the cursor
  refine (tracks_saveFile (fun _ h => Desk.next_drained h hlists)
    call.saveSnapshot).bind fun _ shown => ?_
  refine tracks_of_fact fun hshown => ?_
  subst hshown
  refine (tracks_saveFile (fun _ => Desk.next_snapshotted) call.writeCursor).bind fun _ shown => ?_
  refine tracks_of_fact fun hnone => ?_
  subst hnone
  rw [← hacks]
  split
  · rename_i hdoes
    refine (tracks_ack hc hdoes call.grant).bind fun _ shown => ?_
    refine tracks_of_fact fun hnone => tracks_pure fun s d h => ?_
    subst hnone
    exact ⟨by simp, h⟩
  · rename_i hdoes
    intro s d h
    obtain ⟨d', hleads, hidle⟩ := h.finish hdoes
    exact ⟨d', [], hleads, by simp, hidle⟩

/-- One run of the command after another: what each came to, and the network and the files. -/
def MailClient.inboxStep (c : MailClient (Network Cap)) (address : String)
    (s : Network Cap × DataDir) (call : InboxCall Cap) :
    (Network Cap × DataDir) × Except String (List Message) :=
  (((c.inbox address call).run.run s).2, ((c.inbox address call).run.run s).1)

/--
**The command on a network refines the desk.** Let the recipient run `inbox` again and again,
with any arguments, while others do what they want on the network but ack its mail there;
and let requests, replies and writes fail as they may and a sender that cannot be printed
stop a run. Then the desk has a run, from the same mail and the same files, that ends with
the same mail and the same files, and what each run of the command that went through printed
is what the desk printed in its part.
-/
theorem inbox_refines_desk (hc : c.OnNetwork) {n : Network Cap}
    (hhosts : n.Hosts address selfId capacity limits)
    (halone : n.LeavesMail address c.identity.nodeId.hex) (dir : DataDir)
    (calls : List (InboxCall Cap)) :
    let s := Machine.final (c.inboxStep address) (n, dir) calls
    ∃ d printed, Machine.Leads (Desk.step c.identity.nodeId.hex)
        ⟨n.storeAt selfId capacity limits address, dir, .idle⟩ printed.flatten d
      ∧ d.dir = s.2 ∧ d.stage = .idle
      ∧ SameMail c.identity.nodeId.hex d.store (s.1.storeAt selfId capacity limits address)
      ∧ List.Forall₂ (fun result shown => ∀ messages, result = .ok messages → shown = messages)
        (Machine.outputs (c.inboxStep address) (n, dir) calls) printed := by
  intro s
  have hstart : Mirrors selfId capacity limits address c.identity.nodeId.hex .idle (n, dir)
      ⟨n.storeAt selfId capacity limits address, dir, .idle⟩ :=
    ⟨rfl, rfl, ⟨rfl, rfl⟩, hhosts, halone⟩
  let Shows (result : Except String (List Message)) (shown : List Message) : Prop :=
    ∀ messages, result = .ok messages → shown = messages
  have hstep : ∀ (s : Network Cap × DataDir) (d : Desk) (call : InboxCall Cap),
      Mirrors selfId capacity limits address c.identity.nodeId.hex .idle s d →
      ∃ d' shown, Machine.Leads (Desk.step c.identity.nodeId.hex) d shown d'
        ∧ Mirrors selfId capacity limits address c.identity.nodeId.hex .idle
          (c.inboxStep address s call).1 d'
        ∧ Shows (c.inboxStep address s call).2 shown := by
    intro s d call h
    obtain ⟨d', shown, hleads, hresult⟩ := tracks_inbox hc call s d h
    refine ⟨d', shown, hleads, ?_⟩
    unfold MailClient.inboxStep
    rcases hrun : ((c.inbox address call).run.run s).1 with e | messages <;> rw [hrun] at hresult
    · exact ⟨hresult, fun messages hok => by cases hok⟩
    · refine ⟨hresult.2, ?_⟩
      intro messages' hok
      rw [hresult.1]
      exact Except.ok.inj hok
  obtain ⟨d, printed, hleads, hmirrors, hshown⟩ := Machine.leads_of_step hstep hstart calls
  exact ⟨d, printed, hleads, hmirrors.dir, hmirrors.stage, hmirrors.mail, hshown⟩

end Client

end Crypto

namespace Sample

/-- A run that lists what is new and acks nothing. -/
def listing : InboxCall (NodeId × NodeId) := ⟨none, [], false, .ok (), .ok ()⟩

/-- The files of the recipient after it has listed `first`. -/
def listedDir : DataDir := ⟨1, some [@Message.snap crypto ⟨first, [], none⟩]⟩

theorem runs_inbox_first :
    Runs (@MailClient.inbox _ (NodeId × NodeId) curve sha512 crypto aead _ reader mailbox.hex
      listing) (metNet, ⟨0, none⟩) [⟨first, [], none⟩] (readNet, listedDir) := by
  have hdrain : Runs (online (@MailClient.drainInbox _ (NodeId × NodeId) curve sha512 crypto aead
      reader _ mailbox.hex 0 [])) (metNet, ⟨0, none⟩) ([⟨first, [], none⟩], 1)
      (readNet, ⟨0, none⟩) := by
    have hrun := runs_drain_first
    unfold Runs at hrun
    refine runs_act.mpr ?_
    dsimp only
    rw [hrun]
  have hprint : (@printInbox crypto [⟨first, [], none⟩]).map (fun _ => ()) = .ok () := by
    decide +kernel
  refine runs_bind.mpr ⟨0, (metNet, ⟨0, none⟩), rfl, ?_⟩
  refine runs_bind.mpr ⟨([⟨first, [], none⟩], 1), (readNet, ⟨0, none⟩), hdrain, ?_⟩
  dsimp only
  split
  · rename_i hpanic
    rw [hpanic] at hprint
    cases hprint
  · exact runs_bind.mpr ⟨(), (readNet, ⟨0, listedDir.snapshot⟩), rfl,
      runs_bind.mpr ⟨(), (readNet, listedDir), rfl, rfl⟩⟩

theorem step_inbox_first :
    @MailClient.inboxStep crypto _ _ curve sha512 aead reader mailbox.hex (metNet, ⟨0, none⟩)
      listing = ((readNet, listedDir), .ok [⟨first, [], none⟩]) := by
  have hrun := runs_inbox_first
  unfold Runs at hrun
  unfold MailClient.inboxStep
  rw [hrun]

end Sample

/-- The theorem for a recipient that lists `first` once. -/
theorem inbox_refines_desk_sample :
    ∃ d, Machine.Leads (@Desk.step Sample.crypto
        (@Identity.nodeId Sample.curve Sample.sha512 Sample.reader.identity).hex)
        ⟨@Network.storeAt Sample.crypto _ Sample.iam Sample.mailbox 1 default Sample.mailbox.hex
          Sample.metNet, ⟨0, none⟩, .idle⟩ [⟨Sample.first, [], none⟩] d
      ∧ d.dir = Sample.listedDir ∧ d.stage = .idle := by
  have halone : Sample.metNet.LeavesMail Sample.mailbox.hex
      (@Identity.nodeId Sample.curve Sample.sha512 Sample.reader.identity).hex := by
    intro turn hturn call hcall
    obtain rfl := List.eq_of_mem_replicate hturn
    cases hcall
  obtain ⟨d, printed, hleads, hdir, hidle, -, hprinted⟩ :=
    @inbox_refines_desk Sample.crypto _ Sample.iam _ _ Sample.mailbox.hex Sample.reader
      Sample.curve Sample.sha512 Sample.aead Sample.mailbox 1 default rfl Sample.metNet
      (Sample.lookup_oneMailbox 1) halone ⟨0, none⟩ [Sample.listing]
  rw [Machine.final, Machine.final, Sample.step_inbox_first] at hdir
  rw [Machine.outputs, Machine.outputs, Sample.step_inbox_first] at hprinted
  -- the one run printed one part
  cases hprinted with
  | cons hshown hnone =>
      cases hnone
      rw [hshown _ rfl] at hleads
      exact ⟨d, hleads, hdir, hidle⟩

end CeMail
