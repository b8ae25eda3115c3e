import CeMail.Model.Server
import CeMail.Proof.ServiceRun
import CeMail.Proof.StoreFormat

/-!
# The node between its memory and its file

The loop answers each message at once and writes the store at the end of the batch. So
there is a time when the sender has been told and the file does not know: a crash then
takes the envelope with it. And the loop forgets at every poll whether the last write went
through, so after one that failed the file stays behind until a batch changes the store
again.
-/

namespace CeMail

section Server

variable {Cap : Type} [Crypto] [Bincode Cap] [Iam Cap] (selfId : NodeId) (capacity : UInt64)

/-! ## Runs -/

/-- The node before its first start, with whatever file there is. -/
def Server.down (file : Option (List UInt8)) : Server Cap := ⟨file, none⟩

/-- The node after some events. -/
abbrev serverAfter (Cap : Type) [Bincode Cap] [Iam Cap] (selfId : NodeId) (capacity : UInt64)
    (file : Option (List UInt8)) (events : List ServerEvent) : Server Cap :=
  Machine.final (Server.step selfId capacity) (.down file) events

/-- The events, each with the state it met. -/
abbrev serverVisits (Cap : Type) [Bincode Cap] [Iam Cap] (selfId : NodeId) (capacity : UInt64)
    (file : Option (List UInt8)) (events : List ServerEvent) : List (Server Cap × ServerEvent) :=
  Machine.visits (Server.step selfId capacity) (.down file) events

/-- The stores of a run hold no more than memory does. -/
def RunFits (Cap : Type) [Bincode Cap] [Iam Cap] (selfId : NodeId) (capacity : UInt64)
    (file : Option (List UInt8)) (events : List ServerEvent) : Prop :=
  ∀ start, start <+: events → ∀ p, (serverAfter Cap selfId capacity file start).process = some p →
    Bincode.Fits p.svc.store.file

def ServePhase.dirty : ServePhase Cap → Bool
  | .polling => false
  | .serving _ dirty => dirty
  | .replying _ _ dirty => dirty

/-- The batch is over: every message is handled and answered. -/
def ServePhase.atEnd : ServePhase Cap → Bool
  | .serving [] _ => true
  | _ => false

omit [Crypto] [Iam Cap] in
theorem AppMessage.request_eq_some {msg : AppMessage} {token : UInt64} {requester : NodeId}
    {req : MailRequest Cap} (htopic : msg.topic = mailTopic) (htoken : msg.replyToken = some token)
    (hfrom : msg.from = requester.hex) (hfits : Bincode.Fits req)
    (hpayload : msg.payload = some (MailRequest.encode req)) :
    msg.request = some (token, requester, req) := by
  have hdecode : MailRequest.decode (MailRequest.encode req) = .ok req := by
    rw [MailRequest.decode, Bincode.deserialize, MailRequest.encode, Bincode.dec_enc_self hfits]
  simp only [AppMessage.request, htopic, htoken, hfrom, hpayload, if_true, Option.bind_eq_bind,
    Option.bind_some, parseNodeId_hex, hdecode, Except.toOption]

theorem MailService.serve_of_step {svc svc' : MailService} {msg : AppMessage}
    {rest : List AppMessage} {dirty : Bool} {token : UInt64} {c : Call Cap} {reply : MailReply}
    (hreq : msg.request = some (token, c.requester, c.request))
    (hstep : svc.step c = (svc', .ok reply)) :
    svc.serve msg rest dirty c.now c.isRevoked
      = some ⟨svc', .replying ⟨token, c.request, reply⟩ rest
        (dirty || requestMutates c.request && !reply.isError)⟩ := by
  have hhandle : svc.handle c.requester c.request c.now c.isRevoked = (svc', .ok reply) := hstep
  rw [serve, hreq]
  simp only [hhandle]

/-- What one step can do, and the reply it sends. -/
inductive Moves : Server Cap → ServerEvent → Server Cap → Option (Sent Cap) → Prop where
  | idle {s : Server Cap} {i : ServerEvent} : Server.step selfId capacity s i = (s, none) →
      Moves s i s none
  | begun {file : Option (List UInt8)} {svc : MailService} {messages : List AppMessage} :
      Moves ⟨file, some ⟨svc, .polling⟩⟩ (.poll (some messages))
        ⟨file, some ⟨svc, .serving messages false⟩⟩ none
  | skipped {file : Option (List UInt8)} {svc : MailService} {msg : AppMessage}
      {rest : List AppMessage} {dirty : Bool} {now : UInt64}
      {isRevoked : NodeId → UInt64 → Bool} :
      Moves ⟨file, some ⟨svc, .serving (msg :: rest) dirty⟩⟩ (.handle now isRevoked)
        ⟨file, some ⟨svc, .serving rest dirty⟩⟩ none
  | handled {file : Option (List UInt8)} {svc svc' : MailService} {msg : AppMessage}
      {rest : List AppMessage} {dirty : Bool} {c : Call Cap} {token : UInt64} {reply : MailReply} :
      svc.step c = (svc', .ok reply) →
      Moves ⟨file, some ⟨svc, .serving (msg :: rest) dirty⟩⟩ (.handle c.now c.isRevoked)
        ⟨file, some ⟨svc', .replying ⟨token, c.request, reply⟩ rest
          (dirty || requestMutates c.request && !reply.isError)⟩⟩ none
  | died {s : Server Cap} {i : ServerEvent} : Moves s i ⟨s.file, none⟩ none
  | replied {file : Option (List UInt8)} {svc : MailService} {sent : Sent Cap}
      {rest : List AppMessage} {dirty delivered : Bool} :
      Moves ⟨file, some ⟨svc, .replying sent rest dirty⟩⟩ (.reply delivered)
        ⟨file, some ⟨svc, .serving rest dirty⟩⟩ (if delivered then some sent else none)
  | ended {file : Option (List UInt8)} {svc : MailService} {dirty written : Bool} :
      Moves ⟨file, some ⟨svc, .serving [] dirty⟩⟩ (.persist written)
        ⟨Server.fileAfter file svc.store dirty written, some ⟨svc, .polling⟩⟩ none
  | restarted {file : Option (List UInt8)} :
      Moves ⟨file, none⟩ .restart ⟨file, Server.load selfId capacity file⟩ none

theorem moves_step (s : Server Cap) (i : ServerEvent) :
    Moves selfId capacity s i (Server.step selfId capacity s i).1
      (Server.step selfId capacity s i).2 := by
  obtain ⟨file, process⟩ := s
  cases i with
  | poll messages =>
      rcases process with _ | ⟨svc, _ | ⟨rest, dirty⟩ | ⟨sent, rest, dirty⟩⟩
      · exact .idle rfl
      · cases messages with
        | none => exact .idle rfl
        | some messages => exact .begun
      · exact .idle rfl
      · exact .idle rfl
  | handle now isRevoked =>
      rcases process with _ | ⟨svc, _ | ⟨_ | ⟨msg, rest⟩, dirty⟩ | ⟨sent, rest, dirty⟩⟩
      · exact .idle rfl
      · exact .idle rfl
      · exact .idle rfl
      · show Moves selfId capacity _ _
          (⟨file, svc.serve msg rest dirty now isRevoked⟩ : Server Cap) none
        cases hreq : (msg.request : Option (UInt64 × NodeId × MailRequest Cap)) with
        | none =>
            rw [MailService.serve, hreq]
            exact .skipped
        | some p =>
            obtain ⟨token, requester, req⟩ := p
            cases hreply : svc.handle requester req now isRevoked with
            | mk svc' out =>
                cases out with
                | error panic =>
                    rw [MailService.serve, hreq]
                    simpa only [hreply] using Moves.died
                | ok reply =>
                    have hstep : svc.step (⟨requester, req, now, isRevoked⟩ : Call Cap)
                        = (svc', .ok reply) := hreply
                    rw [MailService.serve_of_step hreq hstep]
                    exact .handled hstep
      · exact .idle rfl
  | reply delivered =>
      rcases process with _ | ⟨svc, _ | ⟨rest, dirty⟩ | ⟨sent, rest, dirty⟩⟩
      · exact .idle rfl
      · exact .idle rfl
      · exact .idle rfl
      · exact .replied
  | persist written =>
      rcases process with _ | ⟨svc, _ | ⟨_ | ⟨msg, rest⟩, dirty⟩ | ⟨sent, rest, dirty⟩⟩
      · exact .idle rfl
      · exact .idle rfl
      · exact .ended
      · exact .idle rfl
      · exact .idle rfl
  | crash => exact .died
  | restart =>
      cases process with
      | none => exact .restarted
      | some p => exact .idle rfl

variable {selfId capacity}

/-- The envelope waits in the queue of `k`. -/
def Holds (s : MailboxStore) (k : String) (e : Envelope) : Prop :=
  e ∈ (s.queue k).map StoredEnvelope.envelope

omit [Bincode Cap] in
/-- A deposit that is acknowledged as new is in its queue. -/
theorem holds_of_delivered {svc : MailService} (hcap : 0 < svc.store.capacity) {c : Call Cap}
    {e : Envelope} {grant : List Cap} (hreq : c.request = .deliver e grant)
    (hreply : (svc.step c).2 = .ok (.delivered false)) :
    Holds (svc.step c).1.store e.body.to e := by
  have hstores := (MailService.delivered_false_iff hreq).mp hreply
  have hstored : (svc.store.accept e c.now).2 = .ok .stored :=
    MailboxStore.accept_stored.mpr hstores.fresh
  have hlast := getLast?_accept hcap hstored
  rw [hstores.store_eq]
  exact List.mem_map_of_mem (f := StoredEnvelope.envelope) (List.mem_of_getLast? hlast)

/-! ## What the dirty flag misses -/

/-- A reply that says the request did something to the store, or may have. -/
def MailReply.changes : MailReply → Bool
  | .delivered duplicate => !duplicate
  | .receiptAccepted duplicate => !duplicate
  | .acked _ => true
  | .receipts _ => true
  | _ => false

omit [Bincode Cap] in
/-- **A store changes only by a request that can change it**, and the reply says so. -/
theorem store_eq_of_unchanging {svc svc' : MailService} {c : Call Cap} {reply : MailReply}
    (h : svc.step c = (svc', .ok reply))
    (hsame : requestMutates c.request = false ∨ reply.changes = false) :
    svc'.store = svc.store := by
  by_cases hadmits : svc.Admits c
  · rw [MailService.step_of_admits hadmits] at h
    obtain ⟨rfl, hreply⟩ := Prod.mk.inj h
    show (svc.perform c.now c.request).1 = svc.store
    cases hreq : c.request with
    | drain k since grant => rfl
    | drainPage k since limit grant => rfl
    | ack k cursor grant =>
        rw [hreq] at hsame hreply
        cases hreply
        rcases hsame with hmutates | hchanges
        · cases hmutates
        · cases hchanges
    | collectReceipts k grant =>
        rw [hreq] at hsame hreply
        cases hreply
        rcases hsame with hmutates | hchanges
        · cases hmutates
        · cases hchanges
    | deliver e grant =>
        rw [hreq] at hsame hreply
        refine (MailboxStore.accept_of_not_fresh ?_ c.now).1
        intro hfresh
        have hreply' := Except.ok.inj hreply
        rw [MailboxStore.accept_stored.mpr hfresh] at hreply'
        rw [← hreply'] at hsame
        rcases hsame with hmutates | hchanges
        · cases hmutates
        · cases hchanges
    | putReceipt k r grant =>
        rw [hreq] at hsame hreply
        refine (MailboxStore.putReceipt_of_not_fresh ?_).1
        intro hfresh
        have hreply' := Except.ok.inj hreply
        rw [MailboxStore.putReceipt_stored.mpr hfresh] at hreply'
        rw [← hreply'] at hsame
        rcases hsame with hmutates | hchanges
        · cases hmutates
        · cases hchanges
  · have hsame := MailService.step_of_not_admits hadmits
    rw [h] at hsame
    exact congrArg MailService.store hsame

omit [Bincode Cap] in
/-- **A request that leaves the batch clean leaves the store as it was.** -/
theorem store_eq_of_clean {svc svc' : MailService} {c : Call Cap} {reply : MailReply}
    (h : svc.step c = (svc', .ok reply))
    (hclean : (requestMutates c.request && !reply.isError) = false) : svc'.store = svc.store := by
  refine store_eq_of_unchanging h ?_
  rcases Bool.and_eq_false_iff.mp hclean with hmutates | herror
  · exact Or.inl hmutates
  · cases reply with
    | error message => exact Or.inr rfl
    | _ => cases herror

/-- The file has the queues and receipts of the store. An absent one has those of an empty store. -/
def Saved (s : MailboxStore) : Option (List UInt8) → Prop
  | none => (∀ k, s.queues.lookup k = none) ∧ ∀ k, s.receipts.lookup k = none
  | some bytes => ∃ t, MailboxStore.fromBytes bytes = .ok t
      ∧ (∀ k, t.queues.lookup k = s.queues.lookup k)
      ∧ ∀ k, t.receipts.lookup k = s.receipts.lookup k

omit [Bincode Cap] [Iam Cap] in
theorem saved_enc {s : MailboxStore} (h : Bincode.Fits s.file) :
    Saved s (some (Bincode.enc s.file)) :=
  ⟨s.reloaded, MailboxStore.restart_eq h, Table.lookup_ofPairs_pairs s.queues,
    Table.lookup_ofPairs_pairs s.receipts⟩

omit [Bincode Cap] [Iam Cap] in
/-- What a process starts from is what there is in the file. -/
theorem saved_load {file : Option (List UInt8)} {p : ServeProcess Cap}
    (h : Server.load selfId capacity file = some p) : Saved p.svc.store file := by
  cases file with
  | none =>
      cases h
      exact ⟨fun _ => rfl, fun _ => rfl⟩
  | some bytes =>
      unfold Server.load at h
      dsimp only at h
      split at h
      · rename_i store hstore
        cases h
        exact ⟨store, hstore, fun _ => rfl, fun _ => rfl⟩
      · cases h

/--
Whether a write has failed, since the process started, that none has made up for. A batch
that is clean writes nothing.
-/
def unsavedStep (unsaved : Bool) : Server Cap × ServerEvent → Bool
  | (⟨_, some ⟨_, .serving [] true⟩⟩, .persist written) => !written
  | (⟨_, none⟩, .restart) => false
  | _ => unsaved

def unsaved (visits : List (Server Cap × ServerEvent)) : Bool := visits.foldl unsavedStep false

/-- The file is behind the memory only where a write failed or the batch is dirty. -/
def InStep (unsaved : Bool) (s : Server Cap) : Prop :=
  ∀ p, s.process = some p → unsaved = true ∨ p.phase.dirty = true ∨ Saved p.svc.store s.file

theorem inStep_step {u : Bool} {s : Server Cap} (h : InStep u s) (i : ServerEvent)
    (hfits : ∀ p, s.process = some p → Bincode.Fits p.svc.store.file) :
    InStep (unsavedStep u (s, i)) (Server.step selfId capacity s i).1 := by
  have hmoves := moves_step selfId capacity s i
  generalize (Server.step selfId capacity s i).1 = s',
    (Server.step selfId capacity s i).2 = out at hmoves
  intro p hp
  cases hmoves with
  | idle hidle =>
      unfold unsavedStep
      split
      · -- the end of a batch is not idle
        rename_i heq
        cases heq
        cases congrArg (fun r => r.1.process) hidle
      · rename_i heq
        cases heq
        cases hp
      · exact h p hp
  | @begun file svc messages =>
      obtain rfl := Option.some.inj hp
      exact h ⟨svc, .polling⟩ rfl
  | @skipped file svc msg rest dirty now isRevoked =>
      obtain rfl := Option.some.inj hp
      exact h ⟨svc, .serving (msg :: rest) dirty⟩ rfl
  | @handled file svc svc' msg rest dirty c token reply hstep =>
      obtain rfl := Option.some.inj hp
      cases hclean : requestMutates c.request && !reply.isError with
      | true => exact Or.inr (Or.inl (Bool.or_true dirty))
      | false =>
          rw [store_eq_of_clean hstep hclean, Bool.or_false]
          exact h ⟨svc, .serving (msg :: rest) dirty⟩ rfl
  | died => cases hp
  | @replied file svc sent rest dirty delivered =>
      obtain rfl := Option.some.inj hp
      exact h ⟨svc, .replying sent rest dirty⟩ rfl
  | @ended file svc dirty written =>
      obtain rfl := Option.some.inj hp
      cases dirty with
      | false => exact h ⟨svc, .serving [] false⟩ rfl
      | true =>
          cases written with
          | true => exact Or.inr (Or.inr (saved_enc (hfits ⟨svc, .serving [] true⟩ rfl)))
          | false => exact Or.inl rfl
  | restarted => exact Or.inr (Or.inr (saved_load hp))

theorem inStep_serverAfter {file : Option (List UInt8)} {events : List ServerEvent}
    (hfits : RunFits Cap selfId capacity file events) :
    InStep (unsaved (serverVisits Cap selfId capacity file events))
      (serverAfter Cap selfId capacity file events) := by
  induction events using List.reverseRecOn with
  | nil =>
      intro p hp
      cases hp
  | append_singleton events i ih =>
      have hstart : events <+: events ++ [i] := List.prefix_append events [i]
      rw [serverVisits, serverAfter, Machine.visits_concat, Machine.final_concat, unsaved,
        List.foldl_concat]
      exact inStep_step (ih fun start h => hfits start (h.trans hstart)) i (hfits events hstart)

theorem serverAfter_concat (file : Option (List UInt8)) (before : List ServerEvent)
    (i : ServerEvent) :
    serverAfter Cap selfId capacity file (before ++ [i])
      = (Server.step selfId capacity (serverAfter Cap selfId capacity file before) i).1 :=
  Machine.final_concat before i

/--
**The file catches up** in every batch that ends on a disk that can write, if no batch is
clean and ends so while an earlier write has failed and none made up for it.
-/
theorem file_catches_up {file : Option (List UInt8)} {events : List ServerEvent}
    (hfits : RunFits Cap selfId capacity file events)
    (hclean : ∀ before rest, events = before ++ .persist true :: rest →
      ∀ p, (serverAfter Cap selfId capacity file before).process = some p →
        p.phase.atEnd = true → p.phase.dirty = false →
          unsaved (serverVisits Cap selfId capacity file before) = false) :
    ∀ before rest, events = before ++ .persist true :: rest →
      ∀ p, (serverAfter Cap selfId capacity file before).process = some p →
        p.phase.atEnd = true →
          ∃ q, (serverAfter Cap selfId capacity file (before ++ [.persist true])).process = some q
            ∧ Saved q.svc.store
              (serverAfter Cap selfId capacity file (before ++ [.persist true])).file := by
  intro before rest hcut p hp hend
  have hstart : before <+: events := hcut ▸ List.prefix_append before _
  have hinv := inStep_serverAfter (fun start h => hfits start (h.trans hstart)) p hp
  have hclean' := hclean before rest hcut p hp hend
  have hfits' := hfits before hstart p hp
  rw [serverAfter_concat]
  generalize serverAfter Cap selfId capacity file before = s at hp hinv
  obtain ⟨old, process⟩ := s
  obtain rfl : process = some p := hp
  obtain ⟨svc, _ | ⟨_ | ⟨msg, rest⟩, dirty⟩ | ⟨sent, rest, dirty⟩⟩ := p
  · cases hend
  · refine ⟨⟨svc, .polling⟩, rfl, ?_⟩
    show Saved svc.store (Server.fileAfter old svc.store dirty true)
    cases dirty with
    | true => exact saved_enc hfits'
    | false =>
        rcases hinv with hunsaved | hdirty | hsaved
        · rw [hclean' rfl] at hunsaved
          cases hunsaved
        · cases hdirty
        · exact hsaved
  · cases hend
  · cases hend

end Server

namespace Sample

/-- A message that delivers an envelope with the recipient's grant. -/
def delivering (e : Envelope) : AppMessage where
  topic := mailTopic
  replyToken := some 7
  «from» := sender.hex
  payload := some (MailRequest.encode (delivery e).request)

/-- A node with room for one envelope, started without a file. -/
def node (events : List ServerEvent) : Server (NodeId × NodeId) :=
  @serverAfter crypto (NodeId × NodeId) _ iam mailbox 1 none events

/-- One step of it. -/
def turn : Server (NodeId × NodeId) → ServerEvent →
    Server (NodeId × NodeId) × Option (Sent (NodeId × NodeId)) :=
  @Server.step (NodeId × NodeId) crypto _ iam mailbox 1

theorem node_concat (events : List ServerEvent) (i : ServerEvent) :
    node (events ++ [i]) = (turn (node events) i).1 := Machine.final_concat events i

abbrev NodeFits (events : List ServerEvent) : Prop :=
  @RunFits crypto (NodeId × NodeId) _ iam mailbox 1 none events

theorem nodeFits_nil : NodeFits [] := by
  intro start hstart p hp
  obtain rfl := List.prefix_nil.mp hstart
  cases hp

theorem nodeFits_concat {events : List ServerEvent} {i : ServerEvent} (h : NodeFits events)
    {s : Server (NodeId × NodeId)} (hs : node (events ++ [i]) = s)
    (hlast : ∀ p, s.process = some p → Bincode.Fits p.svc.store.file) :
    NodeFits (events ++ [i]) := by
  refine Machine.forall_prefix_concat.mpr ⟨h, ?_⟩
  intro p hp
  exact hlast p ((congrArg Server.process hs).symm.trans hp)

/-- The service it starts with. -/
def fresh : MailService := .new (.new mailbox 1)

/-- The same with an envelope delivered. -/
@[irreducible] def served : MailService :=
  (@MailService.step _ crypto iam fresh (delivery first)).1

theorem step_delivery :
    @MailService.step _ crypto iam fresh (delivery first) = (served, .ok (.delivered false)) := by
  have hreply : (@MailService.step _ crypto iam fresh (delivery first)).2
      = .ok (.delivered false) := by
    decide +kernel
  unfold served
  exact Prod.mk.eta.symm.trans (congrArg (Prod.mk _) hreply)

theorem holds_served : Holds served.store recipient.hex first := by
  have hheld := @holds_of_delivered _ crypto iam fresh (by decide) (delivery first) first _ rfl
    (congrArg Prod.snd step_delivery)
  rw [step_delivery] at hheld
  exact hheld

theorem fits_fresh : Bincode.Fits fresh.store.file := Bincode.Canonical.fits _ (by decide +kernel)

theorem fits_served : Bincode.Fits served.store.file := Bincode.Canonical.fits _ (by decide +kernel)

/-- A batch with one delivery has come. -/
def untilPolled : List ServerEvent := [.restart, .poll (some [delivering first])]

/-- The delivery is handled, and not answered yet. -/
def untilHandled : List ServerEvent := untilPolled ++ [.handle 1 fun _ _ => false]

/-- It is answered, and the batch has not ended. -/
def untilReply : List ServerEvent := untilHandled ++ [.reply true]

/-- The batch is written. -/
def untilWritten : List ServerEvent := untilReply ++ [.persist true]

theorem request_delivering :
    (delivering first).request = some (7, sender, (delivery first).request) :=
  @AppMessage.request_eq_some (NodeId × NodeId) _ _ _ _ _ rfl rfl rfl
    ⟨trivial, Bincode.Canonical.fits first (by decide +kernel), by decide,
      fun _ _ => ⟨trivial, trivial⟩⟩ rfl

/-- The delivery is handled in front of any others. -/
theorem serve_delivering (rest : List AppMessage) :
    @MailService.serve (NodeId × NodeId) crypto _ iam fresh (delivering first) rest false 1
        (fun _ _ => false)
      = some ⟨served, .replying ⟨7, (delivery first).request, .delivered false⟩ rest true⟩ :=
  @MailService.serve_of_step _ crypto _ iam _ _ _ rest false 7 (delivery first) _
    request_delivering step_delivery

theorem node_untilHandled : node untilHandled
    = ⟨none, some ⟨served, .replying ⟨7, (delivery first).request, .delivered false⟩ [] true⟩⟩ := by
  rw [untilHandled, node_concat]
  exact congrArg (Server.mk none) (serve_delivering [])

theorem node_untilReply : node untilReply = ⟨none, some ⟨served, .serving [] true⟩⟩ := by
  rw [untilReply, node_concat, node_untilHandled]
  rfl

theorem node_untilWritten : node untilWritten
    = ⟨some (Bincode.enc served.store.file), some ⟨served, .polling⟩⟩ := by
  rw [untilWritten, node_concat, node_untilReply]
  rfl

theorem nodeFits_untilWritten : NodeFits untilWritten := by
  have hfresh : ∀ {phase} (p : ServeProcess (NodeId × NodeId)), some ⟨fresh, phase⟩ = some p →
      Bincode.Fits p.svc.store.file := by
    intro phase p hp
    obtain rfl := Option.some.inj hp
    exact fits_fresh
  have hserved : ∀ {phase} (p : ServeProcess (NodeId × NodeId)), some ⟨served, phase⟩ = some p →
      Bincode.Fits p.svc.store.file := by
    intro phase p hp
    obtain rfl := Option.some.inj hp
    exact fits_served
  have hstarted : NodeFits ([] ++ [.restart]) := nodeFits_concat nodeFits_nil rfl hfresh
  have hpolled : NodeFits ([.restart] ++ [.poll (some [delivering first])]) :=
    nodeFits_concat hstarted rfl hfresh
  exact nodeFits_concat (nodeFits_concat (nodeFits_concat hpolled node_untilHandled hserved)
    node_untilReply hserved) node_untilWritten hserved

end Sample

/-- The file catches up at the end of a batch that is written. -/
theorem file_catches_up_sample :
    ∃ q, (Sample.node Sample.untilWritten).process = some q
      ∧ @Saved Sample.crypto q.svc.store (Sample.node Sample.untilWritten).file := by
  refine @file_catches_up (NodeId × NodeId) Sample.crypto _ Sample.iam Sample.mailbox 1 none
    Sample.untilWritten Sample.nodeFits_untilWritten ?_ Sample.untilReply [] rfl _
    (congrArg Server.process Sample.node_untilReply) rfl
  -- the one write comes at the end of a dirty batch
  have hcut : ∀ before i rest, Sample.untilWritten = before ++ i :: rest →
      i = .persist true → before = Sample.untilReply := by
    refine Machine.forall_cut_concat.mpr ⟨?_, fun _ => rfl⟩
    refine Machine.forall_cut_concat.mpr ⟨?_, (fun h => by cases h)⟩
    refine Machine.forall_cut_concat.mpr ⟨?_, (fun h => by cases h)⟩
    refine Machine.forall_cut_cons.mpr ⟨(fun h => by cases h), ?_⟩
    exact Machine.forall_cut_cons.mpr ⟨(fun h => by cases h), Machine.forall_cut_nil⟩
  intro before rest hrest p hp _ hclean
  obtain rfl := hcut before _ rest hrest rfl
  obtain rfl := Option.some.inj ((congrArg Server.process Sample.node_untilReply).symm.trans hp)
  cases hclean

namespace Sample

/-- The write of that batch fails, and the next batch is empty. -/
def untilQuiet : List ServerEvent := untilReply ++ [.persist false, .poll (some [])]

theorem node_untilQuiet : node untilQuiet = ⟨none, some ⟨served, .serving [] false⟩⟩ := by
  rw [untilQuiet, List.append_cons, node_concat, node_concat, node_untilReply]
  rfl

end Sample

/-- After the quiet batch the queue has an envelope, and there is still no file. -/
theorem quiet_batch_stays_behind :
    ∃ p, (Sample.node Sample.untilQuiet).process = some p ∧ p.phase.atEnd = true
      ∧ ¬∃ q, (Sample.node (Sample.untilQuiet ++ [.persist true])).process = some q
        ∧ @Saved Sample.crypto q.svc.store
          (Sample.node (Sample.untilQuiet ++ [.persist true])).file := by
  have hwritten : Sample.node (Sample.untilQuiet ++ [.persist true])
      = ⟨none, some ⟨Sample.served, .polling⟩⟩ := by
    rw [Sample.node_concat, Sample.node_untilQuiet]
    rfl
  refine ⟨_, congrArg Server.process Sample.node_untilQuiet, rfl, ?_⟩
  rw [hwritten]
  intro h
  rcases h with ⟨q, hq, hsaved⟩
  obtain rfl := Option.some.inj hq
  obtain ⟨x, hx, -⟩ := List.mem_map.mp Sample.holds_served
  rw [MailboxStore.queue_of_lookup_none (hsaved.1 _)] at hx
  cases hx

end CeMail
