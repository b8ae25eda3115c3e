import CeMail.Proof.Server

/-!
# What a crash takes

The reply to a delivery is sent before the write that ends its batch. From the reply to that
write the envelope is in memory only, and a process that dies there takes it along although
its sender was told that it is stored. From the write on nothing but an ack or an eviction
takes it, whatever crashes follow.
-/

namespace CeMail

section Server

variable {Cap : Type} [Crypto] [Bincode Cap] [Iam Cap] {selfId : NodeId} {capacity : UInt64}

/-- The node has the envelope: in the running process, or in the one a restart would start. -/
def Server.Has (selfId : NodeId) (capacity : UInt64) (s : Server Cap) (k : String) (e : Envelope) :
    Prop :=
  ∃ p, (s.process <|> Server.load selfId capacity s.file) = some p ∧ Holds p.svc.store k e

/-- The process dies at this event. -/
def Server.Dies (selfId : NodeId) (capacity : UInt64) (s : Server Cap) (i : ServerEvent) : Prop :=
  s.process ≠ none ∧ (Server.step selfId capacity s i).1.process = none

/-- A request that is handled takes the envelope out of the queue, by an ack or an eviction. -/
def Server.Removes (selfId : NodeId) (capacity : UInt64) (s : Server Cap) (i : ServerEvent)
    (k : String) (e : Envelope) : Prop :=
  ∃ p q, ∃ c : Call Cap, s.process = some p
    ∧ (Server.step selfId capacity s i).1.process = some q ∧ q.svc = (p.svc.step c).1
    ∧ Holds p.svc.store k e ∧ ¬Holds q.svc.store k e
    ∧ ∃ v ∈ Machine.visits MailboxStore.call p.svc.store (p.svc.calls c),
      0 < Visit.acked k v ∨ 0 < Visit.evicted k v

/-- A batch ends at this visit. -/
def Server.endsBatch : Server Cap × ServerEvent → Bool
  | (⟨_, some p⟩, .persist _) => p.phase.atEnd
  | _ => false

omit [Bincode Cap] in
theorem capacity_step (svc : MailService) (c : Call Cap) :
    (svc.step c).1.store.capacity = svc.store.capacity := by
  rw [MailService.store_step]
  refine Machine.invariant (P := fun s : MailboxStore => s.capacity = svc.store.capacity) rfl ?_ _
  intro s op h
  rw [MailboxStore.capacity, (settings_call s op).1]
  exact h

omit [Bincode Cap] in
/-- **Nothing but an ack or an eviction** takes an envelope out of its queue. -/
theorem acked_or_evicted_of_gone {svc : MailService} {c : Call Cap} {k : String} {e : Envelope}
    (h : Holds svc.store k e)
    (hgone : ¬Holds (svc.step c).1.store k e) :
    ∃ v ∈ Machine.visits MailboxStore.call svc.store (svc.calls c),
      0 < Visit.acked k v ∨ 0 < Visit.evicted k v := by
  by_contra hnone
  push Not at hnone
  obtain ⟨x, hx, rfl⟩ := List.mem_map.mp h
  refine hgone (List.mem_map_of_mem ?_)
  rw [MailService.store_step]
  refine mem_queue_final hx _ (List.sum_eq_zero ?_) (List.sum_eq_zero ?_)
  · intro n hn
    obtain ⟨v, hv, rfl⟩ := List.mem_map.mp hn
    exact Nat.le_zero.mp (hnone v hv).1
  · intro n hn
    obtain ⟨v, hv, rfl⟩ := List.mem_map.mp hn
    exact Nat.le_zero.mp (hnone v hv).2

/-- Only a request that is handled takes anything out of a queue. -/
theorem not_removes {s : Server Cap} {i : ServerEvent} {k : String} {e : Envelope}
    (h : ∀ now isRevoked, i ≠ .handle now isRevoked) : ¬s.Removes selfId capacity i k e := by
  intro hremoves
  rcases hremoves with ⟨p, q, c, hp, hq, -, hheld, hgone, -⟩
  suffices hsame : q.svc = p.svc from hgone (hsame ▸ hheld)
  have hmoves := moves_step selfId capacity s i
  generalize (Server.step selfId capacity s i).1 = s',
    (Server.step selfId capacity s i).2 = out at hmoves hq
  cases hmoves with
  | idle hidle =>
      rw [hp] at hq
      rw [Option.some.inj hq]
  | begun =>
      obtain rfl := Option.some.inj hp
      obtain rfl := Option.some.inj hq
      rfl
  | skipped => exact absurd rfl (h _ _)
  | handled _ => exact absurd rfl (h _ _)
  | died => cases hq
  | replied =>
      obtain rfl := Option.some.inj hp
      obtain rfl := Option.some.inj hq
      rfl
  | ended =>
      obtain rfl := Option.some.inj hp
      obtain rfl := Option.some.inj hq
      rfl
  | restarted => cases hp

/-- The end of a batch does not kill the process. -/
theorem not_dies_persist {s : Server Cap} {written : Bool} :
    ¬s.Dies selfId capacity (.persist written) := by
  obtain ⟨file, process⟩ := s
  intro h
  rcases h with ⟨hup, hdead⟩
  rcases process with _ | ⟨svc, _ | ⟨_ | ⟨msg, rest⟩, dirty⟩ | ⟨sent, rest, dirty⟩⟩
  · exact hup rfl
  · cases hdead
  · cases hdead
  · cases hdead
  · cases hdead

/-- What a running process promises: an envelope it is about to acknowledge is queued. -/
structure Serves (p : ServeProcess Cap) : Prop where
  capacity_pos : 0 < p.svc.store.capacity
  queued : ∀ token e grant rest dirty,
    p.phase = .replying ⟨token, .deliver e grant, .delivered false⟩ rest dirty →
      dirty = true ∧ Holds p.svc.store e.body.to e

omit [Bincode Cap] [Iam Cap] in
theorem serves_load {file : Option (List UInt8)} {p : ServeProcess Cap}
    (h : Server.load selfId capacity file = some p) : Serves p := by
  have hpos : ∀ n : UInt64, 0 < (max n 1).toNat := by
    intro n
    exact UInt64.le_iff_toNat_le.mp (one_le_max n)
  cases file with
  | none =>
      cases h
      exact ⟨hpos capacity, fun _ _ _ _ _ hphase => by cases hphase⟩
  | some bytes =>
      unfold Server.load at h
      dsimp only at h
      split at h
      · rename_i store hstore
        cases h
        obtain ⟨_, _, capacity', _, rfl⟩ := exists_rebuild_of_fromBytes hstore
        exact ⟨hpos capacity', fun _ _ _ _ _ hphase => by cases hphase⟩
      · cases h

theorem serves_step {s : Server Cap} (h : ∀ p, s.process = some p → Serves p) (i : ServerEvent) :
    ∀ q, (Server.step selfId capacity s i).1.process = some q → Serves q := by
  have hmoves := moves_step selfId capacity s i
  generalize (Server.step selfId capacity s i).1 = s',
    (Server.step selfId capacity s i).2 = out at hmoves
  intro q hq
  cases hmoves with
  | idle _ => exact h q hq
  | @begun file svc messages =>
      obtain rfl := Option.some.inj hq
      exact ⟨(h _ rfl).capacity_pos, fun _ _ _ _ _ hphase => by cases hphase⟩
  | @skipped file svc msg rest dirty now isRevoked =>
      obtain rfl := Option.some.inj hq
      exact ⟨(h _ rfl).capacity_pos, fun _ _ _ _ _ hphase => by cases hphase⟩
  | @handled file svc svc' msg rest dirty c token reply hstep =>
      obtain rfl := Option.some.inj hq
      have hcap := (h _ rfl).capacity_pos
      obtain rfl : (svc.step c).1 = svc' := congrArg Prod.fst hstep
      refine ⟨(capacity_step svc c).symm ▸ hcap, ?_⟩
      intro token' e grant rest' dirty' hphase
      obtain ⟨hsent, -, rfl⟩ := ServePhase.replying.inj hphase
      obtain ⟨-, hreq, rfl⟩ := Sent.mk.inj hsent
      refine ⟨?_, holds_of_delivered hcap hreq (congrArg Prod.snd hstep)⟩
      rw [hreq]
      exact Bool.or_true dirty
  | died => cases hq
  | @replied file svc sent rest dirty delivered =>
      obtain rfl := Option.some.inj hq
      exact ⟨(h _ rfl).capacity_pos, fun _ _ _ _ _ hphase => by cases hphase⟩
  | @ended file svc dirty written =>
      obtain rfl := Option.some.inj hq
      exact ⟨(h _ rfl).capacity_pos, fun _ _ _ _ _ hphase => by cases hphase⟩
  | restarted => exact serves_load hq

theorem serves_serverAfter {file : Option (List UInt8)} (events : List ServerEvent) :
    ∀ p, (serverAfter Cap selfId capacity file events).process = some p → Serves p := by
  refine Machine.invariant (P := fun s : Server Cap => ∀ p, s.process = some p → Serves p) ?_
    (fun s i h => serves_step h i) events
  intro p hp
  cases hp

/-- The envelope is in memory, and in the file too unless its batch is still open. -/
structure Survives (selfId : NodeId) (capacity : UInt64) (wrote : Bool) (s : Server Cap)
    (k : String) (e : Envelope) : Prop where
  memory : ∀ p, s.process = some p → Holds p.svc.store k e
  file : (∃ p : ServeProcess Cap, Server.load selfId capacity s.file = some p
      ∧ Holds p.svc.store k e)
    ∨ wrote = false ∧ ∃ p, s.process = some p ∧ p.phase.dirty = true

omit [Bincode Cap] [Iam Cap] in
theorem has_of_survives {wrote : Bool} {s : Server Cap} {k : String} {e : Envelope}
    (h : Survives selfId capacity wrote s k e) : s.Has selfId capacity k e := by
  obtain ⟨file, process⟩ := s
  cases process with
  | some p => exact ⟨p, rfl, h.memory p rfl⟩
  | none =>
      rcases h.file with hfile | ⟨-, p, hp, -⟩
      · exact hfile
      · cases hp

omit [Bincode Cap] [Iam Cap] in
theorem load_enc {s : MailboxStore} (h : Bincode.Fits s.file) :
    (Server.load selfId capacity (some (Bincode.enc s.file)) : Option (ServeProcess Cap))
      = some ⟨.new s.reloaded, .polling⟩ := by
  have hload : MailboxStore.fromBytes (Bincode.enc s.file) = .ok s.reloaded :=
    MailboxStore.restart_eq h
  simp only [Server.load, hload]

omit [Bincode Cap] [Iam Cap] in
theorem holds_reloaded {s : MailboxStore} {k : String} {e : Envelope} (h : Holds s k e) :
    Holds s.reloaded k e := by
  rw [Holds, MailboxStore.queue, MailboxStore.mail_reloaded]
  exact h

/-- The end of a batch is not idle. -/
theorem endsBatch_of_idle {s : Server Cap} {i : ServerEvent}
    (h : Server.step selfId capacity s i = (s, none)) : Server.endsBatch (s, i) = false := by
  obtain ⟨file, process⟩ := s
  cases i with
  | persist written =>
      rcases process with _ | ⟨svc, _ | ⟨_ | ⟨msg, rest⟩, dirty⟩ | ⟨sent, rest, dirty⟩⟩
      · rfl
      · rfl
      · cases congrArg (fun r => r.1.process) h
      · rfl
      · rfl
  | _ => cases process <;> rfl

omit [Bincode Cap] [Iam Cap] in
/-- **A step that leaves the file alone** and the batch dirty, if it was, keeps the envelope. -/
theorem Survives.carry {wrote : Bool} {file : Option (List UInt8)} {p q : ServeProcess Cap}
    {k : String} {e : Envelope} (h : Survives selfId capacity wrote ⟨file, some p⟩ k e)
    (hheld : Holds q.svc.store k e) (hdirty : p.phase.dirty = true → q.phase.dirty = true) :
    Survives selfId capacity wrote ⟨file, some q⟩ k e := by
  refine ⟨?_, ?_⟩
  · intro r hr
    obtain rfl := Option.some.inj hr
    exact hheld
  · rcases h.file with hfile | ⟨hopen, r, hr, hwas⟩
    · exact Or.inl hfile
    · obtain rfl := Option.some.inj hr
      exact Or.inr ⟨hopen, q, rfl, hdirty hwas⟩

/-- **One step keeps the envelope**, in memory and on its way to the file. -/
theorem survives_step {wrote : Bool} {s : Server Cap} {k : String} {e : Envelope}
    (h : Survives selfId capacity wrote s k e) {i : ServerEvent}
    (hwritten : ∀ written, i = .persist written → written = true)
    (hfits : ∀ p, s.process = some p → Bincode.Fits p.svc.store.file)
    (hdies : s.Dies selfId capacity i → wrote = true)
    (hkept : ¬s.Removes selfId capacity i k e) :
    Survives selfId capacity (wrote || Server.endsBatch (s, i)) (Server.step selfId capacity s i).1
      k e := by
  have hmoves := moves_step selfId capacity s i
  generalize hs' : (Server.step selfId capacity s i).1 = s',
    (Server.step selfId capacity s i).2 = out at hmoves
  cases hmoves with
  | idle hidle =>
      rw [endsBatch_of_idle hidle, Bool.or_false]
      exact h
  | @begun file svc messages =>
      have hheld : Holds svc.store k e := h.memory _ rfl
      have hkeeps := h.carry (q := ⟨svc, .serving messages false⟩) hheld id
      simpa only [Server.endsBatch, Bool.or_false] using hkeeps
  | @skipped file svc msg rest dirty now isRevoked =>
      have hheld : Holds svc.store k e := h.memory _ rfl
      have hkeeps := h.carry (q := ⟨svc, .serving rest dirty⟩) hheld id
      simpa only [Server.endsBatch, Bool.or_false] using hkeeps
  | @handled file svc svc' msg rest dirty c token reply hstep =>
      have hheld : Holds svc.store k e := h.memory _ rfl
      have hsvc : svc' = (svc.step c).1 := (congrArg Prod.fst hstep).symm
      have hheld' : Holds svc'.store k e := by
        by_contra hgone
        refine hkept ⟨_, _, c, rfl, congrArg Server.process hs', hsvc, hheld, hgone, ?_⟩
        exact acked_or_evicted_of_gone hheld (hsvc ▸ hgone)
      have hkeeps := h.carry (q := ⟨svc', .replying ⟨token, c.request, reply⟩ rest
        (dirty || requestMutates c.request && !reply.isError)⟩) hheld' fun hdirty => by
          unfold ServePhase.dirty at hdirty ⊢
          dsimp only at hdirty ⊢
          rw [hdirty, Bool.true_or]
      simpa only [Server.endsBatch, Bool.or_false] using hkeeps
  | died =>
      refine ⟨?_, ?_⟩
      · intro p hp
        cases hp
      · rcases h.file with hfile | ⟨hopen, p, hp, -⟩
        · exact Or.inl hfile
        · have hup : s.process ≠ none := by
            rw [hp]
            exact Option.some_ne_none p
          rw [hdies ⟨hup, congrArg Server.process hs'⟩] at hopen
          cases hopen
  | @replied file svc sent rest dirty delivered =>
      have hheld : Holds svc.store k e := h.memory _ rfl
      have hkeeps := h.carry (q := ⟨svc, .serving rest dirty⟩) hheld id
      simpa only [Server.endsBatch, Bool.or_false] using hkeeps
  | @ended file svc dirty written =>
      have hheld : Holds svc.store k e := h.memory _ rfl
      obtain rfl := hwritten written rfl
      refine ⟨?_, Or.inl ?_⟩
      · intro p hp
        obtain rfl := Option.some.inj hp
        exact hheld
      · cases dirty with
        | true => exact ⟨_, load_enc (hfits _ rfl), holds_reloaded hheld⟩
        | false =>
            rcases h.file with hfile | ⟨-, p, hp, hdirty⟩
            · exact hfile
            · obtain rfl := Option.some.inj hp
              cases hdirty
  | @restarted file =>
      rcases h.file with ⟨p, hp, hheld⟩ | ⟨-, p, hp, -⟩
      · refine ⟨?_, Or.inl ⟨p, hp, hheld⟩⟩
        intro q hq
        obtain rfl := Option.some.inj (hp.symm.trans hq)
        exact hheld
      · cases hp

/-- A reply that was sent was about to be. -/
theorem survives_of_sent {s : Server Cap} (hserves : ∀ p, s.process = some p → Serves p)
    {i : ServerEvent} {token : UInt64} {e : Envelope} {grant : List Cap}
    (hsent : (Server.step selfId capacity s i).2
      = some ⟨token, .deliver e grant, .delivered false⟩) :
    Survives selfId capacity false (Server.step selfId capacity s i).1 e.body.to e := by
  have hmoves := moves_step selfId capacity s i
  rw [hsent] at hmoves
  generalize (Server.step selfId capacity s i).1 = s',
    hout : some (Sent.mk token (.deliver e grant) (.delivered false)) = out at hmoves
  cases hmoves with
  | @replied file svc sent rest dirty delivered =>
      cases delivered with
      | false => cases hout
      | true =>
          obtain rfl := Option.some.inj hout
          obtain ⟨hdirty, hheld⟩ := (hserves _ rfl).queued _ _ _ _ _ rfl
          refine ⟨?_, Or.inr ⟨rfl, _, rfl, hdirty⟩⟩
          intro p hp
          obtain rfl := Option.some.inj hp
          exact hheld
  | _ => cases hout

/--
**An acknowledged delivery survives** whatever crashes follow, if the batch of its reply
has ended before the process dies, every write goes through and no ack or eviction takes
the envelope.
-/
theorem acknowledged_survives {file : Option (List UInt8)} {before after : List ServerEvent}
    {i : ServerEvent} (hfits : RunFits Cap selfId capacity file (before ++ i :: after))
    (hwritten : ∀ written, .persist written ∈ after → written = true)
    {token : UInt64} {e : Envelope} {grant : List Cap}
    (hsent : (Server.step selfId capacity (serverAfter Cap selfId capacity file before) i).2
      = some ⟨token, .deliver e grant, .delivered false⟩)
    (hdies : ∀ mid j rest, after = mid ++ j :: rest →
      (serverAfter Cap selfId capacity file (before ++ i :: mid)).Dies selfId capacity j →
        ∃ visit ∈ Machine.visits (Server.step selfId capacity)
          (serverAfter Cap selfId capacity file (before ++ [i])) mid,
            Server.endsBatch visit = true)
    (hkept : ∀ mid j rest, after = mid ++ j :: rest →
      ¬(serverAfter Cap selfId capacity file (before ++ i :: mid)).Removes selfId capacity j
        e.body.to e) :
    (serverAfter Cap selfId capacity file (before ++ i :: after)).Has selfId capacity e.body.to
      e := by
  have hrun : ∀ mid, mid <+: after → Survives selfId capacity
      ((Machine.visits (Server.step selfId capacity)
        (serverAfter Cap selfId capacity file (before ++ [i])) mid).any Server.endsBatch)
      (serverAfter Cap selfId capacity file (before ++ i :: mid)) e.body.to e := by
    intro mid hmid
    induction mid using List.reverseRecOn with
    | nil =>
        rw [serverAfter_concat]
        exact survives_of_sent (serves_serverAfter before) hsent
    | append_singleton mid j ih =>
        obtain ⟨rest, hrest⟩ := hmid
        have hcut : after = mid ++ j :: rest := by rw [← hrest, List.append_assoc]; rfl
        have hsplit : before ++ i :: (mid ++ [j]) = (before ++ i :: mid) ++ [j] := by
          rw [List.append_assoc]
          rfl
        have hstart : before ++ i :: mid <+: before ++ i :: after := by
          rw [hcut]
          exact ⟨j :: rest, by rw [List.append_assoc]; rfl⟩
        have hfinal : Machine.final (Server.step selfId capacity)
            (serverAfter Cap selfId capacity file (before ++ [i])) mid
              = serverAfter Cap selfId capacity file (before ++ i :: mid) := by
          rw [serverAfter, serverAfter, ← Machine.final_append, List.append_assoc]
          rfl
        rw [hsplit, serverAfter_concat file (before ++ i :: mid), Machine.visits_concat,
          List.any_append, hfinal, List.any_cons, List.any_nil, Bool.or_false]
        refine survives_step (ih ⟨j :: rest, hcut.symm⟩) ?_
          (hfits _ hstart) (fun h => List.any_eq_true.mpr (hdies mid j rest hcut h))
          (hkept mid j rest hcut)
        intro written heq
        subst heq
        exact hwritten written (hcut ▸ List.mem_append_right mid List.mem_cons_self)
  exact has_of_survives (hrun after (List.prefix_refl after))

end Server

namespace Sample

/-- The node crashes after the write. -/
def untilDown : List ServerEvent := untilWritten ++ [.crash]

theorem nodeFits_untilDown : NodeFits untilDown := by
  have hdown : (node untilDown).process = none := by
    rw [untilDown, node_concat]
    rfl
  refine Machine.forall_prefix_concat.mpr ⟨nodeFits_untilWritten, ?_⟩
  intro p hp
  cases hdown.symm.trans hp

/-- The delivery is answered. -/
theorem turn_untilHandled : (turn (node untilHandled) (.reply true)).2
    = some ⟨7, .deliver first [(recipient, mailbox)], .delivered false⟩ := by
  rw [node_untilHandled]
  rfl

end Sample

/-- An acknowledged delivery survives a crash after its batch. -/
theorem acknowledged_survives_sample :
    @Server.Has (NodeId × NodeId) Sample.crypto Sample.mailbox 1 (Sample.node Sample.untilDown)
      Sample.recipient.hex Sample.first := by
  refine @acknowledged_survives (NodeId × NodeId) Sample.crypto _ Sample.iam Sample.mailbox 1 none
    Sample.untilHandled [.persist true, .crash] (.reply true) Sample.nodeFits_untilDown ?_ 7
    Sample.first _ Sample.turn_untilHandled ?_ ?_
  · intro written hwritten
    rcases List.mem_pair.mp hwritten with h | h
    · exact ServerEvent.persist.inj h
    · cases h
  · refine Machine.forall_cut_cons.mpr ⟨?_, Machine.forall_cut_cons.mpr ⟨?_,
      Machine.forall_cut_nil⟩⟩
    · exact fun h => absurd h (@not_dies_persist _ Sample.crypto _ Sample.iam _ _ _ _)
    · intro _
      refine ⟨(Sample.node Sample.untilReply, .persist true), List.mem_singleton_self _, ?_⟩
      rw [Sample.node_untilReply]
      rfl
  · refine Machine.forall_cut_cons.mpr ⟨?_, Machine.forall_cut_cons.mpr ⟨?_,
      Machine.forall_cut_nil⟩⟩
    · exact @not_removes _ Sample.crypto _ Sample.iam _ _ _ _ _ _ fun _ _ h => by cases h
    · exact @not_removes _ Sample.crypto _ Sample.iam _ _ _ _ _ _ fun _ _ h => by cases h

namespace Sample

/-- The node crashes before the write, and starts again. -/
def untilLost : List ServerEvent := untilReply ++ [.crash, .restart]

theorem node_untilLost : node untilLost = ⟨none, some ⟨fresh, .polling⟩⟩ := by
  rw [untilLost, List.append_cons, node_concat, node_concat, node_untilReply]
  rfl

end Sample

/-- The reply is sent, the node crashes before the write, and the envelope is gone. -/
theorem crash_loses_acknowledged :
    (Sample.turn (Sample.node Sample.untilHandled) (.reply true)).2
        = some ⟨7, .deliver Sample.first [(Sample.recipient, Sample.mailbox)], .delivered false⟩
      ∧ (∀ written, .persist written ∈ Sample.untilLost → written = true)
      ∧ (∀ mid j rest, [.crash, .restart] = mid ++ j :: rest →
        ¬@Server.Removes (NodeId × NodeId) Sample.crypto _ Sample.iam Sample.mailbox 1
          (Sample.node (Sample.untilReply ++ mid)) j Sample.recipient.hex Sample.first)
      ∧ ¬@Server.Has (NodeId × NodeId) Sample.crypto Sample.mailbox 1
        (Sample.node Sample.untilLost) Sample.recipient.hex Sample.first := by
  refine ⟨Sample.turn_untilHandled, ?_, ?_, ?_⟩
  · intro written h
    simp [Sample.untilLost, Sample.untilReply, Sample.untilHandled, Sample.untilPolled] at h
  · refine Machine.forall_cut_cons.mpr ⟨?_, Machine.forall_cut_cons.mpr ⟨?_,
      Machine.forall_cut_nil⟩⟩
    · exact @not_removes _ Sample.crypto _ Sample.iam _ _ _ _ _ _ fun _ _ h => by cases h
    · exact @not_removes _ Sample.crypto _ Sample.iam _ _ _ _ _ _ fun _ _ h => by cases h
  · rw [Sample.node_untilLost]
    intro hhas
    rcases hhas with ⟨p, hp, hheld⟩
    obtain rfl := Option.some.inj hp
    obtain ⟨x, hx, -⟩ := List.mem_map.mp hheld
    cases hx

end CeMail
