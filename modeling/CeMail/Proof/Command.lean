import CeMail.Lib.Effect
import CeMail.Model.Command
import CeMail.Proof.Inbox
import CeMail.Proof.Listing

/-!
# Runs of the command

What a network answers makes a batch of messages, what a run saves makes what `read`
finds, and a step of the command is a step of the client, or two, when the bodies are left
out and nothing dies.

`LastDrain` keeps the queue as the last drain found it, what was stored since and how many
were evicted. `Underway` is what holds of a run until it ends, in its terms: the run drained
that queue from its start on, each id once and none that was ever freed, and the queue has
only lost from its front since and gained at its end.
-/

namespace CeMail

open Effect

/-! ## The answers of a network -/

/-- Answers for other envelopes make no difference. -/
theorem openContent_congr {fetch fetch' : Fetch} {env : Envelope} (h : fetch env = fetch' env) :
    fetch.openContent env = fetch'.openContent env := by
  unfold Fetch.openContent
  rw [h]

/-- A message is made of what opening gave, or of nothing. -/
theorem message_eq (fetch : Fetch) (env : Envelope) :
    fetch.message env = ⟨env, ((fetch.openContent env).toOption.getD ([], none)).1,
      ((fetch.openContent env).toOption.getD ([], none)).2⟩ := by
  unfold Fetch.message
  cases fetch.openContent env <;> rfl

section Crypto

variable [Crypto]

theorem messages_congr {fetch fetch' : Fetch} {envs : List Envelope}
    (h : ∀ env ∈ envs, fetch env = fetch' env) : fetch.messages envs = fetch'.messages envs := by
  refine List.map_congr_left ?_
  intro env henv
  rw [Fetch.message, Fetch.message, openContent_congr (h env (List.mem_of_mem_filter henv))]

section Client

variable {Net : Type} [Curve] [Sha512] [Aead] {c : MailClient Net}

/-- The client opens an envelope as some answer makes it. -/
theorem exists_openContent (env : Envelope) (net : Net) : ∃ answer : Except String (List UInt8),
    ((c.openContent env).run.run net).1 = Fetch.openContent (fun _ => answer) env := by
  refine ⟨((c.getSealed env.body.bodyCid).run.run net).1, ?_⟩
  unfold MailClient.openContent Fetch.openContent
  split
  · rfl
  · rw [run_bind]
    rcases (c.getSealed env.body.bodyCid).run.run net with ⟨error | plaintext, net'⟩
    · rfl
    · cases h : BodyContent.tryDecode plaintext <;> simp [h, bind, Except.bind] <;> rfl

/-- **Whatever the network does**, the batch is what some answers make of it. -/
theorem exists_composeMessages {envs : List Envelope} (h : envs.Nodup) (net : Net) :
    ∃ (fetch : Fetch) (net' : Net),
      Runs (c.composeMessages envs) net (fetch.messages envs) net' := by
  induction envs generalizing net with
  | nil => exact ⟨fun _ => .error "", net, rfl⟩
  | cons env envs ih =>
      obtain ⟨hnot, hnodup⟩ := List.nodup_cons.mp h
      unfold MailClient.composeMessages
      by_cases hverify : env.verify = .ok ()
      · obtain ⟨answer, hanswer⟩ := exists_openContent (c := c) env net
        obtain ⟨fetch, net', hrest⟩ := ih hnodup ((c.openContent env).run.run net).2
        -- this answer, and those for the rest
        let fetch' : Fetch := fun e => if e = env then answer else fetch e
        have hthis : fetch'.openContent env = ((c.openContent env).run.run net).1 :=
          (openContent_congr (if_pos rfl)).trans hanswer.symm
        have hothers : fetch'.messages envs = fetch.messages envs :=
          messages_congr fun e he => if_neg (ne_of_mem_of_not_mem he hnot)
        have hmessages : fetch'.messages (env :: envs)
            = fetch'.message env :: fetch'.messages envs := by
          rw [Fetch.messages, List.filter_cons_of_pos (by simpa using hverify)]
          rfl
        refine ⟨fetch', net', ?_⟩
        rw [if_pos hverify, hmessages, hothers, message_eq, hthis]
        refine runs_bind.mpr ⟨_, _, runs_orElse ([], none) net, ?_⟩
        exact runs_bind.mpr ⟨_, _, hrest, rfl⟩
      · obtain ⟨fetch, net', hrest⟩ := ih hnodup net
        refine ⟨fetch, net', ?_⟩
        rw [if_neg hverify, Fetch.messages, List.filter_cons_of_neg (by simpa using hverify)]
        exact hrest

end Client

/-! ## Reading the snapshot -/

/-- Every id is as long as every other. -/
theorem length_messageId (e : EnvelopeBody) : (messageId e).toList.length = 64 := by
  have hpair : ∀ b ∈ (Crypto.sha256 (envelopeSigningBytes e)).val, (hexPair b).length = 2 :=
    fun _ _ => rfl
  rw [messageId, hexEncode, String.toList_ofList, List.length_flatMap, List.map_congr_left hpair,
    List.map_const', List.sum_replicate, (Crypto.sha256 (envelopeSigningBytes e)).property]
  rfl

/-- `read` finds the message of this id. -/
def DataDir.Finds (d : DataDir) (id : String) : Prop := ∃ m, d.read id = .ok m ∧ m.id = id

omit [Crypto] in
/-- What `read` finds depends on the snapshot alone. -/
theorem read_congr {d d' : DataDir} (h : d.snapshot = d'.snapshot) (id : String) :
    d.read id = d'.read id := by
  unfold DataDir.read
  rw [h]

theorem id_snap (fetch : Fetch) (env : Envelope) : (fetch.message env).snap.id = env.messageId := by
  rw [message_eq]
  rfl

/-- A run saves an entry for each envelope it drained, since all of them verify. -/
theorem snapshot_eq {s : Session} (h : ∀ env ∈ s.envelopes, env.verify = .ok ()) :
    s.snapshot = s.envelopes.map fun env => (s.fetch.message env).snap := by
  have hall : (s.envelopes.filter fun env => env.verify = .ok ()) = s.envelopes :=
    List.filter_eq_self.mpr fun env henv => decide_eq_true (h env henv)
  rw [Session.snapshot, Session.msgs, Fetch.messages, hall, List.map_map]
  rfl

/-- A whole id is the start of no other id, so `read` goes by ids being equal. -/
theorem read_messageId {d : DataDir} {s : Session} (h : d.snapshot = some s.snapshot)
    (e : EnvelopeBody) (m : SnapMsg) :
    d.read (messageId e) = .ok m ↔ s.snapshot.find? (fun m => m.id = messageId e) = some m := by
  have hsame : ∀ m ∈ s.snapshot,
      (m.id = messageId e || (messageId e).toList.isPrefixOf m.id.toList)
        = decide (m.id = messageId e) := by
    intro m hm
    obtain ⟨msg, -, rfl⟩ := List.mem_map.mp hm
    have hlen : (messageId e).toList.length = msg.snap.id.toList.length :=
      (length_messageId e).trans (length_messageId msg.envelope.body).symm
    rw [Bool.eq_iff_iff, Bool.or_eq_true, decide_eq_true_eq, List.isPrefixOf_iff_prefix]
    refine ⟨?_, Or.inl⟩
    intro hid
    rcases hid with hid | hid
    · exact hid
    · exact (String.toList_inj.mp (hid.eq_of_length hlen)).symm
  unfold DataDir.read
  rw [h]
  dsimp only
  rw [List.find?_congr hsame]
  cases s.snapshot.find? fun m => decide (m.id = messageId e) with
  | none => simp
  | some m' => simp

/-- What is found in the snapshot of a run is of an envelope it drained. -/
theorem exists_of_read {d : DataDir} {s : Session} (h : d.snapshot = some s.snapshot)
    (hverify : ∀ env ∈ s.envelopes, env.verify = .ok ()) {id : String} {m : SnapMsg}
    (hread : d.read id = .ok m) : ∃ env ∈ s.envelopes, (s.fetch.message env).snap = m := by
  unfold DataDir.read at hread
  rw [h] at hread
  dsimp only at hread
  split at hread
  · rename_i m' hm
    cases hread
    have hmem := List.mem_of_find?_eq_some hm
    rw [snapshot_eq hverify] at hmem
    exact List.mem_map.mp hmem
  · cases hread

/-- What a run saved is found by the ids of what it drained. -/
theorem finds_iff {d : DataDir} {s : Session} (h : d.snapshot = some s.snapshot)
    (hverify : ∀ env ∈ s.envelopes, env.verify = .ok ()) (id : String) :
    d.Finds id ↔ id ∈ s.envelopes.map Envelope.messageId := by
  refine ⟨?_, ?_⟩
  · intro hfinds
    obtain ⟨m, hread, rfl⟩ := hfinds
    obtain ⟨env, henv, rfl⟩ := exists_of_read h hverify hread
    rw [id_snap]
    exact List.mem_map_of_mem henv
  · intro hmem
    obtain ⟨env, henv, rfl⟩ := List.mem_map.mp hmem
    have hsome : (s.snapshot.find? fun m => m.id = messageId env.body).isSome := by
      rw [List.find?_isSome, snapshot_eq hverify]
      refine ⟨_, List.mem_map_of_mem henv, ?_⟩
      rw [id_snap]
      exact decide_eq_true rfl
    obtain ⟨m, hm⟩ := Option.isSome_iff_exists.mp hsome
    have hid : m.id = messageId env.body := by simpa using List.find?_some hm
    exact ⟨m, (read_messageId h env.body m).mpr hm, hid⟩

/-- Where no two ids are the same, `read` gives the entry of the envelope that has the id. -/
theorem read_drained {d : DataDir} {s : Session} (h : d.snapshot = some s.snapshot)
    (hverify : ∀ env ∈ s.envelopes, env.verify = .ok ())
    (hnodup : (s.envelopes.map Envelope.messageId).Nodup) {env : Envelope}
    (henv : env ∈ s.envelopes) : d.read env.messageId = .ok (s.fetch.message env).snap := by
  obtain ⟨m, hread, hid⟩ := (finds_iff h hverify env.messageId).mpr (List.mem_map_of_mem henv)
  obtain ⟨env', henv', rfl⟩ := exists_of_read h hverify hread
  rw [id_snap] at hid
  obtain rfl := List.inj_on_of_nodup_map hnodup henv' henv hid
  exact hread

/-! ## Runs of the command -/

/-- The calls of the mailbox one step stands for. -/
def Desk.calls (k : String) (d : Desk) : DeskAct → List Op
  | .deliver e now => [.accept e now]
  | .inbox _ since _ =>
      match d.stage with
      | .idle => [.readFrom k (since.getD d.dir.cursor)]
      | _ => []
  | .next =>
      match d.stage with
      | .cursorSaved s => if s.acks then [.ack k s.cursor] else []
      | _ => []
  | .crash => []

/-- How many envelopes were evicted since the last drain, when it was `n` before the step. -/
def Desk.gone (k : String) (d : Desk) (n : Nat) : DeskAct → Nat
  | .deliver e now => n + Visit.evicted k (d.store, .accept e now)
  | .inbox _ _ _ =>
      match d.stage with
      | .idle => 0
      | _ => n
  | _ => n

/-- The last drain, and what has come to the queue and gone since. -/
structure LastDrain where
  /-- The queue that was drained. -/
  queue : List StoredEnvelope
  stored : List StoredEnvelope
  evicted : Nat

/-- The queue as it would be had nothing been evicted since. -/
def LastDrain.full (w : LastDrain) : List StoredEnvelope := w.queue ++ w.stored

/-- What a step makes of it. -/
def Desk.drew (k : String) (d : Desk) (w : LastDrain) : DeskAct → LastDrain
  | .deliver e now => {
      w with
      stored := w.stored ++ (Visit.stored k (d.store, .accept e now)).toList
      evicted := w.evicted + Visit.evicted k (d.store, .accept e now) }
  | .inbox _ _ _ =>
      match d.stage with
      | .idle => ⟨d.store.queue k, [], 0⟩
      | _ => w
  | _ => w

/-- An empty mailbox and an empty directory. -/
def Desk.start (selfId : NodeId) (capacity : UInt64) : Desk :=
  ⟨.new selfId capacity, ⟨0, none⟩, .idle⟩

variable (selfId : NodeId) (capacity : UInt64) (k : String)

/-- Where things stand after some steps. -/
def deskAfter (acts : List DeskAct) : Desk :=
  Machine.final (Desk.step k) (.start selfId capacity) acts

/-- The steps, each with the state it met. -/
def deskHistory (acts : List DeskAct) : List (Desk × DeskAct) :=
  Machine.visits (Desk.step k) (.start selfId capacity) acts

/-- The calls the mailbox got. -/
def deskCalls (acts : List DeskAct) : List Op :=
  Machine.sent (Desk.step k) (Desk.calls k) (.start selfId capacity) acts

/-- The ids of what the acks freed at the mailbox. -/
def freed (acts : List DeskAct) : Finset String :=
  ackedIdsIn k (history selfId capacity (deskCalls selfId capacity k acts))

/-- How many envelopes were evicted from `k` since the last drain. -/
def evictedSinceDrain (vs : List (Desk × DeskAct)) : Nat :=
  vs.foldl (fun n v => v.1.gone k n v.2) 0

/-- The last drain of `k`, where there was none that of an empty queue. -/
def lastDrain (vs : List (Desk × DeskAct)) : LastDrain :=
  vs.foldl (fun w v => v.1.drew k w v.2) ⟨[], [], 0⟩

variable {selfId capacity k}

section Next

variable {d : Desk} {s : Session}

/-- The run gets through its list. -/
def Session.Lists (s : Session) : Prop := ∃ lines, printInbox s.msgs = .ok lines

theorem Desk.next_drained (h : d.stage = .drained s) (hlists : s.Lists) : Desk.step k d .next
    = ({ d with dir := { d.dir with snapshot := some s.snapshot }, stage := .snapshotted s },
      s.msgs) := by
  obtain ⟨lines, hlines⟩ := hlists
  unfold Desk.step
  dsimp only
  rw [h]
  dsimp only
  rw [hlines, listed_eq_self ⟨lines, hlines⟩]

/-- The panic ends the run, with some of the list printed and nothing saved. -/
theorem Desk.next_panics (h : d.stage = .drained s) (hpanics : ¬s.Lists) :
    Desk.step k d .next = ({ d with stage := .idle }, listed s.msgs) := by
  unfold Desk.step
  dsimp only
  rw [h]
  dsimp only
  split
  · rfl
  · rename_i lines hlines
    exact absurd ⟨lines, hlines⟩ hpanics

theorem Desk.next_snapshotted (h : d.stage = .snapshotted s) : Desk.step k d .next
    = ({ d with dir := { d.dir with cursor := s.cursor }, stage := .cursorSaved s }, []) := by
  unfold Desk.step
  dsimp only
  rw [h]

theorem Desk.next_acks (h : d.stage = .cursorSaved s) (hacks : s.acks = true) :
    Desk.step k d .next
      = ({ d with store := (d.store.ack k s.cursor).1, stage := .idle }, []) := by
  unfold Desk.step
  dsimp only
  rw [h]
  exact if_pos hacks

/-- Without `--ack`, or with nothing new, the run is over. -/
theorem Desk.next_finished (h : d.stage = .cursorSaved s) (hacks : ¬s.acks = true) :
    Desk.step k d .next = ({ d with stage := .idle }, []) := by
  unfold Desk.step
  dsimp only
  rw [h]
  exact if_neg hacks

end Next

/-- A step does to the mailbox what its calls do. -/
theorem store_step (d : Desk) (act : DeskAct) :
    (Desk.step k d act).1.store = Machine.final MailboxStore.call d.store (Desk.calls k d act) := by
  cases act with
  | deliver e now => rfl
  | inbox ack since fetch =>
      cases hs : d.stage <;> simp only [Desk.step, Desk.calls, hs] <;> rfl
  | next =>
      cases hs : d.stage with
      | cursorSaved s =>
          simp only [Desk.step, Desk.calls, hs]
          split <;> rfl
      | drained s =>
          simp only [Desk.step, Desk.calls, hs]
          split <;> rfl
      | _ => simp only [Desk.step, Desk.calls, hs]; rfl
  | crash => rfl

theorem store_deskAfter (acts : List DeskAct) :
    (deskAfter selfId capacity k acts).store
      = after selfId capacity (deskCalls selfId capacity k acts) :=
  Machine.final_sent Desk.store store_step _ acts

theorem deskAfter_concat (acts : List DeskAct) (act : DeskAct) :
    deskAfter selfId capacity k (acts ++ [act])
      = (Desk.step k (deskAfter selfId capacity k acts) act).1 :=
  Machine.final_concat acts act

theorem deskCalls_concat (acts : List DeskAct) (act : DeskAct) :
    deskCalls selfId capacity k (acts ++ [act])
      = deskCalls selfId capacity k acts
          ++ Desk.calls k (deskAfter selfId capacity k acts) act :=
  Machine.sent_concat acts act

/-! ## What one step does -/

/-- The run that has begun and not ended. -/
def Stage.session : Stage → Option Session
  | .idle => none
  | .drained s | .snapshotted s | .cursorSaved s => some s

/-- The ids a step frees. -/
def Desk.frees (k : String) (d : Desk) : DeskAct → Finset String
  | .next =>
      match d.stage with
      | .cursorSaved s =>
          if s.acks then
            (((d.store.queue k).take s.cursor.toNat).map StoredEnvelope.messageId).toFinset
          else ∅
      | _ => ∅
  | _ => ∅

/-- A step sends one call at most, and frees what that call acks. -/
theorem calls_cases (d : Desk) (act : DeskAct) :
    (Desk.calls k d act = [] ∧ Desk.frees k d act = ∅)
      ∨ ∃ op, Desk.calls k d act = [op] ∧ Desk.frees k d act = Visit.ackedIds k (d.store, op) := by
  cases act with
  | deliver e now => exact Or.inr ⟨_, rfl, rfl⟩
  | crash => exact Or.inl ⟨rfl, rfl⟩
  | inbox ack since fetch =>
      cases hs : d.stage with
      | idle => exact Or.inr ⟨_, by rw [Desk.calls, hs], rfl⟩
      | _ => exact Or.inl ⟨by rw [Desk.calls, hs], rfl⟩
  | next =>
      cases hs : d.stage with
      | cursorSaved s =>
          cases hacks : s.acks with
          | false => exact Or.inl ⟨by simp [Desk.calls, hs, hacks], by simp [Desk.frees, hs, hacks]⟩
          | true =>
              refine Or.inr ⟨.ack k s.cursor, by simp [Desk.calls, hs, hacks], ?_⟩
              simp [Desk.frees, hs, hacks, Visit.ackedIds]
      | _ => exact Or.inl ⟨by rw [Desk.calls, hs], by rw [Desk.frees, hs]⟩

theorem freed_concat (acts : List DeskAct) (act : DeskAct) :
    freed selfId capacity k (acts ++ [act])
      = freed selfId capacity k acts ∪ Desk.frees k (deskAfter selfId capacity k acts) act := by
  rw [freed, deskCalls_concat]
  rcases calls_cases (k := k) (deskAfter selfId capacity k acts) act with ⟨hcalls, hfrees⟩
    | ⟨op, hcalls, hfrees⟩
  · rw [hcalls, hfrees, List.append_nil, Finset.union_empty]
    rfl
  · rw [hcalls, hfrees, history_concat, ackedIdsIn_concat, store_deskAfter]
    rfl

theorem lastDrain_concat (acts : List DeskAct) (act : DeskAct) :
    lastDrain k (deskHistory selfId capacity k (acts ++ [act]))
      = Desk.drew k (deskAfter selfId capacity k acts)
          (lastDrain k (deskHistory selfId capacity k acts)) act := by
  rw [deskHistory, Machine.visits_concat, lastDrain, List.foldl_append]
  rfl

/-- The two ways to count the evictions agree. -/
theorem evicted_lastDrain (vs : List (Desk × DeskAct)) :
    (lastDrain k vs).evicted = evictedSinceDrain k vs := by
  have hstep : ∀ (d : Desk) (w : LastDrain) (act : DeskAct),
      (Desk.drew k d w act).evicted = Desk.gone k d w.evicted act := by
    intro d w act
    cases act with
    | inbox ack since fetch => cases hs : d.stage <;> simp only [Desk.drew, Desk.gone, hs]
    | _ => rfl
  induction vs using List.reverseRecOn with
  | nil => rfl
  | append_singleton vs v ih =>
      rw [lastDrain, evictedSinceDrain, List.foldl_append, List.foldl_append]
      rw [lastDrain, evictedSinceDrain] at ih
      rw [← ih]
      exact hstep v.1 _ v.2

/-- **What one step does**, what it frees and what it makes of the last drain. -/
theorem step_cases (d : Desk) (w : LastDrain) (act : DeskAct) :
    (∃ e now, act = .deliver e now
      ∧ (Desk.step k d act).1 = { d with store := (d.store.accept e now).1 }
      ∧ Desk.frees k d act = ∅ ∧ Desk.drew k d w act = Desk.drew k d w (.deliver e now))
    ∨ (∃ ack since fetch, act = .inbox ack since fetch
      ∧ (Desk.step k d act).1 = { d with stage := .drained (d.drain k ack since fetch) }
      ∧ Desk.frees k d act = ∅ ∧ Desk.drew k d w act = ⟨d.store.queue k, [], 0⟩)
    ∨ (∃ s, d.stage = .drained s ∧ act = .next ∧ s.Lists
      ∧ (Desk.step k d act).1
        = { d with dir := { d.dir with snapshot := some s.snapshot }, stage := .snapshotted s }
      ∧ Desk.frees k d act = ∅ ∧ Desk.drew k d w act = w)
    ∨ (∃ s, d.stage = .snapshotted s ∧ act = .next
      ∧ (Desk.step k d act).1
        = { d with dir := { d.dir with cursor := s.cursor }, stage := .cursorSaved s }
      ∧ Desk.frees k d act = ∅ ∧ Desk.drew k d w act = w)
    ∨ (∃ s, d.stage = .cursorSaved s ∧ act = .next ∧ s.acks = true
      ∧ (Desk.step k d act).1 = { d with store := (d.store.ack k s.cursor).1, stage := .idle }
      ∧ Desk.frees k d act
        = (((d.store.queue k).take s.cursor.toNat).map StoredEnvelope.messageId).toFinset)
    ∨ ((act = .next → ∀ s, d.stage.session = some s →
        d.stage = .drained s ∧ ¬s.Lists ∨ d.stage = .cursorSaved s ∧ s.acks = false)
      ∧ ((Desk.step k d act).1 = d ∨ (Desk.step k d act).1 = { d with stage := .idle })
      ∧ Desk.frees k d act = ∅ ∧ Desk.drew k d w act = w) := by
  cases act with
  | deliver e now => exact Or.inl ⟨e, now, rfl, rfl, rfl, rfl⟩
  | crash =>
      refine Or.inr (Or.inr (Or.inr (Or.inr (Or.inr ⟨?_, Or.inr rfl, rfl, rfl⟩))))
      intro h
      cases h
  | inbox ack since fetch =>
      cases hs : d.stage with
      | idle =>
          refine Or.inr (Or.inl ⟨ack, since, fetch, rfl, ?_, rfl, ?_⟩)
          · simp only [Desk.step, hs]
          · rw [Desk.drew, hs]
      | _ =>
          refine Or.inr (Or.inr (Or.inr (Or.inr (Or.inr ⟨?_, Or.inl ?_, rfl, ?_⟩))))
          · intro h
            cases h
          · simp only [Desk.step, hs]
          · rw [Desk.drew, hs]
  | next =>
      cases hs : d.stage with
      | idle =>
          refine Or.inr (Or.inr (Or.inr (Or.inr (Or.inr ⟨?_, Or.inl ?_, ?_, rfl⟩))))
          · intro _ s h
            cases h
          · simp only [Desk.step, hs]
          · rw [Desk.frees, hs]
      | drained s =>
          by_cases hlists : s.Lists
          · refine Or.inr (Or.inr (Or.inl ⟨s, rfl, rfl, hlists, ?_, ?_, rfl⟩))
            · rw [Desk.next_drained hs hlists]
            · rw [Desk.frees, hs]
          · refine Or.inr (Or.inr (Or.inr (Or.inr (Or.inr ⟨?_, Or.inr ?_, ?_, rfl⟩))))
            · intro _ s' h
              obtain rfl := Option.some.inj h
              exact Or.inl ⟨rfl, hlists⟩
            · rw [Desk.next_panics hs hlists]
            · rw [Desk.frees, hs]
      | snapshotted s =>
          refine Or.inr (Or.inr (Or.inr (Or.inl ⟨s, rfl, rfl, ?_, ?_, rfl⟩)))
          · rw [Desk.next_snapshotted hs]
          · rw [Desk.frees, hs]
      | cursorSaved s =>
          cases hacks : s.acks with
          | true =>
              refine Or.inr (Or.inr (Or.inr (Or.inr (Or.inl ⟨s, rfl, rfl, hacks, ?_, ?_⟩))))
              · rw [Desk.next_acks hs hacks]
              · simp only [Desk.frees, hs, if_pos hacks]
          | false =>
              have hnot : ¬s.acks = true := by simp [hacks]
              refine Or.inr (Or.inr (Or.inr (Or.inr (Or.inr ⟨?_, Or.inr ?_, ?_, rfl⟩))))
              · intro _ s' h
                obtain rfl := Option.some.inj h
                exact Or.inr ⟨rfl, hacks⟩
              · rw [Desk.next_finished hs hnot]
              · simp only [Desk.frees, hs, if_neg hnot]

/-! ## The client without bodies -/

/-- The run without what it fetched. -/
def Session.run (s : Session) : InboxRun := ⟨s.ack, s.start, composeMessages s.envelopes, s.cursor⟩

def Stage.phase : Stage → Phase
  | .idle => .idle
  | .drained s => .drained s.run
  | .snapshotted s => .snapshotted s.run
  | .cursorSaved s => .cursorSaved s.run

/-- Where a client stands that has the same mailbox and the same files, but for the bodies. -/
structure Desk.Seen (d : Desk) (c : Client) : Prop where
  store : d.store = c.store
  cursor : d.dir.cursor = c.savedCursor
  phase : d.stage.phase = c.phase
  snapshot : (d.dir.snapshot.getD []).map SnapMsg.id = c.snapshot.map Envelope.messageId

/-- What the client does in one step. Printing is a step of its own there. -/
def Desk.clientActs (d : Desk) : DeskAct → List ClientAct
  | .deliver e now => [.deliver e now]
  | .inbox ack _ _ => [.inbox ack]
  | .next =>
      match d.stage with
      | .drained _ => [.next, .next]
      | _ => [.next]
  | .crash => []

/-- No run dies or panics with this step, and one that starts does so at the saved cursor. -/
def Desk.Plain (d : Desk) : DeskAct → Prop
  | .deliver _ _ => True
  | .inbox _ since _ => since = none
  | .next => ∀ s, d.stage = .drained s → s.Lists
  | .crash => False

theorem envelopes_msgs (s : Session) : s.msgs.map Message.envelope = s.run.msgs := by
  have hid : Message.envelope ∘ s.fetch.message = id := by
    funext env
    rw [Function.comp_apply, message_eq]
    rfl
  rw [Session.msgs, Fetch.messages, List.map_map, hid, List.map_id]
  rfl

/-- **One step of the command is a step of the client**, or two. -/
theorem seen_step {d : Desk} {c : Client} {act : DeskAct} (hact : d.Plain act) (h : d.Seen c) :
    (Desk.step k d act).1.Seen (Machine.final (Client.step k) c (d.clientActs act))
      ∧ (Machine.outputs (Client.step k) c (d.clientActs act)).flatten
        = (Desk.step k d act).2.map Message.envelope := by
  obtain ⟨store, savedCursor, snapshot, phase⟩ := c
  obtain ⟨store', ⟨cursor, saved⟩, stage⟩ := d
  obtain ⟨hstore, hcursor, hphase, hsnapshot⟩ := h
  cases hstore
  cases hcursor
  cases hphase
  cases act with
  | deliver e now => exact ⟨⟨rfl, rfl, rfl, hsnapshot⟩, rfl⟩
  | crash => cases hact
  | inbox ack since fetch =>
      cases hact
      cases stage with
      | idle => exact ⟨⟨rfl, rfl, rfl, hsnapshot⟩, rfl⟩
      | _ => exact ⟨⟨rfl, rfl, rfl, hsnapshot⟩, rfl⟩
  | next =>
      cases stage with
      | idle => exact ⟨⟨rfl, rfl, rfl, hsnapshot⟩, rfl⟩
      | drained s =>
          rw [Desk.next_drained rfl (hact s rfl)]
          refine ⟨⟨rfl, rfl, rfl, ?_⟩, ?_⟩
          · show s.snapshot.map SnapMsg.id = s.run.msgs.map Envelope.messageId
            rw [← envelopes_msgs, Session.snapshot, List.map_map, List.map_map]
            rfl
          · show [s.run.msgs, []].flatten = s.msgs.map Message.envelope
            rw [envelopes_msgs]
            exact List.append_nil _
      | snapshotted s => exact ⟨⟨rfl, rfl, rfl, hsnapshot⟩, rfl⟩
      | cursorSaved s =>
          have hrun : s.run.acks = s.acks := rfl
          simp only [Desk.clientActs, Desk.step, Machine.final, Machine.outputs, Client.step, hrun]
          split
          · exact ⟨⟨rfl, rfl, rfl, hsnapshot⟩, rfl⟩
          · exact ⟨⟨rfl, rfl, rfl, hsnapshot⟩, rfl⟩

/--
**The command is the client, but for what it fetches**: as long as no run dies or panics and
each starts at the saved cursor, the client of the same mailbox gets as far and shows the
same.
-/
theorem seen_deskAfter {acts : List DeskAct}
    (h : ∀ v ∈ deskHistory selfId capacity k acts, v.1.Plain v.2) :
    ∃ clientActs : List ClientAct,
      (deskAfter selfId capacity k acts).Seen (clientAfter selfId capacity k clientActs)
        ∧ shown selfId capacity k clientActs
          = (Machine.outputs (Desk.step k) (.start selfId capacity) acts).flatMap
              (List.map Message.envelope) := by
  have hstart : (Desk.start selfId capacity).Seen (Client.start selfId capacity) :=
    ⟨rfl, rfl, rfl, rfl⟩
  refine ⟨Machine.sent (Desk.step k) Desk.clientActs (.start selfId capacity) acts, ?_⟩
  exact Machine.simulate (R := Desk.Seen) (I := Desk.Plain)
    (fun _ _ _ hact hseen => seen_step hact hseen) hstart h

/-! ## A run under way -/

/-- What holds of a run under way that began with the last drain, when some ids are freed. -/
structure Underway (freed : Finset String) (queue : List StoredEnvelope) (w : LastDrain)
    (s : Session) : Prop where
  verified : ∀ env ∈ s.envelopes, env.verify = .ok ()
  fresh : ∀ env ∈ s.envelopes, env.messageId ∉ freed
  nodup : (w.queue.map StoredEnvelope.messageId).Nodup
  envelopes : s.envelopes = (w.queue.drop s.start.toNat).map StoredEnvelope.envelope
  cursor : s.cursor.toNat = w.queue.length
  evicted_le : w.evicted ≤ w.full.length
  /-- The queue is the one that was drained, and what came since, without the evicted. -/
  queue : queue = w.full.drop w.evicted

/-- A run drains no id twice. -/
theorem Underway.nodup_envelopes {freed : Finset String} {queue : List StoredEnvelope}
    {w : LastDrain} {s : Session} (h : Underway freed queue w s) :
    (s.envelopes.map Envelope.messageId).Nodup := by
  rw [h.envelopes, List.map_map]
  exact h.nodup.sublist ((List.drop_sublist _ _).map _)

/-- A run starts with the queue from its start on. -/
theorem underway_drain (acts : List DeskAct) (ack : Bool) (since : Option UInt64)
    (fetch : Fetch) :
    Underway (freed selfId capacity k acts) ((deskAfter selfId capacity k acts).store.queue k)
      ⟨(deskAfter selfId capacity k acts).store.queue k, [], 0⟩
      ((deskAfter selfId capacity k acts).drain k ack since fetch) := by
  have hkept := kept_after selfId capacity (deskCalls selfId capacity k acts) k
  have hlen := toNat_length_queue selfId capacity (deskCalls selfId capacity k acts) k
  rw [← store_deskAfter] at hkept hlen
  have hsub : ((deskAfter selfId capacity k acts).drain k ack since fetch).envelopes
      <:+ ((deskAfter selfId capacity k acts).store.queue k).map StoredEnvelope.envelope := by
    rw [Desk.drain, MailboxStore.readFrom_eq]
    exact (List.drop_suffix _ _).map _
  have hids : (((deskAfter selfId capacity k acts).store.queue k).map StoredEnvelope.envelope).map
      Envelope.messageId
        = ((deskAfter selfId capacity k acts).store.queue k).map StoredEnvelope.messageId :=
    List.map_map
  refine ⟨?_, ?_, hkept.sound.nodup, ?_, ?_, Nat.zero_le _, (List.append_nil _).symm⟩
  · intro env henv
    obtain ⟨x, hx, rfl⟩ := List.mem_map.mp (hsub.mem henv)
    exact (hkept.addressed x hx).1
  · intro env henv
    refine hkept.sound.notMem_freed ?_
    rw [← MailboxStore.queue, ← hids]
    exact List.mem_map_of_mem (hsub.mem henv)
  · rw [Desk.drain, MailboxStore.readFrom_eq]
  · rw [Desk.drain, MailboxStore.readFrom_eq]
    exact hlen

/-- A delivery adds to the end and may evict from the front. -/
theorem Underway.deliver {freed : Finset String} {s : Session} {d : Desk} {w : LastDrain}
    (h : Underway freed (d.store.queue k) w s) (hcap : 0 < d.store.capacity) (e : Envelope)
    (now : UInt64) :
    Underway freed ((d.store.accept e now).1.queue k) (Desk.drew k d w (.deliver e now)) s := by
  obtain ⟨hverified, hfresh, hnodup, henvs, hcursor, hgone, hqueue⟩ := h
  rw [← MailboxStore.call_accept]
  suffices hafter : (Desk.drew k d w (.deliver e now)).evicted
      ≤ (Desk.drew k d w (.deliver e now)).full.length
      ∧ (d.store.call (.accept e now)).1.queue k = (Desk.drew k d w (.deliver e now)).full.drop
        (Desk.drew k d w (.deliver e now)).evicted from
    ⟨hverified, hfresh, hnodup, henvs, hcursor, hafter.1, hafter.2⟩
  unfold Desk.drew LastDrain.full
  unfold LastDrain.full at hgone hqueue
  dsimp only
  rcases mail_call d.store (.accept e now) k with
    ⟨e', now', ⟨-, hto, hf⟩, hmail, hstored, -, -, hev⟩ | ⟨c, hop, -⟩
    | ⟨hmail, hstored, -, -, hev⟩
  · have hover : (d.store.mail k).overflow d.store.capacity ≤ (d.store.queue k).length :=
      Slot.overflow_le_length hcap
    subst hto
    rw [hstored, hev, Option.toList_some, ← List.append_assoc]
    refine ⟨?_, ?_⟩
    · rw [hqueue, List.length_drop] at hover
      rw [List.length_append]
      omega
    · rw [MailboxStore.queue, hmail, Slot.queue_deposit hcap hf.2.2, ← List.drop_drop,
        List.drop_append_of_le_length hgone, ← hqueue, List.drop_append_of_le_length hover]
  · cases hop
  · rw [hstored, hev, Nat.add_zero, Option.toList_none, List.append_nil, MailboxStore.queue, hmail]
    exact ⟨hgone, hqueue⟩

/-- **Preserved by every step.** A run that starts has to have it. -/
theorem underway_step {d : Desk} {f : Finset String} {w : LastDrain}
    (hcap : 0 < d.store.capacity)
    (hdrain : ∀ ack since fetch,
      Underway f (d.store.queue k) ⟨d.store.queue k, [], 0⟩ (d.drain k ack since fetch))
    (h : ∀ s, d.stage.session = some s → Underway f (d.store.queue k) w s) (act : DeskAct) :
    ∀ s, (Desk.step k d act).1.stage.session = some s →
      Underway (f ∪ Desk.frees k d act) ((Desk.step k d act).1.store.queue k)
        (Desk.drew k d w act) s := by
  rcases step_cases (k := k) d w act with ⟨e, now, -, hd, hf, hw⟩
    | ⟨ack, since, fetch, -, hd, hf, hw⟩ | ⟨s, hs, -, -, hd, hf, hw⟩ | ⟨s, hs, -, hd, hf, hw⟩
    | ⟨s, -, -, -, hd, -⟩ | ⟨-, hd, hf, hw⟩
  · rw [hd, hf, hw, Finset.union_empty]
    exact fun s hs => (h s hs).deliver hcap e now
  · rw [hd, hf, hw, Finset.union_empty]
    intro s hs
    obtain rfl := Option.some.inj hs
    exact hdrain ack since fetch
  · rw [hd, hf, hw, Finset.union_empty]
    rw [hs] at h
    exact h
  · rw [hd, hf, hw, Finset.union_empty]
    rw [hs] at h
    exact h
  · rw [hd]
    intro s' hs'
    cases hs'
  · rw [hf, hw, Finset.union_empty]
    rcases hd with hd | hd
    · rw [hd]
      exact h
    · rw [hd]
      intro s' hs'
      cases hs'

/-- From its snapshot on, the snapshot is that of the run under way. -/
def Desk.Saved (d : Desk) : Prop :=
  ∀ s, d.stage = .snapshotted s ∨ d.stage = .cursorSaved s → d.dir.snapshot = some s.snapshot

theorem saved_step {d : Desk} (h : d.Saved) (act : DeskAct) : (Desk.step k d act).1.Saved := by
  intro s' hs'
  rcases step_cases (k := k) d ⟨[], [], 0⟩ act with ⟨e, now, -, hd, -⟩
    | ⟨ack, since, fetch, -, hd, -⟩ | ⟨s, hs, -, -, hd, -⟩ | ⟨s, hs, -, hd, -⟩
    | ⟨s, -, -, -, hd, -⟩ | ⟨-, hd | hd, -⟩
  all_goals
    rw [hd] at hs' ⊢
  · exact h s' hs'
  · rcases hs' with hs' | hs' <;> cases hs'
  · rcases hs' with hs' | hs' <;> cases hs'
    rfl
  · rcases hs' with hs' | hs' <;> cases hs'
    exact h _ (Or.inl hs)
  · rcases hs' with hs' | hs' <;> cases hs'
  · exact h s' hs'
  · rcases hs' with hs' | hs' <;> cases hs'

/-- What holds of the files and the run under way. -/
structure DeskStands (selfId : NodeId) (capacity : UInt64) (k : String) (acts : List DeskAct) :
    Prop where
  underway : ∀ s, (deskAfter selfId capacity k acts).stage.session = some s →
    Underway (freed selfId capacity k acts) ((deskAfter selfId capacity k acts).store.queue k)
      (lastDrain k (deskHistory selfId capacity k acts)) s
  saved : (deskAfter selfId capacity k acts).Saved

theorem deskStands (selfId : NodeId) (capacity : UInt64) (k : String) (acts : List DeskAct) :
    DeskStands selfId capacity k acts := by
  induction acts using List.reverseRecOn with
  | nil =>
      refine ⟨?_, ?_⟩
      · intro s hs
        cases hs
      · intro s hs
        rcases hs with hs | hs <;> cases hs
  | append_singleton acts act ih =>
      have hcap : 0 < (deskAfter selfId capacity k acts).store.capacity := by
        rw [store_deskAfter]
        exact (kept_after selfId capacity _ k).capacity_pos
      refine ⟨?_, ?_⟩
      · rw [deskAfter_concat, freed_concat, lastDrain_concat]
        exact underway_step hcap (underway_drain acts) ih.underway act
      · rw [deskAfter_concat]
        exact saved_step ih.saved act

end Crypto

end CeMail
