import CeMail.Model.Inbox
import CeMail.Proof.StoreRun

/-!
# Reading by cursor

The cursor a read returns is the length of the queue it found, and the next read takes
it for an index into the queue it finds. The two agree as long as nothing is evicted in
between. Once something is, the index points past mail that came meanwhile, and this
mail is never returned.
-/

namespace CeMail

section Crypto

variable [Crypto]

/-! ## Runs of a reader -/

/-- The calls of the mailbox one step of a reader stands for. -/
def Reader.calls (k : String) (r : Reader) : ReaderAct → List Op
  | .deliver e now => [.accept e now]
  | .read => [.readFrom k r.cursor]

/-- A reader of `k` who never read, at an empty mailbox. -/
def Reader.start (selfId : NodeId) (capacity : UInt64) : Reader := ⟨.new selfId capacity, 0⟩

variable (selfId : NodeId) (capacity : UInt64) (k : String)

/-- Where a reader stands after some steps. -/
def readerAfter (acts : List ReaderAct) : Reader :=
  Machine.final (Reader.step k) (.start selfId capacity) acts

/-- The steps, each with the state it met. -/
def readerHistory (acts : List ReaderAct) : List (Reader × ReaderAct) :=
  Machine.visits (Reader.step k) (.start selfId capacity) acts

/-- Everything the reads among some steps returned. -/
def returned (acts : List ReaderAct) : List StoredEnvelope :=
  (Machine.outputs (Reader.step k) (.start selfId capacity) acts).flatten

/-- The calls the mailbox got. -/
def readerCalls (acts : List ReaderAct) : List Op :=
  Machine.sent (Reader.step k) (Reader.calls k) (.start selfId capacity) acts

/-- How many envelopes were evicted from `k` since the last read. -/
def evictedSinceRead (vs : List (Reader × ReaderAct)) : Nat :=
  vs.foldl (fun n v => match v.2 with
    | .deliver e now => n + Visit.evicted k (v.1.store, .accept e now)
    | .read => 0) 0

/-- Every read leaves nothing in the queue that was not returned, by it or before. -/
def ReadsSeeAll (acts : List ReaderAct) : Prop :=
  ∀ before act rest, acts = before ++ act :: rest → act = .read →
    ∀ x ∈ (readerAfter selfId capacity k before).store.queue k,
      x.envelope ∈ (returned selfId capacity k (before ++ [.read])).map StoredEnvelope.envelope

/--
At every read, nothing was evicted from `k` since the last one, unless the last one found
an empty queue or there was none.
-/
def ReadsInTime (acts : List ReaderAct) : Prop :=
  ∀ before act rest, acts = before ++ act :: rest → act = .read →
    (readerAfter selfId capacity k before).cursor = 0
      ∨ evictedSinceRead k (readerHistory selfId capacity k before) = 0

variable {selfId capacity k}

/-- The mailbox of a reader is one that got its calls. -/
theorem store_readerAfter (acts : List ReaderAct) :
    (readerAfter selfId capacity k acts).store
      = after selfId capacity (readerCalls selfId capacity k acts) := by
  refine Machine.final_sent Reader.store ?_ _ acts
  intro r act
  cases act <;> rfl

theorem readerAfter_concat (acts : List ReaderAct) (act : ReaderAct) :
    readerAfter selfId capacity k (acts ++ [act])
      = (Reader.step k (readerAfter selfId capacity k acts) act).1 :=
  Machine.final_concat acts act

theorem readerCalls_concat (acts : List ReaderAct) (act : ReaderAct) :
    readerCalls selfId capacity k (acts ++ [act])
      = readerCalls selfId capacity k acts
          ++ Reader.calls k (readerAfter selfId capacity k acts) act :=
  Machine.sent_concat acts act

theorem returned_concat (acts : List ReaderAct) (act : ReaderAct) :
    returned selfId capacity k (acts ++ [act])
      = returned selfId capacity k acts
          ++ (Reader.step k (readerAfter selfId capacity k acts) act).2 := by
  rw [returned, Machine.outputs_append, List.flatten_append]
  exact congrArg _ (List.append_nil _)

theorem evictedSinceRead_deliver (acts : List ReaderAct) (e : Envelope) (now : UInt64) :
    evictedSinceRead k (readerHistory selfId capacity k (acts ++ [.deliver e now]))
      = evictedSinceRead k (readerHistory selfId capacity k acts)
          + Visit.evicted k ((readerAfter selfId capacity k acts).store, .accept e now) := by
  rw [readerHistory, Machine.visits_concat, evictedSinceRead, List.foldl_append]
  rfl

theorem evictedSinceRead_read (acts : List ReaderAct) :
    evictedSinceRead k (readerHistory selfId capacity k (acts ++ [.read])) = 0 := by
  rw [readerHistory, Machine.visits_concat, evictedSinceRead, List.foldl_append]
  rfl

/-! ## Where the reader stands -/

/-- The window of the mailbox under the key the reader reads. -/
abbrev readerWindow (selfId : NodeId) (capacity : UInt64) (k : String) (acts : List ReaderAct) :
    Window StoredEnvelope :=
  window selfId capacity (readerCalls selfId capacity k acts) k

/-- A read returns the contents from the cursor on, and keeps their number as its cursor. -/
theorem read_eq (acts : List ReaderAct) :
    (readerAfter selfId capacity k (acts ++ [.read])).cursor.toNat
        = (readerWindow selfId capacity k acts).contents.length
      ∧ returned selfId capacity k (acts ++ [.read])
        = returned selfId capacity k acts ++ (readerWindow selfId capacity k acts).contents.drop
            (readerAfter selfId capacity k acts).cursor.toNat := by
  rw [readerAfter_concat, returned_concat, Reader.step, MailboxStore.readFrom_eq,
    store_readerAfter]
  refine ⟨?_, by rw [queue_eq_contents]⟩
  rw [toNat_length_queue, queue_eq_contents]

theorem readerWindow_read (acts : List ReaderAct) :
    readerWindow selfId capacity k (acts ++ [.read]) = readerWindow selfId capacity k acts := by
  rw [readerWindow, readerCalls_concat]
  rcases window_concat selfId capacity (readerCalls selfId capacity k acts)
    (.readFrom k (readerAfter selfId capacity k acts).cursor) k
    with ⟨e, now, hst, -⟩ | ⟨c, hop, -⟩ | ⟨-, hw⟩
  · cases hst.1
  · cases hop
  · exact hw

/-- A delivery keeps the cursor, returns nothing, and may push an envelope onto the window. -/
theorem deliver_eq (selfId : NodeId) (capacity : UInt64) (k : String) (acts : List ReaderAct)
    (e : Envelope) (now : UInt64) :
    (readerAfter selfId capacity k (acts ++ [.deliver e now])).cursor
        = (readerAfter selfId capacity k acts).cursor
      ∧ returned selfId capacity k (acts ++ [.deliver e now]) = returned selfId capacity k acts
      ∧ ((readerWindow selfId capacity k (acts ++ [.deliver e now])
            = readerWindow selfId capacity k acts
          ∧ evictedSinceRead k (readerHistory selfId capacity k (acts ++ [.deliver e now]))
            = evictedSinceRead k (readerHistory selfId capacity k acts))
        ∨ ∃ x n, n ≤ 1
          ∧ readerWindow selfId capacity k (acts ++ [.deliver e now])
            = ((readerWindow selfId capacity k acts).push x).advance n
          ∧ evictedSinceRead k (readerHistory selfId capacity k (acts ++ [.deliver e now]))
            = evictedSinceRead k (readerHistory selfId capacity k acts) + n) := by
  refine ⟨by rw [readerAfter_concat]; rfl, ?_, ?_⟩
  · rw [returned_concat]
    exact List.append_nil _
  · rw [evictedSinceRead_deliver, readerWindow, readerCalls_concat, store_readerAfter]
    rcases window_concat selfId capacity (readerCalls selfId capacity k acts) (.accept e now) k
      with ⟨e', now', -, hle, hw⟩ | ⟨c, hop, -⟩ | ⟨hz, hw⟩
    · exact Or.inr ⟨_, _, hle, hw, rfl⟩
    · cases hop
    · exact Or.inl ⟨hw, by rw [hz, Nat.add_zero]⟩

/-- The reader never got anything newer than its last read. -/
theorem lag_reader (acts : List ReaderAct) :
    (readerWindow selfId capacity k acts).Lag (readerAfter selfId capacity k acts).cursor.toNat
      (evictedSinceRead k (readerHistory selfId capacity k acts))
      (returned selfId capacity k acts) := by
  induction acts using List.reverseRecOn with
  | nil => exact Window.lag_empty
  | append_singleton acts act ih =>
      cases act with
      | read =>
          rw [(read_eq acts).1, (read_eq acts).2, readerWindow_read, evictedSinceRead_read]
          exact ih.read
      | deliver e now =>
          obtain ⟨hcur, hret, ⟨hw, hn⟩ | ⟨x, n, hle, hw, hn⟩⟩ :=
            deliver_eq selfId capacity k acts e now
          · rw [hcur, hret, hw, hn]
            exact ih
          · rw [hcur, hret, hw, hn]
            exact ih.push x hle

/-- Reads in time keep the reader caught up. -/
theorem caughtUp_reader {acts : List ReaderAct} (h : ReadsInTime selfId capacity k acts) :
    (readerWindow selfId capacity k acts).CaughtUp
      (readerAfter selfId capacity k acts).cursor.toNat
      (evictedSinceRead k (readerHistory selfId capacity k acts))
      (returned selfId capacity k acts) := by
  induction acts using List.reverseRecOn with
  | nil => exact Window.caughtUp_empty
  | append_singleton acts act ih =>
      obtain ⟨hstart, hlast⟩ := Machine.forall_cut_concat.mp h
      have hcaught := ih hstart
      cases act with
      | read =>
          rw [(read_eq acts).1, (read_eq acts).2, readerWindow_read, evictedSinceRead_read]
          refine Window.caughtUp_of_forall_mem (hcaught.read ?_)
          exact (hlast rfl).imp_left fun h0 => by rw [h0]; rfl
      | deliver e now =>
          obtain ⟨hcur, hret, ⟨hw, hn⟩ | ⟨x, n, hle, hw, hn⟩⟩ :=
            deliver_eq selfId capacity k acts e now
          · rw [hcur, hret, hw, hn]
            exact hcaught
          · rw [hcur, hret, hw, hn]
            exact hcaught.push (lag_reader acts).replaced x hle

/-! ## What the reads return -/

/-- No envelope was stored under `k` a second time. -/
def StoredOnce (selfId : NodeId) (capacity : UInt64) (k : String) (acts : List ReaderAct) : Prop :=
  ((readerWindow selfId capacity k acts).log.map StoredEnvelope.envelope).Nodup

/-- A read in time after reads in time leaves nothing unreturned. -/
theorem mem_returned {acts : List ReaderAct} (h : ReadsInTime selfId capacity k (acts ++ [.read]))
    {x : StoredEnvelope} (hx : x ∈ (readerAfter selfId capacity k acts).store.queue k) :
    x ∈ returned selfId capacity k (acts ++ [.read]) := by
  obtain ⟨hstart, hlast⟩ := Machine.forall_cut_concat.mp h
  rw [store_readerAfter, queue_eq_contents] at hx
  rw [(read_eq acts).2]
  refine (caughtUp_reader hstart).read ?_ x hx
  exact (hlast rfl).imp_left fun h0 => by rw [h0]; rfl

/-- What the reads return was stored. -/
theorem mem_log_of_returned {acts : List ReaderAct} {x : StoredEnvelope}
    (h : x ∈ returned selfId capacity k acts) : x ∈ (readerWindow selfId capacity k acts).log := by
  obtain ⟨p, -, hp⟩ := (lag_reader acts).got_old x h
  exact List.mem_of_getElem? hp

/--
**A reader that reads in time sees all the mail there is.** Where no envelope is stored a
second time, reading in time is also necessary.
-/
theorem readsSeeAll_of_readsInTime (selfId : NodeId) (capacity : UInt64) (k : String)
    (acts : List ReaderAct) :
    (ReadsInTime selfId capacity k acts → ReadsSeeAll selfId capacity k acts)
      ∧ (StoredOnce selfId capacity k acts → ReadsSeeAll selfId capacity k acts →
          ReadsInTime selfId capacity k acts) := by
  refine ⟨?_, ?_⟩
  · intro h before act rest hcut hact x hx
    subst hcut hact
    rw [List.append_cons] at h
    exact List.mem_map_of_mem (mem_returned (Machine.forall_cut_start h) hx)
  · intro honce h before act rest hcut hact
    subst hcut hact
    by_contra hlate
    obtain ⟨hcursor, hgone⟩ := not_or.mp hlate
    have hcursor' : (readerAfter selfId capacity k before).cursor.toNat ≠ 0 :=
      fun h0 => hcursor (UInt64.toNat_inj.mp h0)
    have hnodup : ((readerWindow selfId capacity k before).log.map
        StoredEnvelope.envelope).Nodup := by
      have hsent : readerCalls selfId capacity k (before ++ .read :: rest)
          = readerCalls selfId capacity k before ++ _ := Machine.sent_append _ _
      rw [StoredOnce, readerWindow, hsent] at honce
      exact honce.sublist ((log_extends selfId capacity _ _ k).sublist.map _)
    obtain ⟨x, hx, hmiss⟩ := (lag_reader before).exists_missed hnodup.of_map hcursor' hgone
    rw [← (read_eq before).2] at hmiss
    -- of its envelope nothing else was stored, so that was not returned either
    have hqueue : x ∈ (readerAfter selfId capacity k before).store.queue k := by
      rw [store_readerAfter, queue_eq_contents]
      exact hx
    obtain ⟨y, hy, hsame⟩ := List.mem_map.mp (h before .read rest rfl rfl x hqueue)
    have hlog := mem_log_of_returned hy
    rw [readerWindow_read] at hlog
    rw [List.inj_on_of_nodup_map hnodup hlog (List.mem_of_mem_drop hx) hsame] at hy
    exact hmiss hy

end Crypto

/-- A reader at a mailbox of capacity 1: it reads one envelope, the next evicts that one, and the
next read returns nothing. -/
theorem read_misses_after_eviction :
    ¬@ReadsSeeAll Sample.crypto Sample.mailbox 1 Sample.recipient.hex
      [.deliver Sample.first 1, .read, .deliver Sample.second 2, .read] := by
  intro h
  have hall := h [.deliver Sample.first 1, .read, .deliver Sample.second 2] .read [] rfl rfl
  revert hall
  decide +kernel

end CeMail
