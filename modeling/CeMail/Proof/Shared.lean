import CeMail.Model.Shared
import CeMail.Proof.Replies

/-!
# Threads at one store

However the threads of a node take turns at a shared store, and whatever steps the store's
methods take, the calls come out as if made one by one. So everything known of one call
after another is true of threads: what the callers are told adds up to what is queued.
-/

namespace CeMail

open Lock (Guarded Program System Act Entry Mark Linearizes)

section Crypto

variable [Crypto] {checks : Bool}

/-! ## The lock of the source -/

/-- The store and the poison flag as an object behind a lock. -/
def SharedMailbox.guarded (m : SharedMailbox) : Guarded MailboxStore := ⟨m.store, m.poisoned⟩

omit [Crypto] in
/-- A method that runs a closure under the lock, when its reply is put as `reply`. -/
theorem guarded_with {R : Type} (m : SharedMailbox)
    (f : MailboxStore → Except Fault (MailboxStore × R)) (reply : Except String R → SharedReply)
    {run : SharedCall → MailboxStore → Except Fault (MailboxStore × SharedReply)}
    {told : SharedCall → SharedReply} {c : SharedCall}
    (hrun : ∀ s, run c s = (f s).map fun p => (p.1, reply (.ok p.2)))
    (htold : told c = reply (.error "mailbox lock poisoned")) :
    Guarded.call run told m.guarded c = ((m.with f).1.guarded, (m.with f).2.map reply) := by
  obtain ⟨store, poisoned⟩ := m
  cases poisoned with
  | true =>
      simp only [SharedMailbox.guarded, Guarded.call, SharedMailbox.with, if_true, htold]
      rfl
  | false =>
      simp only [SharedMailbox.guarded, Guarded.call, SharedMailbox.with, hrun,
        Bool.false_eq_true, if_false]
      cases f store <;> rfl

/-- A call of the shared mailbox is a call of the store behind its lock. -/
theorem guarded_call (m : SharedMailbox) (c : SharedCall) :
    Guarded.call (SharedCall.run checks) SharedCall.refused m.guarded c
      = ((m.call checks c).1.guarded, (m.call checks c).2) := by
  have hflat : ∀ {R : Type} (r : Except Fault (Except String (Except String R)))
      (reply : Except String R → SharedReply),
      (r.map (· >>= id)).map reply = r.map fun x => reply (x >>= id) := by
    intro R r reply
    cases r <;> rfl
  cases c with
  | accept envelope now =>
      rw [SharedMailbox.call, SharedMailbox.accept, hflat]
      refine guarded_with m _ (fun x => .accepted (x >>= id)) ?_ rfl
      intro s
      rw [SharedCall.run]
      cases Checked.accept checks s envelope now <;> rfl
  | ack recipientHex upToCursor =>
      refine guarded_with m _ .acked ?_ rfl
      intro s
      rw [SharedCall.run]
      cases Checked.ack s recipientHex upToCursor <;> rfl
  | readPage recipientHex since limit =>
      refine guarded_with m _ .page ?_ rfl
      intro s
      rw [SharedCall.run]
      cases Checked.readPage checks s recipientHex since limit <;> rfl
  | pendingCount recipientHex => exact guarded_with m _ .count (fun _ => rfl) rfl
  | toBytes =>
      rw [SharedMailbox.call, SharedMailbox.toBytes, hflat]
      exact guarded_with m _ (fun x => .bytes (x >>= id)) (fun _ => rfl) rfl

/-! ## What calls do to the store -/

/-- The calls of the store that a call of the shared mailbox makes. -/
def SharedCall.ops : SharedCall → List Op
  | .accept envelope now => [.accept envelope now]
  | .ack recipientHex upToCursor => [.ack recipientHex upToCursor]
  | .readPage recipientHex since limit => [.readPage recipientHex since limit]
  | .pendingCount _ => []
  | .toBytes => []

/-- A poisoned lock keeps all of them out. -/
def SharedMailbox.ops (m : SharedMailbox) (c : SharedCall) : List Op :=
  if m.poisoned then [] else c.ops

/-- The envelope that a call stored under `k`, by what its caller was told. -/
def toldStored (k : String) : SharedCall × Except Fault SharedReply → Option StoredEnvelope
  | (.accept e now, .ok (.accepted (.ok .stored))) => if e.body.to = k then some ⟨e, now⟩ else none
  | _ => none

/-- How many envelopes a call removed from the queue of `k`, by what its caller was told. -/
def toldRemoved (k : String) : SharedCall × Except Fault SharedReply → Nat
  | (.ack k' _, .ok (.acked (.ok n))) => if k' = k then n.toNat else 0
  | _ => 0

theorem call_eq_guarded (m : SharedMailbox) (c : SharedCall) :
    m.call checks c
      = (⟨(Guarded.call (SharedCall.run checks) SharedCall.refused m.guarded c).1.obj,
          (Guarded.call (SharedCall.run checks) SharedCall.refused m.guarded c).1.poisoned⟩,
        (Guarded.call (SharedCall.run checks) SharedCall.refused m.guarded c).2) := by
  rw [guarded_call]
  rfl

/-- A call under a sound lock that returns. -/
theorem call_of_sound {m : SharedMailbox} (hm : m.poisoned = false) {c : SharedCall}
    {store : MailboxStore} {reply : SharedReply}
    (hrun : c.run checks m.store = .ok (store, reply)) :
    m.call checks c = (⟨store, false⟩, .ok reply) := by
  rw [call_eq_guarded, Guarded.call, if_neg (by simp [SharedMailbox.guarded, hm])]
  simp only [SharedMailbox.guarded, hrun]

/-- A call under a sound lock that panics. -/
theorem call_of_panic {m : SharedMailbox} (hm : m.poisoned = false) {c : SharedCall}
    {fault : Fault} (hrun : c.run checks m.store = .error fault) :
    m.call checks c = (⟨m.store, true⟩, .error fault) := by
  rw [call_eq_guarded, Guarded.call, if_neg (by simp [SharedMailbox.guarded, hm])]
  simp only [SharedMailbox.guarded, hrun]

/-- A call under a poisoned lock. -/
theorem call_of_poisoned {m : SharedMailbox} (hm : m.poisoned = true) (c : SharedCall) :
    m.call checks c = (m, .ok c.refused) := by
  rw [call_eq_guarded, Guarded.call, if_pos (by rw [SharedMailbox.guarded, hm])]
  rfl

/-- **What one call does to the store, and what its caller is told of it.** -/
theorem shared_call_spec (m : SharedMailbox) (c : SharedCall) (k : String) :
    (m.call checks c).1.store = Machine.final MailboxStore.call m.store (m.ops c)
      ∧ storedIn k (Machine.visits MailboxStore.call m.store (m.ops c))
        = (toldStored k (c, (m.call checks c).2)).toList
      ∧ ackedIn k (Machine.visits MailboxStore.call m.store (m.ops c))
        = toldRemoved k (c, (m.call checks c).2) := by
  cases hm : m.poisoned with
  | true =>
      rw [call_of_poisoned hm, SharedMailbox.ops, hm, if_pos rfl]
      cases c <;> exact ⟨rfl, rfl, rfl⟩
  | false =>
      rw [SharedMailbox.ops, hm, if_neg Bool.false_ne_true]
      cases c with
      | accept e now =>
          have hrun : (SharedCall.accept e now).run checks m.store
              = .ok ((m.store.accept e now).1, .accepted (m.store.accept e now).2) := by
            rw [SharedCall.run, Checked.accept_eq]
            rfl
          rw [call_of_sound hm hrun]
          refine ⟨rfl, ?_, rfl⟩
          show storedIn k ([] ++ [(m.store, .accept e now)]) = _
          rw [storedIn_concat, Visit.stored]
          cases hres : (m.store.accept e now).2 with
          | error err => simp [toldStored, storedIn]
          | ok accepted => cases accepted <;> simp [toldStored, storedIn]
      | ack k' c =>
          have hrun : (SharedCall.ack k' c).run checks m.store
              = .ok ((m.store.ack k' c).1, .acked (.ok (m.store.ack k' c).2)) := by
            rw [SharedCall.run, Checked.ack_eq]
            rfl
          rw [call_of_sound hm hrun]
          refine ⟨rfl, rfl, ?_⟩
          show ackedIn k ([] ++ [(m.store, .ack k' c)]) = _
          rw [ackedIn_concat]
          exact Nat.zero_add _
      | readPage k' since limit =>
          cases hpage : Checked.readPage checks m.store k' since limit with
          | ok page =>
              have hrun : (SharedCall.readPage k' since limit).run checks m.store
                  = .ok (m.store, .page (.ok page)) := by
                rw [SharedCall.run, hpage]
                rfl
              rw [call_of_sound hm hrun]
              exact ⟨rfl, rfl, rfl⟩
          | error fault =>
              have hrun : (SharedCall.readPage k' since limit).run checks m.store
                  = .error fault := by
                rw [SharedCall.run, hpage]
                rfl
              rw [call_of_panic hm hrun]
              exact ⟨rfl, rfl, rfl⟩
      | pendingCount k' =>
          rw [call_of_sound hm rfl]
          exact ⟨rfl, rfl, rfl⟩
      | toBytes =>
          rw [call_of_sound hm rfl]
          exact ⟨rfl, rfl, rfl⟩

/-! ## One call after another -/

/-- The calls of the store in a run of calls of the shared mailbox. -/
def sharedOps (checks : Bool) (m : SharedMailbox) (cs : List SharedCall) : List Op :=
  Machine.sent (SharedMailbox.call checks) SharedMailbox.ops m cs

theorem store_shared (m : SharedMailbox) (cs : List SharedCall) :
    (Machine.final (SharedMailbox.call checks) m cs).store
      = Machine.final MailboxStore.call m.store (sharedOps checks m cs) :=
  Machine.final_sent SharedMailbox.store (fun m c => (shared_call_spec m c "").1) m cs

/-- The callers are told what happens to the store. -/
theorem told_shared (m : SharedMailbox) (cs : List SharedCall) (k : String) :
    let told := cs.zip (Machine.outputs (SharedMailbox.call checks) m cs)
    storedIn k (Machine.visits MailboxStore.call m.store (sharedOps checks m cs))
        = told.filterMap (toldStored k)
      ∧ ackedIn k (Machine.visits MailboxStore.call m.store (sharedOps checks m cs))
        = (told.map (toldRemoved k)).sum := by
  induction cs generalizing m with
  | nil => exact ⟨rfl, rfl⟩
  | cons c cs ih =>
      have hcons : sharedOps checks m (c :: cs)
          = m.ops c ++ sharedOps checks (m.call checks c).1 cs := rfl
      obtain ⟨hstore, hstored, hremoved⟩ := @shared_call_spec _ checks m c k
      obtain ⟨ihstored, ihremoved⟩ := ih (m.call checks c).1
      rw [hcons, Machine.visits_append, ← hstore, storedIn_append, ackedIn_append, hstored,
        hremoved, ihstored, ihremoved, Machine.outputs, List.zip_cons_cons]
      dsimp only
      rw [List.map_cons, List.sum_cons, List.filterMap_cons]
      cases toldStored k (c, (m.call checks c).2) <;> exact ⟨rfl, rfl⟩

/-- Nothing is evicted before more was stored than fits. -/
theorem lt_length_stored_of_evicted {selfId : NodeId} {capacity : UInt64} {ops : List Op}
    {k : String} (h : evictedIn k (history selfId capacity ops) ≠ 0) :
    max capacity.toNat 1 < (storedIn k (history selfId capacity ops)).length := by
  induction ops using List.reverseRecOn with
  | nil => exact absurd rfl h
  | append_singleton ops op ih =>
      have hlen := (queue_after selfId capacity ops k).2
      have hcap := capacity_after selfId capacity ops
      rw [history_concat, evictedIn_concat] at h
      rw [history_concat, storedIn_concat, List.length_append]
      by_cases hbefore : evictedIn k (history selfId capacity ops) = 0
      · rcases mail_call (after selfId capacity ops) op k
          with ⟨e, now, -, -, hs, -, -, he⟩ | ⟨c, -, -, -, -, -, he⟩ | ⟨-, -, -, -, he⟩
        · -- the call that evicts stores, on a queue that is full
          have hover : ((after selfId capacity ops).mail k).overflow
              (after selfId capacity ops).capacity
                = ((after selfId capacity ops).queue k).length + 1 - max capacity.toNat 1 := by
            rw [hcap]
            rfl
          rw [hbefore, he, hover] at h
          rw [hs, Option.toList_some, List.length_singleton]
          omega
        · exact absurd (by rw [hbefore, he]) h
        · exact absurd (by rw [hbefore, he]) h
      · exact Nat.lt_of_lt_of_le (ih hbefore) (Nat.le_add_right _ _)

/-! ## Threads -/

section Threads

variable {κ τ : Type} [DecidableEq τ] (p : Program MailboxStore SharedCall κ Fault SharedReply)
  (store : MailboxStore) (events : List (τ × Act SharedCall))

/-- The store and the threads after some turns. -/
def threadsAfter : System MailboxStore SharedCall κ Fault SharedReply τ :=
  Machine.final (System.step p SharedCall.refused) (.start store) events

/-- The calls and the returns in these turns. -/
def threadsHistory : List (Mark SharedCall Fault SharedReply τ) :=
  (Machine.outputs (System.step p SharedCall.refused) (.start store) events).reduceOption

variable {p}

/-- The calls of threads come out as if made one by one. -/
theorem linearizes_threads (hp : p.Computes (SharedCall.run checks)) :
    ∃ es, Linearizes (SharedMailbox.call checks) (.new store) (threadsHistory p store events) es
      ∧ ((threadsAfter p store events).holder = none →
        (threadsAfter p store events).poisoned = false → (threadsAfter p store events).obj
          = (Machine.final (SharedMailbox.call checks) (.new store)
            ((es.filterMap Entry.taken).map Prod.fst)).store) := by
  obtain ⟨es, hlin, hinv⟩ := Lock.linearizable hp SharedCall.refused store events
  have hcall : ∀ g m c, g = SharedMailbox.guarded m →
      (Guarded.call (SharedCall.run checks) SharedCall.refused g c).2 = (m.call checks c).2
        ∧ (Guarded.call (SharedCall.run checks) SharedCall.refused g c).1
          = (m.call checks c).1.guarded := by
    intro g m c hg
    rw [hg, guarded_call]
    exact ⟨rfl, rfl⟩
  have hboth : ∀ cs, Machine.outputs (Guarded.call (SharedCall.run checks) SharedCall.refused)
        ⟨store, false⟩ cs = Machine.outputs (SharedMailbox.call checks) (.new store) cs
      ∧ Machine.final (Guarded.call (SharedCall.run checks) SharedCall.refused) ⟨store, false⟩ cs
        = (Machine.final (SharedMailbox.call checks) (.new store) cs).guarded := fun cs =>
    Machine.unwind (R := fun g m => g = SharedMailbox.guarded m) (I := fun _ => True)
      (fun g m c _ => hcall g m c) (t := .new store) rfl fun _ _ => trivial
  refine ⟨es, ⟨hlin.marks, hlin.threads, (hboth _).1.symm.trans hlin.results⟩, ?_⟩
  intro hfree hsound
  exact (hinv.obj hfree hsound).trans (congrArg Guarded.obj (hboth _).2)

omit [DecidableEq τ] in
/-- What the callers in a linearized history are told is what the calls one by one return. -/
theorem told_of_linearizes {es : List (Entry SharedCall Fault SharedReply τ)} {m : SharedMailbox}
    {marks : List (Mark SharedCall Fault SharedReply τ)}
    (h : Linearizes (SharedMailbox.call checks) m marks es) :
    ((es.filterMap Entry.taken).map Prod.fst).zip (Machine.outputs (SharedMailbox.call checks) m
      ((es.filterMap Entry.taken).map Prod.fst)) = es.filterMap Entry.taken := by
  rw [h.results, ← List.unzip_fst, ← List.unzip_snd, List.zip_unzip]

/--
**No update is lost among threads.** However threads take turns at a mailbox that was new, and
whatever steps its methods take, the calls linearize. And whenever the lock is free and
sound, what callers have been told adds up: a queue is what they stored, oldest first, without
as many as they removed and as were evicted. None is evicted before more is stored than
fits, and until then no two callers are told they stored the same message.
-/
theorem threads_conserve_mail (hp : p.Computes (SharedCall.run checks)) (selfId : NodeId)
    (capacity : UInt64) :
    ∃ es, Linearizes (SharedMailbox.call checks) (.new (.new selfId capacity))
        (threadsHistory p (.new selfId capacity) events) es
      ∧ ((threadsAfter p (.new selfId capacity) events).holder = none →
        (threadsAfter p (.new selfId capacity) events).poisoned = false →
        ∀ k, ∃ evicted,
          let queue := (threadsAfter p (.new selfId capacity) events).obj.queue k
          let stored := (es.filterMap Entry.taken).filterMap (toldStored k)
          let removed := ((es.filterMap Entry.taken).map (toldRemoved k)).sum
          queue = stored.drop (removed + evicted)
            ∧ stored.length = removed + evicted + queue.length
            ∧ queue.length ≤ max capacity.toNat 1
            ∧ (queue.map StoredEnvelope.messageId).Nodup
            ∧ (stored.length ≤ max capacity.toNat 1 → evicted = 0)
            ∧ (evicted = 0 → (stored.map StoredEnvelope.messageId).Nodup)) := by
  obtain ⟨es, hlin, hobj⟩ := linearizes_threads (.new selfId capacity) events hp
  refine ⟨es, hlin, ?_⟩
  intro hfree hsound k
  have htold := told_of_linearizes hlin
  obtain ⟨hstored, hremoved⟩ := @told_shared _ checks
    (SharedMailbox.new (.new selfId capacity)) ((es.filterMap Entry.taken).map Prod.fst) k
  rw [htold] at hstored hremoved
  have hstore := (hobj hfree hsound).trans (store_shared _ _)
  generalize sharedOps checks (.new (.new selfId capacity))
    ((es.filterMap Entry.taken).map Prod.fst) = ops at hstored hremoved hstore
  have hqueue := queue_after selfId capacity ops k
  refine ⟨evictedIn k (history selfId capacity ops), ?_⟩
  rw [hstore, ← hstored, ← hremoved]
  refine ⟨hqueue.1, hqueue.2, length_queue_le selfId capacity ops k,
    (kept_after selfId capacity ops k).sound.nodup, ?_, ?_⟩
  · intro hfits
    by_contra hevicted
    exact absurd (lt_length_stored_of_evicted hevicted) (Nat.not_lt.mpr hfits)
  · exact fun hnone => (nodup_stored hnone).1

end Threads

end Crypto

namespace Sample

/-- Two threads deliver `first` at once, and the later one is told that it is a duplicate. -/
def race : List (Bool × Act SharedCall) :=
  [(true, .call (.accept first 1)), (false, .call (.accept first 2)), (false, .acquire),
    (true, .acquire), (false, .work), (true, .acquire), (true, .work), (true, .leave),
    (false, .leave)]

end Sample

/-- The theorem for two threads that deliver one envelope, with sections of one step. -/
theorem threads_conserve_mail_sample :
    let p := Program.whole (@SharedCall.run Sample.crypto true)
    ∃ es, @Linearizes _ _ _ Bool _ (@SharedMailbox.call Sample.crypto true)
        (.new (.new Sample.mailbox 1)) (threadsHistory p (.new Sample.mailbox 1) Sample.race) es
      ∧ ∃ evicted, ((threadsAfter p (.new Sample.mailbox 1) Sample.race).obj.queue
          Sample.recipient.hex).length
        = ((es.filterMap Entry.taken).filterMap (toldStored Sample.recipient.hex)).length
          - ((es.filterMap Entry.taken).map (toldRemoved Sample.recipient.hex)).sum - evicted := by
  intro p
  have hfree : (threadsAfter p (.new Sample.mailbox 1) Sample.race).holder = none := by
    decide +kernel
  have hsound : (threadsAfter p (.new Sample.mailbox 1) Sample.race).poisoned = false := by
    decide +kernel
  obtain ⟨es, hlin, hqueues⟩ := @threads_conserve_mail Sample.crypto true _ _ _ p Sample.race
    (Program.computes_whole _) Sample.mailbox 1
  obtain ⟨evicted, -, hlength, -⟩ := hqueues hfree hsound Sample.recipient.hex
  exact ⟨es, hlin, evicted, by omega⟩

end CeMail
