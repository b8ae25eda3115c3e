import CeMail.Model.Inbox
import CeMail.Proof.StoreRun

/-!
# The saved cursor

A run of `ce-mail inbox` saves the cursor it was given and may then ack that cursor. The
ack drains the queue in front of it, and the saved cursor, which still counts from where
the queue began before, now points into mail that has not come yet. The next run skips
that much.

Positions in the log of everything stored do not move. `mark` is the position up to
which a run has drained; a client that has not just acked resumes exactly there.
-/

namespace CeMail

section Crypto

variable [Crypto]

/-! ## Runs of the client -/

/-- The calls of the mailbox one step of the client stands for. -/
def Client.calls (k : String) (c : Client) : ClientAct → List Op
  | .deliver e now => [.accept e now]
  | .inbox _ =>
      match c.phase with
      | .idle => [.readFrom k c.savedCursor]
      | _ => []
  | .next =>
      match c.phase with
      | .cursorSaved r => if r.acks then [.ack k r.cursor] else []
      | _ => []

/-- A client that never ran, at an empty mailbox. -/
def Client.start (selfId : NodeId) (capacity : UInt64) : Client :=
  ⟨.new selfId capacity, 0, [], .idle⟩

variable (selfId : NodeId) (capacity : UInt64) (k : String)

/-- Where the client stands after some steps. -/
def clientAfter (acts : List ClientAct) : Client :=
  Machine.final (Client.step k) (.start selfId capacity) acts

/-- The steps, each with the state it met. -/
def clientHistory (acts : List ClientAct) : List (Client × ClientAct) :=
  Machine.visits (Client.step k) (.start selfId capacity) acts

/-- Everything the client printed. -/
def shown (acts : List ClientAct) : List Envelope :=
  (Machine.outputs (Client.step k) (.start selfId capacity) acts).flatten

/-- The calls the mailbox got. -/
def clientCalls (acts : List ClientAct) : List Op :=
  Machine.sent (Client.step k) (Client.calls k) (.start selfId capacity) acts

/-- The window of the mailbox under the key the client drains. -/
abbrev clientWindow (acts : List ClientAct) : Window StoredEnvelope :=
  window selfId capacity (clientCalls selfId capacity k acts) k

/-- The runs that came to their end, in order. -/
def finished (vs : List (Client × ClientAct)) : List InboxRun :=
  vs.filterMap fun v => match v.1.phase, v.2 with
    | .cursorSaved r, .next => some r
    | _, _ => none

/-- The last run that came to its end acked. -/
def lastAcked (vs : List (Client × ClientAct)) : Bool := (finished vs).getLast?.any InboxRun.acks

/-- A whole run of the command: it starts after `before` and ends with the last of `during`. -/
structure IsRun (before : List ClientAct) (ack : Bool) (during : List ClientAct) : Prop where
  starts : (clientAfter selfId capacity k before).phase = .idle
  ends : (clientAfter selfId capacity k (before ++ .inbox ack :: during)).phase = .idle
  runs : ∀ d, d <+: during → d ≠ during →
    (clientAfter selfId capacity k (before ++ .inbox ack :: d)).phase ≠ .idle

/-- After every run, all that was stored before it has been shown. -/
def ShowsAll (acts : List ClientAct) : Prop :=
  ∀ before ack during, before ++ .inbox ack :: during <+: acts →
    IsRun selfId capacity k before ack during →
    ∀ x ∈ (clientWindow selfId capacity k before).log,
      x.envelope ∈ shown selfId capacity k (before ++ .inbox ack :: during)

/-- No run starts with mail in the queue when the run before it acked. -/
def StartsClean (acts : List ClientAct) : Prop :=
  ∀ before ack during, before ++ .inbox ack :: during <+: acts →
    IsRun selfId capacity k before ack during →
    (clientAfter selfId capacity k before).store.queue k = []
      ∨ lastAcked (clientHistory selfId capacity k before) = false

variable {selfId capacity k}

/-- The mailbox of a client is one that got its calls. -/
theorem store_clientAfter (acts : List ClientAct) :
    (clientAfter selfId capacity k acts).store
      = after selfId capacity (clientCalls selfId capacity k acts) := by
  refine Machine.final_sent Client.store ?_ _ acts
  intro c act
  cases act with
  | deliver e now => rfl
  | inbox ack => cases hp : c.phase <;> simp only [Client.step, Client.calls, hp] <;> rfl
  | next =>
      cases hp : c.phase with
      | cursorSaved r =>
          simp only [Client.step, Client.calls, hp]
          split <;> rfl
      | _ => simp only [Client.step, Client.calls, hp]; rfl

theorem clientAfter_concat (acts : List ClientAct) (act : ClientAct) :
    clientAfter selfId capacity k (acts ++ [act])
      = (Client.step k (clientAfter selfId capacity k acts) act).1 :=
  Machine.final_concat acts act

theorem clientCalls_concat (acts : List ClientAct) (act : ClientAct) :
    clientCalls selfId capacity k (acts ++ [act])
      = clientCalls selfId capacity k acts
          ++ Client.calls k (clientAfter selfId capacity k acts) act :=
  Machine.sent_concat acts act

theorem shown_concat (acts : List ClientAct) (act : ClientAct) :
    shown selfId capacity k (acts ++ [act])
      = shown selfId capacity k acts
          ++ (Client.step k (clientAfter selfId capacity k acts) act).2 := by
  rw [shown, Machine.outputs_append, List.flatten_append]
  exact congrArg _ (List.append_nil _)

/-- The step that ends a run decides what the last run did; no other step does. -/
theorem lastAcked_concat (acts : List ClientAct) (act : ClientAct) :
    lastAcked (clientHistory selfId capacity k (acts ++ [act]))
      = match (clientAfter selfId capacity k acts).phase, act with
        | .cursorSaved r, .next => r.acks
        | _, _ => lastAcked (clientHistory selfId capacity k acts) := by
  rw [clientHistory, Machine.visits_concat, lastAcked, finished, List.filterMap_append]
  show (List.getLast? (_ ++ List.filterMap _
    [(clientAfter selfId capacity k acts, act)])).any InboxRun.acks = _
  cases hp : (clientAfter selfId capacity k acts).phase with
  | cursorSaved r =>
      cases act with
      | next => simp [hp]
      | deliver e now => simp [hp, lastAcked, finished, clientHistory]
      | inbox ack => simp [hp, lastAcked, finished, clientHistory]
  | _ => simp [hp, lastAcked, finished, clientHistory]

theorem lastAcked_keep (acts : List ClientAct) (act : ClientAct)
    (h : ∀ r, (clientAfter selfId capacity k acts).phase = .cursorSaved r → act ≠ .next) :
    lastAcked (clientHistory selfId capacity k (acts ++ [act]))
      = lastAcked (clientHistory selfId capacity k acts) := by
  rw [lastAcked_concat]
  split
  · rename_i r hp
    exact absurd rfl (h r hp)
  · rfl

/-! ## What is on the screen or on its way to it -/

/-- What was printed, and what was drained to be printed. -/
def displayed (selfId : NodeId) (capacity : UInt64) (k : String) (acts : List ClientAct) :
    List Envelope :=
  shown selfId capacity k acts ++ (clientAfter selfId capacity k acts).phase.unprinted

theorem displayed_of_idle {acts : List ClientAct}
    (h : (clientAfter selfId capacity k acts).phase = .idle) :
    displayed selfId capacity k acts = shown selfId capacity k acts := by
  rw [displayed, h]
  exact List.append_nil _

/-- The step starts a run. -/
def Starts (selfId : NodeId) (capacity : UInt64) (k : String) (acts : List ClientAct)
    (act : ClientAct) : Prop :=
  ∃ ack, act = .inbox ack ∧ (clientAfter selfId capacity k acts).phase = .idle

/-- Only a step that starts a run changes it. -/
theorem displayed_concat {acts : List ClientAct} {act : ClientAct}
    (h : ¬Starts selfId capacity k acts act) :
    displayed selfId capacity k (acts ++ [act]) = displayed selfId capacity k acts := by
  rw [displayed, displayed, shown_concat, clientAfter_concat]
  cases act with
  | deliver e now => simp [Client.step]
  | inbox ack =>
      cases hp : (clientAfter selfId capacity k acts).phase with
      | idle => exact absurd ⟨ack, rfl, hp⟩ h
      | _ => simp [Client.step, hp]
  | next =>
      cases hp : (clientAfter selfId capacity k acts).phase with
      | cursorSaved r => cases hacks : r.acks <;> simp [Client.step, hp, hacks, Phase.unprinted]
      | _ => simp [Client.step, hp, Phase.unprinted]

/-- A drain gets the contents from the cursor on, since all that is stored verifies. -/
theorem drainInbox_eq (selfId : NodeId) (capacity : UInt64) (k : String) (acts : List ClientAct)
    (ack : Bool) (start : UInt64) :
    (drainInbox (clientAfter selfId capacity k acts).store k ack start).msgs
        = ((clientWindow selfId capacity k acts).contents.drop start.toNat).map
            StoredEnvelope.envelope
      ∧ (drainInbox (clientAfter selfId capacity k acts).store k ack start).cursor.toNat
        = (clientWindow selfId capacity k acts).contents.length := by
  have haddr := (kept_after selfId capacity (clientCalls selfId capacity k acts) k).addressed
  simp only [drainInbox, MailboxStore.readFrom_eq, store_clientAfter]
  refine ⟨?_, ?_⟩
  · rw [composeMessages, queue_eq_contents, List.filter_eq_self]
    intro e he
    obtain ⟨x, hx, rfl⟩ := List.mem_map.mp he
    rw [← queue_eq_contents] at hx
    exact decide_eq_true (haddr x (List.mem_of_mem_drop hx)).1
  · rw [toNat_length_queue, queue_eq_contents]

/-- A run that starts adds the contents from the saved cursor on. -/
theorem displayed_start {acts : List ClientAct} (ack : Bool)
    (h : (clientAfter selfId capacity k acts).phase = .idle) :
    displayed selfId capacity k (acts ++ [.inbox ack])
      = displayed selfId capacity k acts
          ++ ((clientWindow selfId capacity k acts).contents.drop
              (clientAfter selfId capacity k acts).savedCursor.toNat).map
                StoredEnvelope.envelope := by
  rw [displayed_of_idle h, displayed, shown_concat, clientAfter_concat, ← (drainInbox_eq selfId
    capacity k acts ack (clientAfter selfId capacity k acts).savedCursor).1]
  simp [Client.step, h, Phase.unprinted]

/-- A run displays what its start drained. -/
theorem displayed_run {before during : List ClientAct} {ack : Bool}
    (h : IsRun selfId capacity k before ack during) :
    displayed selfId capacity k (before ++ .inbox ack :: during)
      = displayed selfId capacity k (before ++ [.inbox ack]) := by
  suffices hpre : ∀ d, d <+: during → displayed selfId capacity k (before ++ .inbox ack :: d)
      = displayed selfId capacity k (before ++ [.inbox ack]) from hpre during List.prefix_rfl
  intro d
  induction d using List.reverseRecOn with
  | nil => exact fun _ => rfl
  | append_singleton d act ih =>
      intro hd
      -- the run has not ended before this step, so the step starts no other
      have hd' : d <+: during := (List.prefix_append d [act]).trans hd
      have hne : d ≠ during := by
        intro heq
        subst heq
        have hlen := hd.length_le
        rw [List.length_append, List.length_singleton] at hlen
        omega
      have hsplit : before ++ .inbox ack :: (d ++ [act])
          = (before ++ .inbox ack :: d) ++ [act] := by simp
      rw [hsplit, displayed_concat, ih hd']
      intro hstarts
      rcases hstarts with ⟨_, -, hidle⟩
      exact h.runs d hd' hne hidle

/-! ## The window below -/

/-- A step that sends no call, or a read, leaves the window alone. -/
theorem clientWindow_of_calls {acts : List ClientAct} {act : ClientAct}
    (h : Client.calls k (clientAfter selfId capacity k acts) act = []
      ∨ ∃ since, Client.calls k (clientAfter selfId capacity k acts) act = [.readFrom k since]) :
    clientWindow selfId capacity k (acts ++ [act]) = clientWindow selfId capacity k acts := by
  rw [clientWindow, clientCalls_concat]
  rcases h with h | ⟨since, h⟩
  · rw [h, List.append_nil]
  · rw [h]
    rcases window_concat selfId capacity (clientCalls selfId capacity k acts) (.readFrom k since) k
      with ⟨e, now, hst, -⟩ | ⟨c, hop, -⟩ | ⟨-, hw⟩
    · cases hst.1
    · cases hop
    · exact hw

/-- A delivery that evicts nothing moves no base. -/
theorem base_deliver {acts : List ClientAct} {e : Envelope} {now : UInt64}
    (hno : evictedIn k (history selfId capacity
      (clientCalls selfId capacity k (acts ++ [.deliver e now]))) = 0) :
    (clientWindow selfId capacity k (acts ++ [.deliver e now])).base
      = (clientWindow selfId capacity k acts).base := by
  have hcalls : clientCalls selfId capacity k (acts ++ [.deliver e now])
      = clientCalls selfId capacity k acts ++ [.accept e now] := clientCalls_concat acts _
  rw [hcalls, history_concat, evictedIn_concat] at hno
  have hzero := (Nat.add_eq_zero_iff.mp hno).2
  rw [clientWindow, hcalls]
  rcases window_concat selfId capacity (clientCalls selfId capacity k acts) (.accept e now) k
    with ⟨e', now', -, hle, hw⟩ | ⟨c, hop, -⟩ | ⟨-, hw⟩
  · rw [hw, Window.base_push_advance _ _ hle, hzero, Nat.add_zero]
  · cases hop
  · rw [hw]

/-- Further steps only append to the log. -/
theorem clientLog_extends (acts more : List ClientAct) :
    (clientWindow selfId capacity k acts).log
      <+: (clientWindow selfId capacity k (acts ++ more)).log := by
  have hsent : clientCalls selfId capacity k (acts ++ more)
      = clientCalls selfId capacity k acts ++ _ := Machine.sent_append acts more
  rw [clientWindow, clientWindow, hsent]
  exact log_extends selfId capacity _ _ k

theorem clientLog_getElem? {acts : List ClientAct} {p : Nat}
    (hp : p < (clientWindow selfId capacity k acts).log.length) (more : List ClientAct) :
    (clientWindow selfId capacity k (acts ++ more)).log[p]?
      = (clientWindow selfId capacity k acts).log[p]? := by
  obtain ⟨later, hlog⟩ : (clientWindow selfId capacity k acts).log <+: _ :=
    clientLog_extends acts more
  rw [← hlog, List.getElem?_append_left hp]

/-- What evicts nothing evicts nothing at its start. -/
theorem noEviction_start {acts more : List ClientAct}
    (hno : evictedIn k (history selfId capacity
      (clientCalls selfId capacity k (acts ++ more))) = 0) :
    evictedIn k (history selfId capacity (clientCalls selfId capacity k acts)) = 0 := by
  have hsent : clientCalls selfId capacity k (acts ++ more)
      = clientCalls selfId capacity k acts ++ _ := Machine.sent_append acts more
  rw [hsent, history, Machine.visits_append, evictedIn_append] at hno
  exact (Nat.add_eq_zero_iff.mp hno).1

/-! ## Where the client stands -/

/--
How the cursor of a client relates to the position up to which it has drained: a running
client has it on the mark, an idle one has the saved cursor on the mark, except that
right after an ack the queue begins at the mark and the saved cursor points beyond.
-/
def Placed (base : Nat) (c : Client) (acked : Bool) (mark : Nat) : Prop :=
  match c.phase with
  | .idle => if acked then base = mark ∧ c.savedCursor ≠ 0 else base + c.savedCursor.toNat = mark
  | .drained r | .printed r | .snapshotted r => base + r.cursor.toNat = mark
  | .cursorSaved r => base + r.cursor.toNat = mark ∧ c.savedCursor = r.cursor

/-- Every run that started met an empty queue, or the run before it had not acked. -/
def AllClean (selfId : NodeId) (capacity : UInt64) (k : String) (acts : List ClientAct) : Prop :=
  ∀ before act rest, acts = before ++ act :: rest → Starts selfId capacity k before act →
    (clientAfter selfId capacity k before).store.queue k = []
      ∨ lastAcked (clientHistory selfId capacity k before) = false

/-- What holds of a client with the mark at some position, as long as nothing is evicted. -/
structure Stands (selfId : NodeId) (capacity : UInt64) (k : String) (acts : List ClientAct)
    (mark : Nat) : Prop where
  base_le : (clientWindow selfId capacity k acts).base ≤ mark
  mark_le : mark ≤ (clientWindow selfId capacity k acts).log.length
  placed : Placed (clientWindow selfId capacity k acts).base (clientAfter selfId capacity k acts)
    (lastAcked (clientHistory selfId capacity k acts)) mark
  /-- Every run that started has drained what there was. -/
  reaches : ∀ before act rest, acts = before ++ act :: rest → Starts selfId capacity k before act →
    (clientWindow selfId capacity k before).log.length ≤ mark
  /-- Nothing beyond the mark was displayed. -/
  old : ∀ e ∈ displayed selfId capacity k acts,
    ∃ p x, p < mark ∧ (clientWindow selfId capacity k acts).log[p]? = some x ∧ x.envelope = e
  /-- After clean starts, everything up to the mark was. -/
  caught : AllClean selfId capacity k acts → ∀ p x, p < mark →
    (clientWindow selfId capacity k acts).log[p]? = some x →
    x.envelope ∈ displayed selfId capacity k acts

theorem stands_init : Stands selfId capacity k [] 0 where
  base_le := Nat.le_refl 0
  mark_le := Nat.le_refl 0
  placed := rfl
  reaches _ _ _ hcut := by simp at hcut
  old _ h := by cases h
  caught _ _ _ h := by cases h

/-- A step that starts no run leaves the mark where it is. -/
theorem Stands.carry {acts : List ClientAct} {act : ClientAct} {mark : Nat}
    (h : Stands selfId capacity k acts mark) (hstart : ¬Starts selfId capacity k acts act)
    (hbase : (clientWindow selfId capacity k (acts ++ [act])).base ≤ mark)
    (hplaced : Placed (clientWindow selfId capacity k (acts ++ [act])).base
      (clientAfter selfId capacity k (acts ++ [act]))
      (lastAcked (clientHistory selfId capacity k (acts ++ [act]))) mark) :
    Stands selfId capacity k (acts ++ [act]) mark := by
  obtain ⟨-, hle, -, hreach, hold, hcaught⟩ := h
  have hget : ∀ p, p < mark → (clientWindow selfId capacity k (acts ++ [act])).log[p]?
      = (clientWindow selfId capacity k acts).log[p]? :=
    fun p hp => clientLog_getElem? (Nat.lt_of_lt_of_le hp hle) [act]
  have hdisplayed := displayed_concat hstart
  refine ⟨hbase, hle.trans (clientLog_extends acts [act]).length_le, hplaced, ?_, ?_, ?_⟩
  · exact Machine.forall_cut_concat.mpr ⟨hreach, fun hs => absurd hs hstart⟩
  · rw [hdisplayed]
    intro e he
    obtain ⟨p, x, hp, hx, rfl⟩ := hold e he
    exact ⟨p, x, hp, (hget p hp).trans hx, rfl⟩
  · intro hclean p x hp hx
    rw [hdisplayed]
    exact hcaught (Machine.forall_cut_start hclean) p x hp ((hget p hp).symm.trans hx)

/-! ### The steps -/

/-- **A run that starts moves the mark to the end of the log.** -/
theorem Stands.start {acts : List ClientAct} {mark : Nat} (h : Stands selfId capacity k acts mark)
    (ack : Bool) (hidle : (clientAfter selfId capacity k acts).phase = .idle) :
    Stands selfId capacity k (acts ++ [.inbox ack])
      (clientWindow selfId capacity k acts).log.length := by
  obtain ⟨hbase, hle, hplaced, hreach, hold, hcaught⟩ := h
  have hcalls : Client.calls k (clientAfter selfId capacity k acts) (.inbox ack)
      = [.readFrom k (clientAfter selfId capacity k acts).savedCursor] := by
    simp only [Client.calls, hidle]
  have hwindow : clientWindow selfId capacity k (acts ++ [.inbox ack])
      = clientWindow selfId capacity k acts := clientWindow_of_calls (Or.inr ⟨_, hcalls⟩)
  have hcursor := (drainInbox_eq selfId capacity k acts ack
    (clientAfter selfId capacity k acts).savedCursor).2
  have hlen := (clientWindow selfId capacity k acts).length_contents
  have hdisplayed := displayed_start ack hidle
  refine ⟨?_, ?_, ?_, ?_, ?_, ?_⟩
  · rw [hwindow]
    omega
  · rw [hwindow]
  · rw [hwindow, clientAfter_concat]
    simp only [Client.step, hidle, Placed]
    rw [hcursor]
    omega
  · refine Machine.forall_cut_concat.mpr ⟨?_, ?_⟩
    · intro before act rest hcut hs
      exact (hreach before act rest hcut hs).trans hle
    · exact fun _ => Nat.le_refl _
  · rw [hwindow, hdisplayed]
    intro e he
    rcases List.mem_append.mp he with he | he
    · obtain ⟨p, x, hp, hx⟩ := hold e he
      exact ⟨p, x, Nat.lt_of_lt_of_le hp hle, hx⟩
    · obtain ⟨x, hx, rfl⟩ := List.mem_map.mp he
      obtain ⟨p, -, hget⟩ := Window.mem_drop_contents.mp hx
      exact ⟨p, x, (List.getElem?_eq_some_iff.mp hget).1, hget, rfl⟩
  · intro hclean p x hp hx
    obtain ⟨hclean, hlast⟩ := Machine.forall_cut_concat.mp hclean
    rw [hwindow] at hx
    rw [hdisplayed]
    -- up to the old mark it was displayed before, beyond it this run drains it
    rcases Nat.lt_or_ge p mark with hlt | hge
    · exact List.mem_append_left _ (hcaught hclean p x hlt hx)
    · refine List.mem_append_right _
        (List.mem_map_of_mem (Window.mem_drop_contents.mpr ⟨p, ?_, hx⟩))
      rcases hlast ⟨ack, rfl, hidle⟩ with hempty | hnot
      · -- an empty queue ends where it begins, so there is nothing beyond the mark
        rw [store_clientAfter, queue_eq_contents] at hempty
        rw [hempty, List.length_nil] at hlen
        omega
      · rw [Placed, hidle, hnot] at hplaced
        have hplaced : (clientWindow selfId capacity k acts).base
          + (clientAfter selfId capacity k acts).savedCursor.toNat = mark := hplaced
        omega

/-- A step that sends no call and starts no run moves neither window nor mark. -/
theorem Stands.still {acts : List ClientAct} {act : ClientAct} {mark : Nat}
    (h : Stands selfId capacity k acts mark) (hstart : ¬Starts selfId capacity k acts act)
    (hcalls : Client.calls k (clientAfter selfId capacity k acts) act = [])
    (hplaced : Placed (clientWindow selfId capacity k acts).base
      (Client.step k (clientAfter selfId capacity k acts) act).1
      (lastAcked (clientHistory selfId capacity k (acts ++ [act]))) mark) :
    Stands selfId capacity k (acts ++ [act]) mark := by
  have hwindow : clientWindow selfId capacity k (acts ++ [act])
      = clientWindow selfId capacity k acts := clientWindow_of_calls (Or.inl hcalls)
  refine h.carry hstart ?_ ?_
  · rw [hwindow]
    exact h.base_le
  · rw [hwindow, clientAfter_concat]
    exact hplaced

/-- The step after the cursor is saved: with `--ack` the queue is freed up to the mark. -/
theorem Stands.finish {acts : List ClientAct} {mark : Nat} {r : InboxRun}
    (h : Stands selfId capacity k acts mark)
    (hp : (clientAfter selfId capacity k acts).phase = .cursorSaved r) :
    Stands selfId capacity k (acts ++ [.next]) mark := by
  have hplaced := h.placed
  rw [Placed, hp] at hplaced
  obtain ⟨hcursor, hsaved⟩ := hplaced
  have hstart : ¬Starts selfId capacity k acts .next := by
    intro hstarts
    rcases hstarts with ⟨_, hact, -⟩
    cases hact
  have hacked : lastAcked (clientHistory selfId capacity k (acts ++ [.next])) = r.acks := by
    rw [lastAcked_concat, hp]
  cases hacks : r.acks with
  | false =>
      refine h.still hstart (by simp [Client.calls, hp, hacks]) ?_
      rw [hacked, hacks]
      simp [Client.step, hp, hacks, Placed, hsaved, hcursor]
  | true =>
      have hcalls : clientCalls selfId capacity k (acts ++ [.next])
          = clientCalls selfId capacity k acts ++ [.ack k r.cursor] := by
        rw [clientCalls_concat]
        simp [Client.calls, hp, hacks]
      have hwindow : clientWindow selfId capacity k (acts ++ [.next])
          = (clientWindow selfId capacity k acts).advance r.cursor.toNat := by
        rw [clientWindow, hcalls]
        exact window_ack selfId capacity _ k r.cursor
      have hbase : (clientWindow selfId capacity k (acts ++ [.next])).base = mark := by
        have hlen := (clientWindow selfId capacity k acts).length_contents
        have hle := h.mark_le
        rw [hwindow, Window.base_advance]
        omega
      -- the run acked because its cursor was beyond where it started, so beyond 0
      have hne : r.cursor ≠ 0 := by
        obtain ⟨-, hlt⟩ := Bool.and_eq_true_iff.mp hacks
        intro h0
        rw [h0] at hlt
        exact absurd (of_decide_eq_true hlt) (UInt64.not_lt_zero)
      refine h.carry hstart (Nat.le_of_eq hbase) ?_
      rw [hbase, clientAfter_concat, hacked, hacks]
      simp [Client.step, hp, hacks, Placed, hsaved, hne]

/-- **One step of the client**, when it evicts nothing. -/
theorem stands_step {acts : List ClientAct} {mark : Nat} (h : Stands selfId capacity k acts mark)
    (act : ClientAct)
    (hno : evictedIn k (history selfId capacity
      (clientCalls selfId capacity k (acts ++ [act]))) = 0) :
    ∃ mark', Stands selfId capacity k (acts ++ [act]) mark' := by
  have hplaced := h.placed
  cases act with
  | deliver e now =>
      refine ⟨mark, h.carry ?_ ?_ ?_⟩
      · intro hstarts
        rcases hstarts with ⟨_, hact, -⟩
        cases hact
      · rw [base_deliver hno]
        exact h.base_le
      · rw [base_deliver hno, clientAfter_concat,
          lastAcked_keep acts (.deliver e now) fun _ _ hp => by cases hp]
        exact hplaced
  | inbox ack =>
      cases hp : (clientAfter selfId capacity k acts).phase with
      | idle => exact ⟨_, h.start ack hp⟩
      | _ =>
          refine ⟨mark, h.still ?_ (by simp only [Client.calls, hp]) ?_⟩
          · intro hstarts
            rcases hstarts with ⟨_, -, hidle⟩
            cases hp.symm.trans hidle
          · rw [lastAcked_keep acts (.inbox ack) fun _ _ hp => by cases hp]
            simp only [Client.step, hp]
            exact hplaced
  | next =>
      cases hp : (clientAfter selfId capacity k acts).phase with
      | cursorSaved r => exact ⟨mark, h.finish hp⟩
      | _ =>
          refine ⟨mark, h.still ?_ (by simp only [Client.calls, hp]) ?_⟩
          · intro hstarts
            rcases hstarts with ⟨_, hact, -⟩
            cases hact
          · rw [lastAcked_keep acts .next fun r hr => by cases hp.symm.trans hr]
            rw [Placed, hp] at hplaced
            simp only [Client.step, hp, Placed]
            first | exact hplaced | exact ⟨hplaced, trivial⟩

/-- **Holds of every run without eviction.** -/
theorem stands_after {acts : List ClientAct}
    (hno : evictedIn k (history selfId capacity (clientCalls selfId capacity k acts)) = 0) :
    ∃ mark, Stands selfId capacity k acts mark := by
  induction acts using List.reverseRecOn with
  | nil => exact ⟨0, stands_init⟩
  | append_singleton acts act ih =>
      obtain ⟨mark, h⟩ := ih (noEviction_start hno)
      exact stands_step h act hno

/-! ## What the runs show -/

/-- While nothing is evicted an envelope has one position in the log. -/
theorem position_unique {acts : List ClientAct} {p q : Nat} {x y : StoredEnvelope}
    (hno : evictedIn k (history selfId capacity (clientCalls selfId capacity k acts)) = 0)
    (hp : (clientWindow selfId capacity k acts).log[p]? = some x)
    (hq : (clientWindow selfId capacity k acts).log[q]? = some y)
    (hxy : x.envelope = y.envelope) : p = q := by
  refine Window.position_eq_of_nodup (f := StoredEnvelope.messageId) (nodup_stored hno).1 hp hq ?_
  exact congrArg Envelope.messageId hxy

/-- Every run that starts in a run of the client that has come to rest comes to its end. -/
theorem exists_isRun {acts before rest : List ClientAct} {ack : Bool}
    (hcut : acts = before ++ .inbox ack :: rest)
    (hstart : (clientAfter selfId capacity k before).phase = .idle)
    (hend : (clientAfter selfId capacity k acts).phase = .idle) :
    ∃ during, during <+: rest ∧ IsRun selfId capacity k before ack during := by
  rw [hcut] at hend
  obtain ⟨during, hpre, hidle, hshort⟩ := Machine.exists_shortest_prefix
    (P := fun d => (clientAfter selfId capacity k (before ++ .inbox ack :: d)).phase = .idle) hend
  exact ⟨during, hpre, hstart, hidle, hshort⟩

/-- Clean starts of whole runs are clean starts, once the client has come to rest. -/
theorem StartsClean.allClean {acts before : List ClientAct}
    (h : StartsClean selfId capacity k acts) (hpre : before <+: acts)
    (hidle : (clientAfter selfId capacity k before).phase = .idle) :
    AllClean selfId capacity k before := by
  intro earlier act rest hcut hacks
  rcases hacks with ⟨ack, rfl, hstart⟩
  obtain ⟨during, hduring, hrun⟩ := exists_isRun hcut hstart hidle
  refine h earlier ack during (List.IsPrefix.trans ?_ hpre) hrun
  rw [hcut]
  exact (List.prefix_append_right_inj earlier).mpr ((List.prefix_cons_inj _).mpr hduring)

/-- A run that starts on mail, after one that acked, does not show the first of it. -/
theorem exists_not_shown {before during : List ClientAct} {ack : Bool}
    (hno : evictedIn k (history selfId capacity (clientCalls selfId capacity k before)) = 0)
    (hrun : IsRun selfId capacity k before ack during)
    (hmail : (clientAfter selfId capacity k before).store.queue k ≠ [])
    (hacked : lastAcked (clientHistory selfId capacity k before) = true) :
    ∃ x ∈ (clientWindow selfId capacity k before).log,
      x.envelope ∉ shown selfId capacity k (before ++ .inbox ack :: during) := by
  obtain ⟨mark, h⟩ := stands_after hno
  have hplaced := h.placed
  rw [Placed, hrun.starts, hacked] at hplaced
  obtain ⟨hbase, hsaved⟩ : (clientWindow selfId capacity k before).base = mark
    ∧ (clientAfter selfId capacity k before).savedCursor ≠ 0 := hplaced
  have hpos : 0 < (clientAfter selfId capacity k before).savedCursor.toNat :=
    Nat.pos_of_ne_zero fun h0 => hsaved (UInt64.toNat_inj.mp h0)
  rw [store_clientAfter, queue_eq_contents] at hmail
  have hlt : mark < (clientWindow selfId capacity k before).log.length := by
    have hlen := (clientWindow selfId capacity k before).length_contents
    have hsome : 0 < (clientWindow selfId capacity k before).contents.length :=
      List.length_pos_of_ne_nil hmail
    omega
  have hget := List.getElem?_eq_getElem hlt
  refine ⟨_, List.getElem_mem hlt, ?_⟩
  intro hshown
  rw [← displayed_of_idle hrun.ends, displayed_run hrun, displayed_start ack hrun.starts] at hshown
  -- displayed before the run: then it is older than the mark
  rcases List.mem_append.mp hshown with hmem | hmem
  · obtain ⟨p, y, hp, hy, heq⟩ := h.old _ hmem
    exact absurd (position_unique hno hy hget heq) (Nat.ne_of_lt hp)
  -- drained by the run: then it is at least the saved cursor beyond the mark
  · obtain ⟨y, hy, heq⟩ := List.mem_map.mp hmem
    obtain ⟨p, hp, hy⟩ := Window.mem_drop_contents.mp hy
    have := position_unique hno hy hget heq
    omega

/--
**No message is skipped exactly when every run starts clean**, as long as nothing is
evicted. A run after one that acked skips as much mail as that one acked.
-/
theorem showsAll_iff_startsClean (selfId : NodeId) (capacity : UInt64) (k : String)
    (acts : List ClientAct)
    (hno : evictedIn k (history selfId capacity (clientCalls selfId capacity k acts)) = 0) :
    ShowsAll selfId capacity k acts ↔ StartsClean selfId capacity k acts := by
  refine ⟨?_, ?_⟩
  · intro h before ack during hpre hrun
    obtain ⟨later, rfl⟩ := hpre
    rw [List.append_assoc] at hno
    by_contra hdirty
    obtain ⟨hmail, hacked⟩ := not_or.mp hdirty
    obtain ⟨x, hx, hmiss⟩ := exists_not_shown (noEviction_start hno) hrun hmail
      (Bool.not_eq_false _ ▸ hacked)
    exact hmiss (h before ack during (List.prefix_append _ _) hrun x hx)
  · intro h before ack during hpre hrun x hx
    have hclean := h.allClean hpre hrun.ends
    obtain ⟨later, rfl⟩ := hpre
    obtain ⟨mark, hstands⟩ := stands_after (noEviction_start hno)
    obtain ⟨p, hget⟩ := List.mem_iff_getElem?.mp hx
    have hlt := (List.getElem?_eq_some_iff.mp hget).1
    have hreach := hstands.reaches before (.inbox ack) during rfl ⟨ack, rfl, hrun.starts⟩
    rw [← displayed_of_idle hrun.ends]
    refine hstands.caught hclean p x (Nat.lt_of_lt_of_le hlt hreach) ?_
    rw [clientLog_getElem? hlt]
    exact hget

end Crypto

namespace Sample

/-- Two whole runs of the command: one acks the first envelope, and one follows the second. -/
def ackedThenMore : List ClientAct :=
  [.deliver first 1, .inbox true, .next, .next, .next, .next, .deliver second 2, .inbox false,
    .next, .next, .next, .next]

end Sample

/-- The theorem at a mailbox with room for both envelopes. -/
theorem showsAll_iff_startsClean_sample :
    @ShowsAll Sample.crypto Sample.mailbox 2 Sample.recipient.hex Sample.ackedThenMore
      ↔ @StartsClean Sample.crypto Sample.mailbox 2 Sample.recipient.hex Sample.ackedThenMore :=
  @showsAll_iff_startsClean Sample.crypto Sample.mailbox 2 Sample.recipient.hex
    Sample.ackedThenMore (by decide +kernel)

/-- The second envelope is in the mailbox before the second run and is not shown by it. -/
theorem inbox_skips_after_ack :
    ¬@ShowsAll Sample.crypto Sample.mailbox 2 Sample.recipient.hex Sample.ackedThenMore := by
  intro h
  have hrun : @IsRun Sample.crypto Sample.mailbox 2 Sample.recipient.hex
      (Sample.ackedThenMore.take 7) false (Sample.ackedThenMore.drop 8) := by
    refine @IsRun.mk Sample.crypto _ _ _ _ _ _ (by decide +kernel) (by decide +kernel) ?_
    intro d hd
    rw [← List.mem_inits] at hd
    revert d
    decide +kernel
  have hshown := h _ false _ List.prefix_rfl hrun ⟨Sample.second, 2⟩ (by decide +kernel)
  revert hshown
  decide +kernel

end CeMail
