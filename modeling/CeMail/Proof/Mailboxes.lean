import CeMail.Proof.Command

/-!
# Several mailboxes, one cursor

A cursor is a place in the queue of one mailbox, and the command keeps it in one file,
whichever mailbox it drained. A run that starts at the cursor of another mailbox starts
behind what nobody has seen where that mailbox held more, and shows things again where it
held less. And a run prints what it drained line by line, up to the first sender that cannot
be printed, where it panics.

At each mailbox what was shown is what the last run there found, as long as no run has
started behind it or panicked. The commands may run side by side at different mailboxes.
-/

namespace CeMail

section Crypto

variable [Crypto]

/-! ## One mailbox -/

/-- A run without `--ack` and `--since`, or a delivery. -/
def DeskAct.Reads : DeskAct → Prop
  | .inbox ack since _ => ack = false ∧ since = none
  | .crash => False
  | _ => True

/-- How much the last run found in the queue, when it was `n` before the step. -/
def Desk.found (k : String) (d : Desk) (n : Nat) : DeskAct → Nat
  | .inbox _ _ _ =>
      match d.stage with
      | .idle => (d.store.queue k).length
      | _ => n
  | _ => n

/-- How many envelopes a step evicts. -/
def Desk.evicts (k : String) (d : Desk) : DeskAct → Nat
  | .deliver e now => Visit.evicted k (d.store, .accept e now)
  | _ => 0

/-- What the command is going to print. -/
def Stage.unprinted : Stage → List Envelope
  | .drained s => (listed s.msgs).map Message.envelope
  | _ => []

/--
How the queue, the run under way and what was printed relate when the last run found `n`
envelopes, where `clean` says that no run has started behind what was seen or panicked.
-/
structure Follows (queue : List StoredEnvelope) (stage : Stage) (printed : List Envelope)
    (n : Nat) (clean : Prop) : Prop where
  noAck : ∀ s, stage.session = some s → s.ack = false
  found_le : n ≤ queue.length
  old : ∀ e ∈ printed ++ stage.unprinted, e ∈ (queue.take n).map StoredEnvelope.envelope
  fits : ∀ e ∈ printed ++ stage.unprinted, PadFits 12 e.body.from
  caught : clean → ∀ x ∈ queue.take n, x.envelope ∈ printed ++ stage.unprinted

variable {k : String}

/-- A run opens what verifies. -/
theorem verify_of_mem_msgs {s : Session} {m : Message} (h : m ∈ s.msgs) :
    m.envelope.verify = .ok () := by
  obtain ⟨env, henv, rfl⟩ := List.mem_map.mp h
  rw [message_eq]
  exact of_decide_eq_true (List.mem_filter.mp henv).2

/-- A run gets through its list when the senders can all be printed. -/
theorem Session.lists_iff (s : Session) :
    s.Lists ↔ ∀ e ∈ s.msgs.map Message.envelope, PadFits 12 e.body.from := by
  rw [Session.Lists, printInbox_answers_iff, List.forall_mem_map]
  exact forall₂_congr fun m hm => inboxLine_of_verify (verify_of_mem_msgs hm)

/-- A sender that was printed could be. -/
theorem fits_of_mem_unprinted {stage : Stage} {e : Envelope} (h : e ∈ stage.unprinted) :
    PadFits 12 e.body.from := by
  cases stage with
  | drained s =>
      obtain ⟨m, hm, rfl⟩ := List.mem_map.mp h
      obtain ⟨hmem, hline⟩ := inboxLine_of_listed hm
      exact (inboxLine_of_verify (verify_of_mem_msgs hmem)).mp hline
  | _ => exact absurd h List.not_mem_nil

/-- No more is printed than was drained, and all of it when the run gets through its list. -/
theorem unprinted_drained (s : Session) :
    (Stage.drained s).unprinted ⊆ s.msgs.map Message.envelope
      ∧ (s.Lists → (Stage.drained s).unprinted = s.msgs.map Message.envelope) :=
  ⟨((List.takeWhile_sublist _).map _).subset, fun h => by rw [Stage.unprinted, listed_eq_self h]⟩

/-- Its next step prints it. -/
theorem prints_next (d : Desk) :
    (Desk.step k d .next).2.map Message.envelope = d.stage.unprinted := by
  cases hs : d.stage with
  | drained s =>
      by_cases hlists : s.Lists
      · rw [Desk.next_drained hs hlists, (unprinted_drained s).2 hlists]
      · rw [Desk.next_panics hs hlists]
        rfl
  | cursorSaved s =>
      by_cases hacks : s.acks = true
      · rw [Desk.next_acks hs hacks]
        rfl
      · rw [Desk.next_finished hs hacks]
        rfl
  | _ => simp only [Desk.step, hs, Stage.unprinted, List.map_nil]

/-- What a run from the saved cursor drains. -/
theorem envelopes_drain {d : Desk} (hverify : ∀ x ∈ d.store.queue k, x.envelope.verify = .ok ())
    (ack : Bool) (fetch : Fetch) :
    (d.drain k ack none fetch).msgs.map Message.envelope
      = ((d.store.queue k).drop d.dir.cursor.toNat).map StoredEnvelope.envelope := by
  have henvs : (d.drain k ack none fetch).envelopes
      = ((d.store.queue k).drop d.dir.cursor.toNat).map StoredEnvelope.envelope := by
    rw [Desk.drain, MailboxStore.readFrom_eq]
    rfl
  rw [envelopes_msgs, Session.run, henvs, composeMessages, List.filter_eq_self]
  intro env henv
  obtain ⟨x, hx, rfl⟩ := List.mem_map.mp henv
  exact decide_eq_true (hverify x (List.mem_of_mem_drop hx))

section Follows

variable {queue queue' : List StoredEnvelope} {stage stage' : Stage}
  {printed printed' : List Envelope} {n : Nat} {clean clean' : Prop}

/-- What comes to the queue later makes no difference. -/
theorem Follows.deliver (h : Follows queue stage printed n clean) (hgrows : queue <+: queue') :
    Follows queue' stage printed n clean where
  noAck := h.noAck
  found_le := h.found_le.trans hgrows.length_le
  old := by
    obtain ⟨later, rfl⟩ := hgrows
    rw [List.take_append_of_le_length h.found_le]
    exact h.old
  fits := h.fits
  caught := by
    obtain ⟨later, rfl⟩ := hgrows
    rw [List.take_append_of_le_length h.found_le]
    exact h.caught

/-- A run begins, at some cursor. -/
theorem Follows.begin (h : Follows queue .idle printed n clean) {s : Session}
    (hack : s.ack = false) {start : Nat}
    (hmsgs : s.msgs.map Message.envelope = (queue.drop start).map StoredEnvelope.envelope)
    (hclean : clean' → clean ∧ (start ≤ n ∨ queue.length ≤ n) ∧ s.Lists) :
    Follows queue (.drained s) printed queue.length clean' where
  noAck s' hs' := by
    obtain rfl := Option.some.inj hs'
    exact hack
  found_le := Nat.le_refl _
  old e he := by
    rw [List.take_length]
    rcases List.mem_append.mp he with he | he
    · exact ((List.take_sublist _ _).map _).subset (h.old e (List.mem_append_left _ he))
    · have hdrained := (unprinted_drained s).1 he
      rw [hmsgs] at hdrained
      exact ((List.drop_sublist _ _).map _).subset hdrained
  fits e he := by
    rcases List.mem_append.mp he with he | he
    · exact h.fits e (List.mem_append_left _ he)
    · exact fits_of_mem_unprinted he
  caught hc x hx := by
    obtain ⟨hcaught, hfits, hlists⟩ := hclean hc
    rw [List.take_length, ← List.take_append_drop n queue] at hx
    rcases List.mem_append.mp hx with hx | hx
    · have hprinted : x.envelope ∈ printed ++ [] := h.caught hcaught x hx
      rw [List.append_nil] at hprinted
      exact List.mem_append_left _ hprinted
    · -- what the last run did not find is behind this one's cursor
      have hmem : x ∈ queue.drop start := by
        rcases hfits with hle | hle
        · exact List.drop_subset_drop_left queue hle hx
        · rw [List.drop_eq_nil_of_le hle] at hx
          exact absurd hx List.not_mem_nil
      rw [(unprinted_drained s).2 hlists, hmsgs]
      exact List.mem_append_right _ (List.mem_map_of_mem hmem)

/-- A run goes on, and may print what it drained. -/
theorem Follows.next (h : Follows queue stage printed n clean)
    (hsession : ∀ s, stage'.session = some s → stage.session = some s)
    (hprinted : printed' ++ stage'.unprinted = printed ++ stage.unprinted) :
    Follows queue stage' printed' n clean where
  noAck s hs := h.noAck s (hsession s hs)
  found_le := h.found_le
  old := by
    rw [hprinted]
    exact h.old
  fits := by
    rw [hprinted]
    exact h.fits
  caught := by
    rw [hprinted]
    exact h.caught

end Follows

/-- **Preserved by every step** of a command that only reads. -/
theorem follows_step {d : Desk} {printed : List Envelope} {n : Nat} {clean clean' : Prop}
    (h : Follows (d.store.queue k) d.stage printed n clean)
    (hverify : ∀ x ∈ d.store.queue k, x.envelope.verify = .ok ()) {act : DeskAct}
    (hreads : act.Reads) (hno : d.evicts k act = 0)
    (hclean : clean' → clean ∧ ((∃ ack since fetch, act = .inbox ack since fetch) →
      d.stage = .idle → (d.dir.cursor.toNat ≤ n ∨ (d.store.queue k).length ≤ n)
        ∧ ∀ x ∈ d.store.queue k, PadFits 12 x.envelope.body.from)) :
    Follows ((Desk.step k d act).1.store.queue k) (Desk.step k d act).1.stage
      (printed ++ (Desk.step k d act).2.map Message.envelope) (Desk.found k d n act) clean' := by
  have hweaker : Follows (d.store.queue k) d.stage printed n clean' :=
    { h with caught := fun hc => h.caught (hclean hc).1 }
  obtain ⟨store, dir, stage⟩ := d
  cases act with
  | deliver e now =>
      have hgrows : store.queue k <+: (store.call (.accept e now)).1.queue k :=
        queue_grows_call rfl hno
      rw [MailboxStore.call_accept] at hgrows
      show Follows ((store.accept e now).1.queue k) stage (printed ++ []) n clean'
      rw [List.append_nil]
      exact hweaker.deliver hgrows
  | crash => exact hreads.elim
  | inbox ack since fetch =>
      obtain ⟨rfl, rfl⟩ := hreads
      cases stage with
      | idle =>
          have hmsgs := envelopes_drain (d := ⟨store, dir, .idle⟩) hverify false fetch
          show Follows (store.queue k) (.drained _) (printed ++ []) (store.queue k).length clean'
          rw [List.append_nil]
          refine h.begin rfl hmsgs ?_
          intro hc
          obtain ⟨hold, hnow⟩ := hclean hc
          obtain ⟨hcursor, hsenders⟩ := hnow ⟨_, _, _, rfl⟩ rfl
          refine ⟨hold, hcursor, (Session.lists_iff _).mpr ?_⟩
          rw [hmsgs]
          intro e he
          obtain ⟨x, hx, rfl⟩ := List.mem_map.mp he
          exact hsenders x (List.mem_of_mem_drop hx)
      | drained | snapshotted | cursorSaved =>
          exact hweaker.next (fun _ hs => hs) (by simp [Desk.step])
  | next =>
      cases stage with
      | idle => exact hweaker.next (fun _ hs => hs) (by simp [Desk.step])
      | drained s =>
          by_cases hlists : s.Lists
          · rw [Desk.next_drained rfl hlists]
            refine hweaker.next (fun _ hs => hs) ?_
            rw [(unprinted_drained s).2 hlists]
            exact List.append_nil _
          · rw [Desk.next_panics rfl hlists]
            refine hweaker.next ?_ (List.append_nil _)
            intro s' hs'
            cases hs'
      | snapshotted s =>
          exact hweaker.next (fun _ hs => hs) (by simp [Desk.step, Stage.unprinted])
      | cursorSaved s =>
          have hacks : ¬s.acks = true := by
            rw [Session.acks, h.noAck s rfl, Bool.false_and]
            exact Bool.false_ne_true
          rw [Desk.next_finished rfl hacks]
          refine hweaker.next ?_ (by simp [Stage.unprinted])
          intro s' hs'
          cases hs'

/-! ## Any number of mailboxes -/

section Desks

variable {ι : Type} [DecidableEq ι]

/-- Empty mailboxes and an empty directory. -/
def Desks.start (selfId : ι → NodeId) (capacity : ι → UInt64) : Desks ι :=
  ⟨fun i => .new (selfId i) (capacity i), ⟨0, none⟩, fun _ => .idle⟩

variable (selfId : ι → NodeId) (capacity : ι → UInt64) (k : String)

/-- Where things stand after some steps. -/
def desksAfter (acts : List (ι × DeskAct)) : Desks ι :=
  Machine.final (Desks.step k) (.start selfId capacity) acts

/-- The steps, each with the state it met. -/
def desksHistory (acts : List (ι × DeskAct)) : List (Desks ι × ι × DeskAct) :=
  Machine.visits (Desks.step k) (.start selfId capacity) acts

/-- What the runs at `i` printed. -/
def printedAt (i : ι) (acts : List (ι × DeskAct)) : List Envelope :=
  (desksHistory selfId capacity k acts).flatMap fun v =>
    if v.2.1 = i then (Desks.step k v.1 v.2).2.map Message.envelope else []

/-- How much the last run at `i` found there. -/
def foundAt (i : ι) (acts : List (ι × DeskAct)) : Nat :=
  (desksHistory selfId capacity k acts).foldl
    (fun n v => if v.2.1 = i then (v.1.desk i).found k n v.2.2 else n) 0

/-- No delivery evicts anything. -/
def NoneEvicted (acts : List (ι × DeskAct)) : Prop :=
  ∀ v ∈ desksHistory selfId capacity k acts, (v.1.desk v.2.1).evicts k v.2.2 = 0

/-- With this step a run begins. -/
def Begins (before : List (ι × DeskAct)) (act : ι × DeskAct) : Prop :=
  (∃ ack since fetch, act.2 = .inbox ack since fetch)
    ∧ (desksAfter selfId capacity k before).stages act.1 = .idle

/--
Every run prints, with its next step, all its mailbox holds that no earlier run there has
printed.
-/
def EachShowsNew (acts : List (ι × DeskAct)) : Prop :=
  ∀ before act later, acts = before ++ act :: later → Begins selfId capacity k before act →
    ∀ x ∈ ((desksAfter selfId capacity k before).stores act.1).queue k,
      x.envelope ∈ printedAt selfId capacity k act.1 before
        ∨ x.envelope ∈ (Desks.step k (desksAfter selfId capacity k (before ++ [act]))
          (act.1, .next)).2.map Message.envelope

/--
No run starts behind what the last one there found, unless nothing has come since, or at a
mailbox with a sender that cannot be printed.
-/
def RunsFit (acts : List (ι × DeskAct)) : Prop :=
  ∀ before act later, acts = before ++ act :: later → Begins selfId capacity k before act →
    ((desksAfter selfId capacity k before).dir.cursor.toNat
        ≤ foundAt selfId capacity k act.1 before
      ∨ (((desksAfter selfId capacity k before).stores act.1).queue k).length
        ≤ foundAt selfId capacity k act.1 before)
      ∧ ∀ x ∈ ((desksAfter selfId capacity k before).stores act.1).queue k,
        PadFits 12 x.envelope.body.from

variable {selfId capacity k} {acts : List (ι × DeskAct)}

theorem desksAfter_concat (act : ι × DeskAct) :
    desksAfter selfId capacity k (acts ++ [act])
      = (Desks.step k (desksAfter selfId capacity k acts) act).1 :=
  Machine.final_concat acts act

theorem desksHistory_concat (act : ι × DeskAct) :
    desksHistory selfId capacity k (acts ++ [act])
      = desksHistory selfId capacity k acts ++ [(desksAfter selfId capacity k acts, act)] :=
  Machine.visits_concat acts act

theorem printedAt_concat (i : ι) (act : ι × DeskAct) :
    printedAt selfId capacity k i (acts ++ [act])
      = printedAt selfId capacity k i acts ++ if act.1 = i then
          (Desks.step k (desksAfter selfId capacity k acts) act).2.map Message.envelope
        else [] := by
  rw [printedAt, desksHistory_concat, List.flatMap_append, List.flatMap_singleton]
  rfl

theorem foundAt_concat (i : ι) (act : ι × DeskAct) :
    foundAt selfId capacity k i (acts ++ [act])
      = if act.1 = i then ((desksAfter selfId capacity k acts).desk i).found k
          (foundAt selfId capacity k i acts) act.2 else foundAt selfId capacity k i acts := by
  rw [foundAt, desksHistory_concat, List.foldl_append]
  rfl

/-- The mailbox concerned, after a step. -/
theorem desk_step_self (ds : Desks ι) (i : ι) (act : DeskAct) :
    (Desks.step k ds (i, act)).1.stores i = ((ds.desk i).step k act).1.store
      ∧ (Desks.step k ds (i, act)).1.stages i = ((ds.desk i).step k act).1.stage :=
  ⟨Function.update_self .., Function.update_self ..⟩

/-- Any other mailbox, after a step. -/
theorem desk_step_of_ne (ds : Desks ι) {i j : ι} (h : i ≠ j) (act : DeskAct) :
    (Desks.step k ds (j, act)).1.stores i = ds.stores i
      ∧ (Desks.step k ds (j, act)).1.stages i = ds.stages i :=
  ⟨Function.update_of_ne h .., Function.update_of_ne h ..⟩

/-- What holds of the mailbox `i` and the command there. -/
structure StandsAt (selfId : ι → NodeId) (capacity : ι → UInt64) (k : String)
    (acts : List (ι × DeskAct)) (i : ι) : Prop where
  store : ∃ ops, (desksAfter selfId capacity k acts).stores i = after (selfId i) (capacity i) ops
  follows : Follows (((desksAfter selfId capacity k acts).stores i).queue k)
    ((desksAfter selfId capacity k acts).stages i) (printedAt selfId capacity k i acts)
    (foundAt selfId capacity k i acts) (RunsFit selfId capacity k acts)

/-- **Preserved by every step**, at the mailbox concerned and at the others. -/
theorem StandsAt.step {i : ι} (h : StandsAt selfId capacity k acts i) {act : ι × DeskAct}
    (hreads : act.2.Reads)
    (hno : ((desksAfter selfId capacity k acts).desk act.1).evicts k act.2 = 0) :
    StandsAt selfId capacity k (acts ++ [act]) i := by
  obtain ⟨j, act⟩ := act
  obtain ⟨⟨ops, hstore⟩, hfollows⟩ := h
  have hfits : RunsFit selfId capacity k (acts ++ [(j, act)]) →
      RunsFit selfId capacity k acts := fun hfits => Machine.forall_cut_start hfits
  by_cases hij : i = j
  · subst hij
    have hkept := kept_after (selfId i) (capacity i) ops k
    rw [← hstore] at hkept
    obtain ⟨hstores, hstages⟩ := desk_step_self (k := k) (desksAfter selfId capacity k acts) i act
    rw [← desksAfter_concat] at hstores hstages
    refine ⟨⟨ops ++ Desk.calls k ((desksAfter selfId capacity k acts).desk i) act, ?_⟩, ?_⟩
    · rw [hstores, store_step, after, Machine.final_append, ← after, ← hstore]
      rfl
    · rw [hstores, hstages, printedAt_concat, foundAt_concat, if_pos rfl, if_pos rfl]
      refine follows_step hfollows (fun x hx => (hkept.addressed x hx).1)
        hreads hno ?_
      intro hclean
      refine ⟨hfits hclean, ?_⟩
      intro hinbox hidle
      exact hclean acts (i, act) [] rfl ⟨hinbox, hidle⟩
  · obtain ⟨hstores, hstages⟩ := desk_step_of_ne (k := k) (desksAfter selfId capacity k acts)
      hij act
    rw [← desksAfter_concat] at hstores hstages
    refine ⟨⟨ops, hstores.trans hstore⟩, ?_⟩
    rw [hstores, hstages, printedAt_concat, foundAt_concat, if_neg (Ne.symm hij),
      if_neg (Ne.symm hij), List.append_nil]
    exact { hfollows with caught := fun hclean => hfollows.caught (hfits hclean) }

theorem standsAt (hreads : ∀ act ∈ acts, act.2.Reads) (hno : NoneEvicted selfId capacity k acts)
    (i : ι) : StandsAt selfId capacity k acts i := by
  induction acts using List.reverseRecOn with
  | nil =>
      refine ⟨⟨[], rfl⟩, ?_, ?_, ?_, ?_, ?_⟩
      · intro s hs
        cases hs
      · exact Nat.zero_le _
      · exact fun _ he => absurd he List.not_mem_nil
      · exact fun _ he => absurd he List.not_mem_nil
      · exact fun _ _ hx => absurd hx List.not_mem_nil
  | append_singleton acts act ih =>
      obtain ⟨hacts, hact⟩ := List.forall_mem_append.mp hreads
      have hno' : NoneEvicted selfId capacity k acts := by
        intro v hv
        refine hno v ?_
        rw [desksHistory_concat]
        exact List.mem_append_left _ hv
      refine (ih hacts hno').step (hact act (List.mem_singleton_self _)) ?_
      refine hno (_, act) ?_
      rw [desksHistory_concat]
      exact List.mem_append_right _ (List.mem_singleton_self _)

/-- A run that begins drains what stands behind the saved cursor, and prints of that. -/
theorem exists_session {act : ι × DeskAct} (h : StandsAt selfId capacity k acts act.1)
    (hreads : act.2.Reads) (hbegins : Begins selfId capacity k acts act) :
    ∃ s : Session, (Desks.step k (desksAfter selfId capacity k (acts ++ [act]))
          (act.1, .next)).2.map Message.envelope = (Stage.drained s).unprinted
      ∧ s.msgs.map Message.envelope
        = ((((desksAfter selfId capacity k acts).stores act.1).queue k).drop
          (desksAfter selfId capacity k acts).dir.cursor.toNat).map StoredEnvelope.envelope := by
  obtain ⟨i, act⟩ := act
  obtain ⟨⟨ack, since, fetch, rfl⟩, hidle⟩ := hbegins
  obtain ⟨rfl, rfl⟩ := hreads
  obtain ⟨ops, hstore⟩ := h.store
  have hkept := kept_after (selfId i) (capacity i) ops k
  rw [← hstore] at hkept
  have hstage : (Desk.step k ((desksAfter selfId capacity k acts).desk i)
      (.inbox false none fetch)).1.stage
        = .drained (((desksAfter selfId capacity k acts).desk i).drain k false none fetch) := by
    simp only [Desk.step, Desks.desk]
    rw [hidle]
  refine ⟨((desksAfter selfId capacity k acts).desk i).drain k false none fetch, ?_,
    envelopes_drain (fun x hx => (hkept.addressed x hx).1) false fetch⟩
  rw [← hstage, ← (desk_step_self _ i _).2, ← desksAfter_concat]
  exact prints_next ((desksAfter selfId capacity k (acts ++ [(i, _)])).desk i)

/-- No envelope is in a queue twice. -/
theorem StandsAt.nodup {i : ι} (h : StandsAt selfId capacity k acts i) :
    ((((desksAfter selfId capacity k acts).stores i).queue k).map
      StoredEnvelope.envelope).Nodup := by
  obtain ⟨ops, hstore⟩ := h.store
  rw [hstore]
  refine List.Nodup.of_map Envelope.messageId ?_
  rw [List.map_map]
  exact (kept_after (selfId i) (capacity i) ops k).sound.nodup

/-- The first envelope that no run has found is new, and behind no cursor beyond it. -/
theorem StandsAt.exists_missed {i : ι} (h : StandsAt selfId capacity k acts i)
    (hidle : (desksAfter selfId capacity k acts).stages i = .idle) {start : Nat}
    (hstart : foundAt selfId capacity k i acts < start)
    (hlen : foundAt selfId capacity k i acts
      < (((desksAfter selfId capacity k acts).stores i).queue k).length) :
    ∃ x ∈ ((desksAfter selfId capacity k acts).stores i).queue k,
      x.envelope ∉ printedAt selfId capacity k i acts
        ∧ x.envelope ∉ ((((desksAfter selfId capacity k acts).stores i).queue k).drop start).map
          StoredEnvelope.envelope := by
  have hnodup := h.nodup
  have hold := h.follows.old
  rw [hidle] at hold
  generalize ((desksAfter selfId capacity k acts).stores i).queue k = queue at *
  generalize foundAt selfId capacity k i acts = n at *
  -- it stands once in the queue, between what was found and what came after it
  have hcut : queue = queue.take n ++ queue[n] :: queue.drop (n + 1) := by
    rw [List.getElem_cons_drop, List.take_append_drop]
  rw [hcut, List.map_append, List.map_cons, List.nodup_middle, List.nodup_cons] at hnodup
  rw [List.mem_append, not_or] at hnodup
  obtain ⟨⟨hfound, hafter⟩, -⟩ := hnodup
  refine ⟨queue[n], List.getElem_mem hlen, ?_, ?_⟩
  · intro hprinted
    exact hfound (hold _ (List.mem_append_left _ hprinted))
  · intro hmem
    exact hafter (List.map_subset _ (List.drop_subset_drop_left _ hstart) hmem)

/--
**When inboxes do not disturb each other.** As long as nothing is evicted, every run shows
all that its mailbox holds and no earlier run against it has shown, exactly when no run
starts at a cursor beyond what the last run against its mailbox found there while that
mailbox has stored more since, and the senders of what the mailbox holds can be printed.
-/
theorem eachShowsNew_iff_runsFit (selfId : ι → NodeId) (capacity : ι → UInt64) (k : String)
    (acts : List (ι × DeskAct)) (hreads : ∀ act ∈ acts, act.2.Reads)
    (hno : NoneEvicted selfId capacity k acts) :
    EachShowsNew selfId capacity k acts ↔ RunsFit selfId capacity k acts := by
  have hstands : ∀ before act later, acts = before ++ act :: later →
      act.2.Reads ∧ StandsAt selfId capacity k before act.1 := by
    intro before act later hcut
    subst hcut
    refine ⟨hreads act (List.mem_append_right _ List.mem_cons_self), ?_⟩
    refine standsAt (fun a ha => hreads a (List.mem_append_left _ ha)) ?_ act.1
    intro v hv
    refine hno v ?_
    rw [desksHistory, Machine.visits_append]
    exact List.mem_append_left _ hv
  refine ⟨?_, ?_⟩
  · intro h before act later hcut hbegins
    obtain ⟨hact, hat⟩ := hstands before act later hcut
    obtain ⟨s, hprints, hmsgs⟩ := exists_session hat hact hbegins
    have hshows := h before act later hcut hbegins
    rw [hprints] at hshows
    refine ⟨?_, ?_⟩
    · by_contra hnot
      obtain ⟨hcursor, hlen⟩ := not_or.mp hnot
      obtain ⟨x, hx, hnew, hmissed⟩ := hat.exists_missed hbegins.2
        (Nat.lt_of_not_le hcursor) (Nat.lt_of_not_le hlen)
      rcases hshows x hx with hprinted | hprinted
      · exact hnew hprinted
      · have hdrained := (unprinted_drained s).1 hprinted
        rw [hmsgs] at hdrained
        exact hmissed hdrained
    · -- what was printed, now or earlier, could be
      intro x hx
      rcases hshows x hx with hprinted | hprinted
      · exact hat.follows.fits _ (List.mem_append_left _ hprinted)
      · exact fits_of_mem_unprinted hprinted
  · intro h before act later hcut hbegins x hx
    obtain ⟨hact, hat⟩ := hstands before act later hcut
    obtain ⟨s, hprints, hmsgs⟩ := exists_session hat hact hbegins
    obtain ⟨hcursor, hsenders⟩ := h before act later hcut hbegins
    have hlists : s.Lists := by
      rw [Session.lists_iff, hmsgs]
      intro e he
      obtain ⟨y, hy, rfl⟩ := List.mem_map.mp he
      exact hsenders y (List.mem_of_mem_drop hy)
    have hfits : RunsFit selfId capacity k before := by
      subst hcut
      exact Machine.forall_cut_start h
    have hcaught := hat.follows.caught hfits
    rw [hbegins.2] at hcaught
    rw [hprints, (unprinted_drained s).2 hlists, hmsgs]
    rw [← List.take_append_drop (foundAt selfId capacity k act.1 before)
      (((desksAfter selfId capacity k before).stores act.1).queue k)] at hx
    rcases List.mem_append.mp hx with hx | hx
    · left
      exact (List.mem_append.mp (hcaught x hx)).resolve_right List.not_mem_nil
    · right
      refine List.mem_map_of_mem ?_
      rcases hcursor with hle | hle
      · exact List.drop_subset_drop_left _ hle hx
      · rw [List.drop_eq_nil_of_le hle] at hx
        exact absurd hx List.not_mem_nil

end Desks

end Crypto

namespace Sample

/-- Two mailboxes. -/
def mailboxes : Bool → NodeId
  | true => mailbox
  | false => sender

/-- An envelope at each mailbox. -/
def oneAtEach : List (Bool × DeskAct) :=
  [(true, .deliver first 1), (false, .deliver second 2)]

/-- A run of the command, with no blobs to be had. -/
def readAt (i : Bool) : List (Bool × DeskAct) :=
  [(i, .inbox false none fun _ => .error "no blob"), (i, .next), (i, .next), (i, .next)]

/-- A run at either mailbox. -/
def readEach : List (Bool × DeskAct) := oneAtEach ++ readAt true ++ readAt false

theorem reads_readEach : ∀ act ∈ readEach, act.2.Reads := by
  simp [readEach, oneAtEach, readAt, DeskAct.Reads]

theorem noneEvicted_readEach :
    @NoneEvicted crypto Bool _ mailboxes (fun _ => 2) recipient.hex readEach := by
  unfold NoneEvicted
  decide +kernel

end Sample

/-- The theorem at a run at either mailbox. -/
theorem eachShowsNew_iff_runsFit_sample :
    @EachShowsNew Sample.crypto Bool _ Sample.mailboxes (fun _ => 2) Sample.recipient.hex
        Sample.readEach
      ↔ @RunsFit Sample.crypto Bool _ Sample.mailboxes (fun _ => 2) Sample.recipient.hex
        Sample.readEach :=
  @eachShowsNew_iff_runsFit Sample.crypto Bool _ Sample.mailboxes (fun _ => 2)
    Sample.recipient.hex Sample.readEach Sample.reads_readEach Sample.noneEvicted_readEach

/--
The run at the second mailbox starts at the cursor of the first and shows nothing of what
waits there.
-/
theorem second_mailbox_skipped :
    (∀ act ∈ Sample.readEach, act.2.Reads)
      ∧ @NoneEvicted Sample.crypto Bool _ Sample.mailboxes (fun _ => 2) Sample.recipient.hex
        Sample.readEach
      ∧ ¬@EachShowsNew Sample.crypto Bool _ Sample.mailboxes (fun _ => 2) Sample.recipient.hex
        Sample.readEach := by
  refine ⟨Sample.reads_readEach, Sample.noneEvicted_readEach, ?_⟩
  intro h
  have hidle : (@desksAfter Sample.crypto Bool _ Sample.mailboxes (fun _ => 2)
      Sample.recipient.hex (Sample.oneAtEach ++ Sample.readAt true)).stages false = .idle := rfl
  have hshown := h (Sample.oneAtEach ++ Sample.readAt true) _ _ rfl ⟨⟨_, _, _, rfl⟩, hidle⟩
    ⟨Sample.second, 2⟩ (by decide +kernel)
  revert hshown
  decide +kernel

end CeMail
