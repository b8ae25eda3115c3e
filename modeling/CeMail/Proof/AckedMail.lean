import CeMail.Proof.Command

/-!
# What an ack leaves to be read

The snapshot is written before the cursor and the cursor before the ack, so what a run has
drained is in the snapshot when the run acks. But an ack frees by position: whatever stands
in front of the cursor, from the front of the queue on. The run drained from its start on,
and the queue may have lost its front to eviction since.

And `read` finds no more than the last snapshot holds. A message that was freed is not
stored again, so a snapshot saved after the ack holds none of those freed before.

What the ack frees stands at known places: those of the queue that was drained, as many
behind the last of them as were evicted in front. So it can be told from the start, the
evictions and the fetches which bodies an ack takes away.
-/

namespace CeMail

section Crypto

variable [Crypto] {selfId : NodeId} {capacity : UInt64} {k : String}

/-! ## Acked mail -/

section Properties

variable (selfId : NodeId) (capacity : UInt64) (k : String)

/-- After every step, what the acks have freed is found by its id. -/
def AckedStaysReadable (acts : List DeskAct) : Prop :=
  ∀ before, before <+: acts → ∀ id ∈ freed selfId capacity k before,
    (deskAfter selfId capacity k before).dir.Finds id

/-- What the ack of the run frees is what the run drained, by the ids. -/
def FreesOwn (store : MailboxStore) (s : Session) : Prop :=
  ∀ x ∈ (store.queue k).take s.cursor.toNat, x.messageId ∈ s.envelopes.map Envelope.messageId

/-- A snapshot is saved only while nothing has been freed, and an ack frees its run's own mail. -/
def SafeStep (freed : Finset String) (d : Desk) : DeskAct → Prop
  | .next =>
      match d.stage with
      | .drained s => s.Lists → freed = ∅
      | .cursorSaved s => s.acks = true → FreesOwn k d.store s
      | _ => True
  | _ => True

/-- Every step is safe. -/
def StepsSafely (acts : List DeskAct) : Prop :=
  ∀ before act rest, acts = before ++ act :: rest →
    SafeStep k (freed selfId capacity k before) (deskAfter selfId capacity k before) act

end Properties

omit [Crypto] in
theorem finds_congr {d d' : DataDir} (h : d.snapshot = d'.snapshot) (id : String) :
    d.Finds id ↔ d'.Finds id := by
  rw [DataDir.Finds, DataDir.Finds, read_congr h]

/-- A step that neither saves a snapshot nor acks is safe. -/
theorem safeStep_of_still {freed : Finset String} {d : Desk} {act : DeskAct}
    (h : act = .next → ∀ s, d.stage.session = some s →
      d.stage = .drained s ∧ ¬s.Lists ∨ d.stage = .cursorSaved s ∧ s.acks = false) :
    SafeStep k freed d act := by
  cases act with
  | next =>
      cases hs : d.stage with
      | drained s =>
          simp only [SafeStep, hs]
          rcases h rfl s (by rw [hs]; rfl) with ⟨-, hpanics⟩ | ⟨hsaved, -⟩
          · exact fun hlists => absurd hlists hpanics
          · cases hs.symm.trans hsaved
      | cursorSaved s =>
          simp only [SafeStep, hs]
          rcases h rfl s (by rw [hs]; rfl) with ⟨hdrained, -⟩ | ⟨-, hnot⟩
          · cases hs.symm.trans hdrained
          · exact fun hacks => absurd (hacks.symm.trans hnot) (by decide)
      | _ => simp only [SafeStep, hs]
  | _ => trivial

/-- **One step**: what is freed and found stays so exactly when the step is safe. -/
theorem finds_concat {acts : List DeskAct}
    (h : ∀ id ∈ freed selfId capacity k acts, (deskAfter selfId capacity k acts).dir.Finds id)
    (act : DeskAct) :
    (∀ id ∈ freed selfId capacity k (acts ++ [act]),
        (deskAfter selfId capacity k (acts ++ [act])).dir.Finds id)
      ↔ SafeStep k (freed selfId capacity k acts) (deskAfter selfId capacity k acts) act := by
  obtain ⟨hunder, hsaved⟩ := deskStands selfId capacity k acts
  rw [deskAfter_concat, freed_concat]
  generalize freed selfId capacity k acts = f at h hunder
  generalize deskAfter selfId capacity k acts = d at h hunder hsaved
  rcases step_cases (k := k) d ⟨[], [], 0⟩ act with ⟨e, now, rfl, hd, hf, -⟩
    | ⟨ack, since, fetch, rfl, hd, hf, -⟩ | ⟨s, hs, rfl, hlists, hd, hf, -⟩
    | ⟨s, hs, rfl, hd, hf, -⟩ | ⟨s, hs, rfl, hacks, hd, hf⟩ | ⟨hact, hd, hf, -⟩
  · rw [hd, hf, Finset.union_empty]
    exact ⟨fun _ => trivial, fun _ => h⟩
  · rw [hd, hf, Finset.union_empty]
    exact ⟨fun _ => trivial, fun _ => h⟩
  -- the snapshot is saved over: none of the freed is in the new one
  · have hrun := hunder s (by rw [hs]; rfl)
    rw [hd, hf, Finset.union_empty]
    simp only [SafeStep, hs]
    refine ⟨?_, ?_⟩
    · intro hfound _
      by_contra hne
      obtain ⟨id, hid⟩ := Finset.nonempty_iff_ne_empty.mpr hne
      have hmem := (finds_iff rfl hrun.verified id).mp (hfound id hid)
      obtain ⟨env, henv, rfl⟩ := List.mem_map.mp hmem
      exact hrun.fresh env henv hid
    · intro hnone id hid
      rw [hnone hlists] at hid
      cases hid
  · rw [hd, hf, Finset.union_empty]
    simp only [SafeStep, hs]
    exact ⟨fun _ => trivial, fun _ id hid => (finds_congr rfl id).mpr (h id hid)⟩
  -- the ack: what it frees is found where the run drained it
  · have hrun := hunder s (by rw [hs]; rfl)
    have hfinds : ∀ id, d.dir.Finds id ↔ id ∈ s.envelopes.map Envelope.messageId :=
      finds_iff (hsaved s (Or.inr hs)) hrun.verified
    rw [hd, hf]
    simp only [SafeStep, hs]
    refine ⟨?_, ?_⟩
    · intro hfound _ x hx
      refine (hfinds _).mp (hfound _ (Finset.mem_union_right _ ?_))
      exact List.mem_toFinset.mpr (List.mem_map_of_mem hx)
    · intro hown id hid
      rcases Finset.mem_union.mp hid with hid | hid
      · exact h id hid
      · obtain ⟨x, hx, rfl⟩ := List.mem_map.mp (List.mem_toFinset.mp hid)
        exact (hfinds _).mpr (hown hacks x hx)
  · rw [hf, Finset.union_empty]
    refine ⟨fun _ => safeStep_of_still hact, ?_⟩
    intro _
    rcases hd with hd | hd <;> rw [hd] <;> exact h

/-- A run that drained from the front, and lost nothing to eviction since, acks what it drained. -/
theorem take_cursor_eq {freed : Finset String} {queue : List StoredEnvelope} {w : LastDrain}
    {s : Session} (h : Underway freed queue w s) (hstart : s.start = 0) (hkept : w.evicted = 0) :
    (queue.take s.cursor.toNat).map StoredEnvelope.envelope = s.envelopes := by
  rw [h.queue, hkept, List.drop_zero, h.cursor, LastDrain.full, List.take_left, h.envelopes, hstart]
  rfl

theorem freesOwn_of_start {acts : List DeskAct} {s : Session}
    (hs : (deskAfter selfId capacity k acts).stage = .cursorSaved s) (hstart : s.start = 0)
    (hkept : evictedSinceDrain k (deskHistory selfId capacity k acts) = 0) :
    FreesOwn k (deskAfter selfId capacity k acts).store s := by
  have hrun := (deskStands selfId capacity k acts).underway s (by rw [hs]; rfl)
  intro x hx
  rw [← take_cursor_eq hrun hstart ((evicted_lastDrain _).trans hkept)]
  exact List.mem_map_of_mem (List.mem_map_of_mem hx)

/-- **Acked mail stays readable** exactly as long as every step is safe. -/
theorem ackedStaysReadable_iff (selfId : NodeId) (capacity : UInt64) (k : String)
    (acts : List DeskAct) :
    (AckedStaysReadable selfId capacity k acts ↔ StepsSafely selfId capacity k acts)
      ∧ ∀ before s, (deskAfter selfId capacity k before).stage = .cursorSaved s → s.start = 0 →
        evictedSinceDrain k (deskHistory selfId capacity k before) = 0 →
        FreesOwn k (deskAfter selfId capacity k before).store s := by
  refine ⟨?_, fun _ _ => freesOwn_of_start⟩
  induction acts using List.reverseRecOn with
  | nil =>
      refine ⟨fun _ => Machine.forall_cut_nil, ?_⟩
      intro _ before hbefore id hid
      rw [List.prefix_nil.mp hbefore] at hid
      cases hid
  | append_singleton acts act ih =>
      unfold AckedStaysReadable StepsSafely
      rw [Machine.forall_prefix_concat, Machine.forall_cut_concat]
      refine ⟨?_, ?_⟩
      · intro hreadable
        obtain ⟨hbefore, hlast⟩ := hreadable
        exact ⟨ih.mp hbefore, (finds_concat (hbefore acts List.prefix_rfl) act).mp hlast⟩
      · intro hsafe
        obtain ⟨hbefore, hlast⟩ := hsafe
        have hfound := ih.mpr hbefore
        exact ⟨hfound, (finds_concat (hfound acts List.prefix_rfl) act).mpr hlast⟩

end Crypto

namespace Sample

/-- No body can be fetched. -/
def unreachable : Fetch := fun _ => .error "blob not found"

/--
A run that dies between the cursor and its ack, and a whole one after more mail came: it
starts at the saved cursor and acks from the front.
-/
def diedBeforeAck : List DeskAct :=
  [.deliver first 1, .inbox true none unreachable, .next, .next, .crash, .deliver second 2,
    .inbox true none unreachable, .next, .next, .next]

end Sample

/-- The first message is freed by a run that did not drain it, and no longer to be read. -/
theorem freed_by_run_after_crash :
    ¬@AckedStaysReadable Sample.crypto Sample.mailbox 2 Sample.recipient.hex
      Sample.diedBeforeAck := by
  intro h
  obtain ⟨m, hread, -⟩ := h _ List.prefix_rfl (@Envelope.messageId Sample.crypto Sample.first)
    (by decide +kernel)
  have hmiss : (@deskAfter Sample.crypto Sample.mailbox 2 Sample.recipient.hex
      Sample.diedBeforeAck).dir.read (@Envelope.messageId Sample.crypto Sample.first)
        = .error ("no message with id starting "
          ++ "60ff8f80b897d5f0adc49214573ad0c98f926b2593e79389cf67f6cd74a95c1d"
          ++ " in the last inbox snapshot") := by
    decide +kernel
  rw [hmiss] at hread
  cases hread

/-! ## Acked bodies -/

section Crypto

variable [Crypto]

section Properties

variable (selfId : NodeId) (capacity : UInt64) (k : String)

/-- The entry holds the body: its text, which where the body is a text is that text. -/
def SnapMsg.HoldsBody (m : SnapMsg) (body : List UInt8) : Prop :=
  m.body = Utf8.lossy body ∧ ∀ text : String, body = text.toUTF8.data.toList → m.body = text

/--
Each message with a body that the ack of the run frees had its body fetched and decrypted
by the run, and `read` gives an entry that holds it.
-/
def KeepsBodies (d : Desk) (s : Session) : Prop :=
  ∀ x ∈ (d.store.queue k).take s.cursor.toNat, x.envelope.body.bodyCid ≠ "" →
    ∃ env ∈ s.envelopes, env.body = x.envelope.body ∧
      ∃ content, s.fetch.openContent env = .ok content ∧
        ∃ m, d.dir.read x.messageId = .ok m ∧ m.id = x.messageId ∧ m.HoldsBody content.1

/-- Each such message was drained by the run, and its body did not fail to be fetched. -/
def FetchesBodies (d : Desk) (s : Session) : Prop :=
  ∀ x ∈ (d.store.queue k).take s.cursor.toNat, x.envelope.body.bodyCid ≠ "" →
    ∃ env ∈ s.envelopes, env.body = x.envelope.body ∧ ∃ plaintext, s.fetch env = .ok plaintext

omit [Crypto] in
/-- What fetching the body of this envelope gave the run. -/
def Session.Fetched (s : Session) (x : StoredEnvelope) : Prop :=
  ∃ plaintext, s.fetch x.envelope = .ok plaintext

omit [Crypto] in
/--
The fetches that went well, where the run started and what was evicted since its drain spare
every body. Of the places that the ack frees some are in front of the start, some the run
drained, and some were filled since.
-/
structure SparesBodies (w : LastDrain) (s : Session) : Prop where
  front : ∀ i x, w.queue[i]? = some x → w.evicted ≤ i → i < s.start.toNat →
    x.envelope.body.bodyCid = ""
  drained : ∀ i x, w.queue[i]? = some x → w.evicted ≤ i → s.start.toNat ≤ i →
    x.envelope.body.bodyCid ≠ "" → s.Fetched x
  /-- One of those evicted has been delivered again. -/
  stored : ∀ j x, w.stored[j]? = some x → w.evicted ≤ w.queue.length + j → j < w.evicted →
    x.envelope.body.bodyCid ≠ "" → ∃ i y, w.queue[i]? = some y ∧ s.start.toNat ≤ i
      ∧ i < w.evicted ∧ y.envelope.body = x.envelope.body ∧ s.Fetched y

/-- Every run that acks does so with this property, after these steps. -/
def Acks (P : List DeskAct → Session → Prop) (acts : List DeskAct) : Prop :=
  ∀ before act rest, acts = before ++ act :: rest → act = .next →
    ∀ s, (deskAfter selfId capacity k before).stage = .cursorSaved s → s.acks = true → P before s

end Properties

omit [Crypto] in
/-- An envelope with a body is opened exactly when its body is fetched. -/
theorem openContent_ok {fetch : Fetch} {env : Envelope} (h : env.body.bodyCid ≠ "") :
    (∃ content, fetch.openContent env = .ok content) ↔ ∃ plaintext, fetch env = .ok plaintext := by
  unfold Fetch.openContent
  rw [if_neg h]
  cases fetch env with
  | error e =>
      refine ⟨?_, ?_⟩
      · intro h
        obtain ⟨_, h⟩ := h
        cases h
      · intro h
        obtain ⟨_, h⟩ := h
        cases h
  | ok plaintext =>
      refine ⟨fun _ => ⟨plaintext, rfl⟩, fun _ => ?_⟩
      cases h : BodyContent.tryDecode plaintext with
      | none => exact ⟨(plaintext, none), by simp [h, bind, Except.bind]⟩
      | some content =>
          refine ⟨(content.body, some content.subject), ?_⟩
          simp [h, bind, Except.bind]

/-- The entry of an envelope that was opened holds its body. -/
theorem holdsBody_snap {fetch : Fetch} {env : Envelope} {content : List UInt8 × Option String}
    (h : fetch.openContent env = .ok content) : (fetch.message env).snap.HoldsBody content.1 := by
  have hbody : (fetch.message env).snap.body = Utf8.lossy content.1 := by
    rw [message_eq, h]
    rfl
  refine ⟨hbody, ?_⟩
  intro text htext
  rw [hbody, htext, Utf8.lossy_toUTF8]

/-- A run that is about to ack has saved the bodies that it fetched. -/
theorem keepsBodies_iff {acts : List DeskAct} {s : Session}
    (hs : (deskAfter selfId capacity k acts).stage = .cursorSaved s) :
    KeepsBodies k (deskAfter selfId capacity k acts) s
      ↔ FetchesBodies k (deskAfter selfId capacity k acts) s := by
  have hstands := deskStands selfId capacity k acts
  have hrun := hstands.underway s (by rw [hs]; rfl)
  refine ⟨?_, ?_⟩
  · intro h x hx hcid
    obtain ⟨env, henv, hsame, content, hopen, -⟩ := h x hx hcid
    refine ⟨env, henv, hsame, ?_⟩
    rw [← hsame] at hcid
    exact (openContent_ok hcid).mp ⟨content, hopen⟩
  · intro h x hx hcid
    obtain ⟨env, henv, hsame, hfetched⟩ := h x hx hcid
    have hid : env.messageId = x.messageId := congrArg messageId hsame
    rw [← hsame] at hcid
    obtain ⟨content, hopen⟩ := (openContent_ok hcid).mpr hfetched
    have hread := read_drained (hstands.saved s (Or.inr hs)) hrun.verified hrun.nodup_envelopes henv
    refine ⟨env, henv, hsame, content, hopen, _, ?_, ?_, holdsBody_snap hopen⟩
    · rw [← hid]
      exact hread
    · rw [id_snap]
      exact hid

/-! ### The places an ack frees -/

/-- Where no two ids are the same, an id stands at one place. -/
theorem place_inj {queue : List StoredEnvelope}
    (h : (queue.map StoredEnvelope.messageId).Nodup) {i j : Nat} {x y : StoredEnvelope}
    (hx : queue[i]? = some x) (hy : queue[j]? = some y)
    (hsame : x.envelope.body = y.envelope.body) : i = j := by
  have hid : x.messageId = y.messageId := congrArg messageId hsame
  have hlt : i < (queue.map StoredEnvelope.messageId).length := by
    rw [List.length_map]
    exact (List.getElem?_eq_some_iff.mp hx).1
  refine (List.getElem?_inj hlt h).mp ?_
  rw [List.getElem?_map, List.getElem?_map, hx, hy, Option.map_some, Option.map_some, hid]

section Places

variable {freed : Finset String} {queue : List StoredEnvelope} {w : LastDrain} {s : Session}

omit [Crypto] in
/-- The queue that was drained, and behind it what was stored since. -/
theorem LastDrain.getElem?_full (w : LastDrain) (i : Nat) (x : StoredEnvelope) :
    w.full[i]? = some x ↔ w.queue[i]? = some x
      ∨ ∃ j, i = w.queue.length + j ∧ w.stored[j]? = some x := by
  rw [LastDrain.full]
  rcases Nat.lt_or_ge i w.queue.length with hlt | hge
  · rw [List.getElem?_append_left hlt]
    refine ⟨Or.inl, ?_⟩
    rintro (h | ⟨j, rfl, -⟩)
    · exact h
    · omega
  · rw [List.getElem?_append_right hge, List.getElem?_eq_none hge]
    refine ⟨fun h => Or.inr ⟨i - w.queue.length, by omega, h⟩, ?_⟩
    rintro (h | ⟨j, rfl, h⟩)
    · cases h
    · rw [Nat.add_sub_cancel_left]
      exact h

/-- The ack frees as many places as the run found, from the evicted on. -/
theorem Underway.mem_take_cursor (h : Underway freed queue w s) (x : StoredEnvelope) :
    x ∈ queue.take s.cursor.toNat
      ↔ ∃ i, w.full[i]? = some x ∧ w.evicted ≤ i ∧ i < w.evicted + w.queue.length := by
  rw [h.queue, h.cursor, List.mem_iff_getElem?]
  refine ⟨?_, ?_⟩
  · rintro ⟨i, hi⟩
    rcases Nat.lt_or_ge i w.queue.length with hlt | hge
    · rw [List.getElem?_take_of_lt hlt, List.getElem?_drop] at hi
      exact ⟨w.evicted + i, hi, Nat.le_add_right _ _, by omega⟩
    · rw [List.getElem?_take_eq_none hge] at hi
      cases hi
  · rintro ⟨i, hi, hge, hlt⟩
    refine ⟨i - w.evicted, ?_⟩
    rw [List.getElem?_take_of_lt (by omega), List.getElem?_drop, Nat.add_sub_cancel' hge]
    exact hi

/-- The run drained what stands at its start or behind. -/
theorem Underway.mem_envelopes (h : Underway freed queue w s) (env : Envelope) :
    env ∈ s.envelopes ↔ ∃ i y, w.queue[i]? = some y ∧ s.start.toNat ≤ i ∧ y.envelope = env := by
  rw [h.envelopes, List.mem_map]
  refine ⟨?_, ?_⟩
  · rintro ⟨y, hy, rfl⟩
    obtain ⟨i, hi⟩ := List.mem_iff_getElem?.mp hy
    rw [List.getElem?_drop] at hi
    exact ⟨_, y, hi, Nat.le_add_right _ _, rfl⟩
  · rintro ⟨i, y, hi, hle, rfl⟩
    refine ⟨y, List.mem_iff_getElem?.mpr ⟨i - s.start.toNat, ?_⟩, rfl⟩
    rw [List.getElem?_drop, Nat.add_sub_cancel' hle]
    exact hi

/-- A place of the queue that was drained and one behind the evicted hold the same id only once. -/
theorem Underway.evicted_of_same (h : Underway freed queue w s)
    (hnodup : (queue.map StoredEnvelope.messageId).Nodup) {i j : Nat} {x y : StoredEnvelope}
    (hx : w.full[j]? = some x) (hj : w.evicted ≤ j) (hy : w.full[i]? = some y) (hne : i ≠ j)
    (hsame : y.envelope.body = x.envelope.body) : i < w.evicted := by
  by_contra hlt
  rw [h.queue] at hnodup
  have hx' : (w.full.drop w.evicted)[j - w.evicted]? = some x := by
    rw [List.getElem?_drop, Nat.add_sub_cancel' hj]
    exact hx
  have hy' : (w.full.drop w.evicted)[i - w.evicted]? = some y := by
    rw [List.getElem?_drop, Nat.add_sub_cancel' (by omega)]
    exact hy
  have hplace := place_inj hnodup hy' hx' hsame
  omega

/-- **What an ack frees had its body fetched** exactly when its place spares it. -/
theorem Underway.fetchesBodies_iff {d : Desk} (h : Underway freed (d.store.queue k) w s)
    (hnodup : ((d.store.queue k).map StoredEnvelope.messageId).Nodup) :
    FetchesBodies k d s ↔ SparesBodies w s := by
  refine ⟨?_, ?_⟩
  · intro hfetches
    -- the run drained a message of the same body, somewhere from its start on
    have hdrained : ∀ i x, w.full[i]? = some x → w.evicted ≤ i →
        i < w.evicted + w.queue.length → x.envelope.body.bodyCid ≠ "" →
        ∃ j y, w.queue[j]? = some y ∧ s.start.toNat ≤ j
          ∧ y.envelope.body = x.envelope.body ∧ s.Fetched y := by
      intro i x hi hge hlt hcid
      obtain ⟨env, henv, hsame, hfetched⟩ :=
        hfetches x ((h.mem_take_cursor x).mpr ⟨i, hi, hge, hlt⟩) hcid
      obtain ⟨j, y, hj, hle, rfl⟩ := (h.mem_envelopes env).mp henv
      exact ⟨j, y, hj, hle, hsame, hfetched⟩
    refine ⟨?_, ?_, ?_⟩
    · intro i x hi hge hlt
      by_contra hcid
      have hlen := (List.getElem?_eq_some_iff.mp hi).1
      obtain ⟨j, y, hj, hle, hsame, -⟩ := hdrained i x ((w.getElem?_full i x).mpr (Or.inl hi)) hge
        (by omega) hcid
      have hplace := place_inj h.nodup hj hi hsame
      omega
    · intro i x hi hge hle hcid
      have hlen := (List.getElem?_eq_some_iff.mp hi).1
      obtain ⟨j, y, hj, -, hsame, hfetched⟩ := hdrained i x ((w.getElem?_full i x).mpr (Or.inl hi))
        hge (by omega) hcid
      obtain rfl := place_inj h.nodup hj hi hsame
      rw [hi] at hj
      obtain rfl := Option.some.inj hj
      exact hfetched
    · intro j x hj hge hlt hcid
      have hx := (w.getElem?_full (w.queue.length + j) x).mpr (Or.inr ⟨j, rfl, hj⟩)
      obtain ⟨i, y, hi, hle, hsame, hfetched⟩ := hdrained _ x hx hge (by omega) hcid
      have hlen := (List.getElem?_eq_some_iff.mp hi).1
      refine ⟨i, y, hi, hle, ?_, hsame, hfetched⟩
      exact h.evicted_of_same hnodup hx hge ((w.getElem?_full i y).mpr (Or.inl hi)) (by omega) hsame
  · intro hspares x hx hcid
    obtain ⟨i, hi, hge, hlt⟩ := (h.mem_take_cursor x).mp hx
    rcases (w.getElem?_full i x).mp hi with hi | ⟨j, rfl, hj⟩
    · rcases Nat.lt_or_ge i s.start.toNat with hfront | hle
      · exact absurd (hspares.front i x hi hge hfront) hcid
      · exact ⟨x.envelope, (h.mem_envelopes _).mpr ⟨i, x, hi, hle, rfl⟩, rfl,
          hspares.drained i x hi hge hle hcid⟩
    · obtain ⟨i, y, hi, hle, -, hsame, hfetched⟩ :=
        hspares.stored j x hj hge (by omega) hcid
      exact ⟨y.envelope, (h.mem_envelopes _).mpr ⟨i, y, hi, hle, rfl⟩, hsame, hfetched⟩

omit [Crypto] in
/-- From the front and with nothing evicted, it is the fetches alone that matter. -/
theorem sparesBodies_of_start (hstart : s.start = 0) (hkept : w.evicted = 0) :
    SparesBodies w s ↔ ∀ x ∈ w.queue, x.envelope.body.bodyCid ≠ "" → s.Fetched x := by
  refine ⟨?_, ?_⟩
  · intro hspares x hx hcid
    obtain ⟨i, hi⟩ := List.mem_iff_getElem?.mp hx
    refine hspares.drained i x hi (by omega) ?_ hcid
    rw [hstart]
    exact Nat.zero_le i
  · intro hfetched
    refine ⟨?_, ?_, ?_⟩
    · intro i x _ _ hlt
      rw [hstart] at hlt
      exact absurd hlt (Nat.not_lt_zero i)
    · exact fun i x hi _ _ => hfetched x (List.mem_of_getElem? hi)
    · intro j x _ _ hlt
      omega

end Places

/-- **An ack keeps the bodies** exactly when the drain and what came since spare them. -/
theorem keepsBodies_iff_sparesBodies {acts : List DeskAct} {s : Session}
    (hs : (deskAfter selfId capacity k acts).stage = .cursorSaved s) :
    KeepsBodies k (deskAfter selfId capacity k acts) s
      ↔ SparesBodies (lastDrain k (deskHistory selfId capacity k acts)) s := by
  have hrun := (deskStands selfId capacity k acts).underway s (by rw [hs]; rfl)
  have hkept := kept_after selfId capacity (deskCalls selfId capacity k acts) k
  rw [← store_deskAfter] at hkept
  exact (keepsBodies_iff hs).trans (hrun.fetchesBodies_iff hkept.sound.nodup)

/--
**No body is discarded unread** exactly when every ack spares the bodies: by what the run's
drain found and from where on, what was evicted and stored since, and which bodies could be
fetched. From cursor 0 and with nothing evicted, each has to be fetched.
-/
theorem acksKeepBodies_iff (selfId : NodeId) (capacity : UInt64) (k : String)
    (acts : List DeskAct) :
    (Acks selfId capacity k (fun before => KeepsBodies k (deskAfter selfId capacity k before)) acts
      ↔ Acks selfId capacity k
        (fun before => SparesBodies (lastDrain k (deskHistory selfId capacity k before))) acts)
      ∧ ∀ before s, (deskAfter selfId capacity k before).stage = .cursorSaved s → s.start = 0 →
        evictedSinceDrain k (deskHistory selfId capacity k before) = 0 →
        (KeepsBodies k (deskAfter selfId capacity k before) s
          ↔ ∀ x ∈ (lastDrain k (deskHistory selfId capacity k before)).queue,
            x.envelope.body.bodyCid ≠ "" → s.Fetched x) := by
  refine ⟨⟨?_, ?_⟩, ?_⟩
  · intro h before act rest hcut hact s hs hacks
    exact (keepsBodies_iff_sparesBodies hs).mp (h before act rest hcut hact s hs hacks)
  · intro h before act rest hcut hact s hs hacks
    exact (keepsBodies_iff_sparesBodies hs).mpr (h before act rest hcut hact s hs hacks)
  · intro before s hs hstart hkept
    exact (keepsBodies_iff_sparesBodies hs).trans
      (sparesBodies_of_start hstart ((evicted_lastDrain _).trans hkept))

end Crypto

namespace Sample

/-- A ping with the CID of a body. -/
def withBody : Envelope where
  body := {
    first.body with
    bodyCid := "e3b0c44298fc1c149afbf4c8996fb92427ae41e4649b934ca495991b7852b855" }
  sig := bytes 64 <|
    0x6a8bd359517154ee9e3647b8c1fe7707d004c248304a8fe5d35f171471990977 * 2 ^ 256 +
    0x03c2719d0e2bc20d9be704887dcd894d214fd02b3e3da94bfd99c06cff541505

@[reducible] def bodyCrypto : Crypto := cryptoOn [
  (withBody, 0xe2583672d62b51e109c0b749d57965014fc8b2464dc4e471b1d9ce43042f1848)]

/-- A whole run that could not fetch the body. -/
def ackedUnfetched : List DeskAct :=
  [.deliver withBody 1, .inbox true none unreachable, .next, .next, .next]

/-- The run, once it has drained. -/
def unfetched : Session :=
  Desk.drain recipient.hex
    (@deskAfter bodyCrypto mailbox 2 recipient.hex (ackedUnfetched.take 1)) true none unreachable

theorem stage_ackedUnfetched : (@deskAfter bodyCrypto mailbox 2 recipient.hex
    (ackedUnfetched.take 4)).stage = .cursorSaved unfetched := by
  have hdrained : (@deskAfter bodyCrypto mailbox 2 recipient.hex (ackedUnfetched.take 2)).stage
      = .drained unfetched := rfl
  have hlists : @Session.Lists bodyCrypto unfetched := isOk_iff.mp (by decide +kernel)
  have hnext := @Desk.next_drained bodyCrypto recipient.hex _ _ hdrained hlists
  rw [show ackedUnfetched.take 4 = ackedUnfetched.take 2 ++ [.next] ++ [.next] from rfl,
    @deskAfter_concat bodyCrypto, @deskAfter_concat bodyCrypto, hnext]
  rfl

end Sample

/-- The run acks the message whose body it could not fetch. -/
theorem ack_discards_unfetched :
    ¬@Acks Sample.bodyCrypto Sample.mailbox 2 Sample.recipient.hex
      (fun before => @KeepsBodies Sample.bodyCrypto Sample.recipient.hex
        (@deskAfter Sample.bodyCrypto Sample.mailbox 2 Sample.recipient.hex before))
      Sample.ackedUnfetched := by
  intro h
  obtain ⟨env, -, hsame, content, hopen, -⟩ := h (Sample.ackedUnfetched.take 4) .next [] rfl rfl
    Sample.unfetched Sample.stage_ackedUnfetched (by decide +kernel) ⟨Sample.withBody, 1⟩
    (by decide +kernel) (by decide +kernel)
  have hcid : env.body.bodyCid ≠ "" := by
    rw [hsame]
    decide +kernel
  obtain ⟨_, hfetched⟩ := (openContent_ok hcid).mp ⟨content, hopen⟩
  cases hfetched

end CeMail
