import CeMail.Model.Network
import CeMail.Proof.ServiceRun
import CeMail.Proof.Wire

/-!
# Runs over the network

Whatever a client does, and whatever others do in its turns, only adds to what has happened.
So a service at some point of a run is the one left behind by the requests that reached its
address so far, and a blob that can be fetched is one somebody stored. A round trip is one
request more, the last so far, and its reply is the reply of the service at that point.
-/

namespace CeMail

open Effect

/-! ## What a transport keeps, its clients keep -/

/-- All operations of the transport keep a property of the network. -/
structure Transport.Keeps {Net : Type} (P : Net → Prop) (t : Transport Net) : Prop where
  put : ∀ bytes, Effect.Keeps P (t.putBlob bytes)
  get : ∀ cid, Effect.Keeps P (t.getBlob cid)
  request : ∀ «to» payload timeout, Effect.Keeps P (t.request «to» payload timeout)

section Keeps

variable {Net Cap : Type} {P : Net → Prop} {c : MailClient Net}

theorem Transport.Keeps.roundTrip [Bincode Cap] (h : c.transport.Keeps P) («to» : String)
    (req : MailRequest Cap) : Effect.Keeps P (c.roundTrip «to» req) :=
  (h.request _ _ _).bind fun _ => keeps_lift _

theorem Transport.Keeps.deliver [Crypto] [Bincode Cap] (h : c.transport.Keeps P)
    (opts : SendOptions Cap) (env : Envelope) : Effect.Keeps P (c.deliver opts env) := by
  refine (h.roundTrip _ _).bind fun reply => ?_
  cases reply with
  | delivered => exact keeps_pure _
  | _ => exact keeps_throw _

variable [Curve] [Crypto] [Aead]

theorem Transport.Keeps.putSealed (h : c.transport.Keeps P) (recipient : NodeId)
    (plaintext : List UInt8) (draw : Draw) :
    Effect.Keeps P (c.putSealed recipient plaintext draw) :=
  (keeps_lift _).bind fun _ => h.put _

theorem Transport.Keeps.storeBody (h : c.transport.Keeps P) (recipient : NodeId)
    (opts : SendOptions Cap) (draw : Draw) :
    Effect.Keeps P (c.storeBody recipient opts draw) := by
  unfold MailClient.storeBody
  split
  · exact (h.putSealed _ _ _).bind fun _ => keeps_pure _
  · refine Effect.Keeps.bind ?_ fun _ => keeps_pure _
    unfold MailClient.sealAndStore
    split
    · exact keeps_pure _
    · exact h.putSealed _ _ _

theorem Transport.Keeps.storeAttachments (h : c.transport.Keeps P) (recipient : NodeId)
    (draws : Nat → Draw) (i : Nat) (attachments : List Attachment) :
    Effect.Keeps P (c.storeAttachments recipient draws i attachments) := by
  induction attachments generalizing i with
  | nil => exact keeps_pure _
  | cons a rest ih =>
      exact (h.putSealed _ _ _).bind fun _ => (ih (i + 1)).bind fun _ => keeps_pure _

variable [Sha512]

theorem keeps_getSealed_of_get (h : ∀ cid, Effect.Keeps P (c.transport.getBlob cid))
    (cid : String) : Effect.Keeps P (c.getSealed cid) :=
  (h _).bind fun _ => (keeps_lift _).bind fun _ => keeps_lift _

theorem Transport.Keeps.openAttachment (h : c.transport.Keeps P) (env : Envelope) (i : Nat) :
    Effect.Keeps P (c.openAttachment env i) := by
  unfold MailClient.openAttachment
  split
  · exact keeps_throw _
  · split
    · exact keeps_throw _
    · exact (keeps_getSealed_of_get h.get _).bind fun _ => keeps_lift _

theorem Transport.Keeps.openAttachmentsFrom (h : c.transport.Keeps P) (env : Envelope)
    (i count : Nat) : Effect.Keeps P (c.openAttachmentsFrom env i count) := by
  induction count generalizing i with
  | zero => exact keeps_pure _
  | succ count ih =>
      exact (h.openAttachment env i).bind fun _ => (ih (i + 1)).bind fun _ => keeps_pure _

theorem Transport.Keeps.compose (h : c.transport.Keeps P) (opts : SendOptions Cap)
    (draws : Nat → Draw) (now : UInt64) : Effect.Keeps P (c.compose opts draws now) := by
  refine (keeps_lift _).bind fun recipient => (keeps_lift _).bind fun _ => ?_
  refine (h.storeBody recipient opts _).bind fun _ => ?_
  exact (h.storeAttachments _ _ _ _).bind fun _ => keeps_pure _

theorem keeps_openContent_of_get (h : ∀ cid, Effect.Keeps P (c.transport.getBlob cid))
    (env : Envelope) : Effect.Keeps P (c.openContent env) := by
  unfold MailClient.openContent
  split
  · exact keeps_pure _
  · refine (keeps_getSealed_of_get h _).bind fun plaintext => ?_
    split <;> exact keeps_pure _

/-- A batch is opened with fetches alone. -/
theorem keeps_composeMessages_of_get (h : ∀ cid, Effect.Keeps P (c.transport.getBlob cid))
    (envs : List Envelope) : Effect.Keeps P (c.composeMessages envs) := by
  induction envs with
  | nil => exact keeps_pure _
  | cons env envs ih =>
      unfold MailClient.composeMessages
      split
      · refine (keeps_orElse (keeps_openContent_of_get h env) _).bind fun _ => ?_
        exact ih.bind fun _ => keeps_pure _
      · exact ih

end Keeps

/-! ## What happens at one address -/

section Network

variable {Cap : Type}

/-- The request an event hands to the service at an address. -/
def NetEvent.callAt (address : String) : NetEvent Cap → Option (Call Cap)
  | .put _ => none
  | .request address' requester req now isRevoked =>
      if address' = address then some ⟨requester, req, now, isRevoked⟩ else none

/-- The blob an event stores. -/
def NetEvent.blob : NetEvent Cap → Option (List UInt8)
  | .put bytes => some bytes
  | .request .. => none

/-- The event that hands a request to the service at an address. -/
def Call.event (address : String) (c : Call Cap) : NetEvent Cap :=
  .request address c.requester c.request c.now c.isRevoked

theorem Call.callAt_event (address : String) (c : Call Cap) :
    (c.event address).callAt address = some c := if_pos rfl

/-- The requests that reached an address, oldest first. -/
def callsAt (address : String) (events : List (NetEvent Cap)) : List (Call Cap) :=
  events.filterMap (NetEvent.callAt address)

theorem callsAt_append (address : String) (events more : List (NetEvent Cap)) :
    callsAt address (events ++ more) = callsAt address events ++ callsAt address more :=
  List.filterMap_append

/-- All that happened on the first network has happened on the second. -/
structure Network.Extends (n n' : Network Cap) : Prop where
  start : n'.start = n.start
  past : n.past <+: n'.past

theorem Network.Extends.refl (n : Network Cap) : n.Extends n := ⟨rfl, List.prefix_rfl⟩

theorem Network.Extends.trans {n n' n'' : Network Cap} (h : n.Extends n') (h' : n'.Extends n'') :
    n.Extends n'' :=
  ⟨h'.start.trans h.start, h.past.trans h'.past⟩

theorem Network.extends_happen (n : Network Cap) (e : NetEvent Cap) : n.Extends (n.happen e) :=
  ⟨rfl, List.prefix_append _ _⟩

theorem callsAt_happen (n : Network Cap) (address : String) (c : Call Cap) :
    callsAt address (n.happen (c.event address)).past = callsAt address n.past ++ [c] := by
  show callsAt address (n.past ++ [c.event address]) = _
  rw [callsAt_append, callsAt, callsAt, List.filterMap_cons_some (Call.callAt_event address c),
    List.filterMap_nil]

theorem Network.Extends.callsAt {n n' : Network Cap} (h : n.Extends n') (address : String) :
    ∃ later, CeMail.callsAt address n'.past = CeMail.callsAt address n.past ++ later := by
  obtain ⟨more, hmore⟩ := h.past
  exact ⟨CeMail.callsAt address more, by rw [← hmore, callsAt_append]⟩

theorem Network.await_eq_ok {n n' : Network Cap} {turn : NetTurn Cap}
    (h : n.await = (.ok turn, n')) :
    n'.start = n.start ∧ n'.past = n.past ++ turn.others := by
  unfold Network.await at h
  split at h
  · cases h
  · cases h
    exact ⟨rfl, rfl⟩

theorem Network.extends_await (n : Network Cap) : n.Extends n.await.2 := by
  unfold Network.await
  split
  · exact Network.Extends.refl n
  · exact ⟨rfl, List.prefix_append _ _⟩

/-- Where a network started: no blobs, and services that have served nothing. -/
structure Shared.Fresh (s : Shared) : Prop where
  blobs : s.blobs = ∅
  services : ∀ address svc, s.services.lookup address = some svc →
    ∃ selfId capacity limits, svc = .start selfId capacity limits

variable [Crypto] [Iam Cap]

/-- The service at an address after an event handled what the event handed to it. -/
theorem service_step {s : Shared} {e : NetEvent Cap} {address : String} {svc' : MailService}
    (h : (s.step e).1.services.lookup address = some svc') :
    ∃ svc, s.services.lookup address = some svc
      ∧ svc' = Machine.final MailService.step svc (e.callAt address).toList := by
  cases e with
  | put bytes => exact ⟨svc', h, rfl⟩
  | request address' requester req now isRevoked =>
      unfold Shared.step at h
      unfold NetEvent.callAt
      dsimp only at h ⊢
      split at h
      · rename_i hnone
        refine ⟨svc', h, ?_⟩
        rw [if_neg]
        · rfl
        · intro heq
          subst heq
          rw [hnone] at h
          cases h
      · rename_i svc hsvc
        split at h
        · rename_i svc'' reply hhandle
          by_cases heq : address' = address
          · subst heq
            rw [AList.lookup_insert] at h
            obtain rfl := Option.some.inj h
            refine ⟨svc, hsvc, ?_⟩
            rw [if_pos rfl]
            exact (congrArg Prod.fst hhandle).symm
          · rw [AList.lookup_insert_ne (Ne.symm heq)] at h
            rw [if_neg heq]
            exact ⟨svc', h, rfl⟩
        · by_cases heq : address' = address
          · subst heq
            rw [AList.lookup_erase] at h
            cases h
          · rw [AList.lookup_erase_ne (Ne.symm heq)] at h
            rw [if_neg heq]
            exact ⟨svc', h, rfl⟩

/-- **A service is the one its requests left behind.** -/
theorem service_final {s : Shared} {events : List (NetEvent Cap)} {address : String}
    {svc' : MailService}
    (h : (Machine.final Shared.step s events).services.lookup address = some svc') :
    ∃ svc, s.services.lookup address = some svc
      ∧ svc' = Machine.final MailService.step svc (callsAt address events) := by
  induction events using List.reverseRecOn generalizing svc' with
  | nil => exact ⟨svc', h, rfl⟩
  | append_singleton events e ih =>
      rw [Machine.final_concat] at h
      obtain ⟨svc₁, hsvc₁, rfl⟩ := service_step h
      obtain ⟨svc, hsvc, rfl⟩ := ih hsvc₁
      refine ⟨svc, hsvc, ?_⟩
      rw [callsAt_append, Machine.final_append]
      unfold callsAt
      cases hcall : e.callAt address with
      | none => rw [List.filterMap_cons_none hcall, List.filterMap_nil]; rfl
      | some c => rw [List.filterMap_cons_some hcall, List.filterMap_nil]; rfl

/-- A request leaves the blobs. -/
theorem blobs_step_request (s : Shared) (address : String) (requester : NodeId)
    (req : MailRequest Cap) (now : UInt64) (isRevoked : NodeId → UInt64 → Bool) :
    (s.step (.request address requester req now isRevoked)).1.blobs = s.blobs := by
  unfold Shared.step
  dsimp only
  split
  · rfl
  · split <;> rfl

/-- **The blobs** are those that were stored, one after another. -/
theorem blobs_final (s : Shared) (events : List (NetEvent Cap)) :
    (Machine.final Shared.step s events).blobs = (events.filterMap NetEvent.blob).foldl
      (fun blobs bytes => blobs.insert (blobCid bytes) bytes) s.blobs := by
  induction events generalizing s with
  | nil => rfl
  | cons e events ih =>
      refine (ih _).trans ?_
      cases e with
      | put bytes => rfl
      | request address requester req now isRevoked =>
          rw [blobs_step_request]
          rfl

/-- **A blob under a CID** was stored by somebody, and the CID is its own. -/
theorem blob_final {s : Shared} (hs : s.blobs = ∅) {events : List (NetEvent Cap)} {cid : String}
    {bytes : List UInt8}
    (h : (Machine.final Shared.step s events).blobs.lookup cid = some bytes) :
    .put bytes ∈ events ∧ blobCid bytes = cid := by
  induction events using List.reverseRecOn with
  | nil =>
      rw [Machine.final_nil, hs] at h
      cases h
  | append_singleton events e ih =>
      rw [Machine.final_concat] at h
      generalize Machine.final Shared.step s events = s' at ih h
      have hkeep : s'.blobs.lookup cid = some bytes →
          .put bytes ∈ events ++ [e] ∧ blobCid bytes = cid := fun hold =>
        ⟨List.mem_append_left _ (ih hold).1, (ih hold).2⟩
      cases e with
      | put bytes' =>
          have hput : (s'.blobs.insert (blobCid bytes') bytes').lookup cid = some bytes := h
          by_cases heq : cid = blobCid bytes'
          · subst heq
            rw [AList.lookup_insert] at hput
            obtain rfl := Option.some.inj hput
            exact ⟨List.mem_append_right _ (List.mem_singleton_self _), rfl⟩
          · rw [AList.lookup_insert_ne heq] at hput
            exact hkeep hput
      | request address requester req now isRevoked =>
          rw [blobs_step_request] at h
          exact hkeep h

end Network

/-! ## The wire between a client and a service -/

instance : Bincode.Canonical MailRequest.Variant := by
  unfold MailRequest.instBincodeVariant
  refine Bincode.Canonical.via ?_
  intro n v h
  repeat' split at h
  all_goals rename_i hn; cases h
  all_goals exact hn.symm

instance {Cap : Type} [Bincode Cap] [Bincode.Canonical Cap] :
    ∀ v, Bincode.Canonical (MailRequest.Fields Cap v)
  | .deliver => inferInstanceAs (Bincode.Canonical (Envelope × List Cap))
  | .drain => inferInstanceAs (Bincode.Canonical (String × UInt64 × List Cap))
  | .ack => inferInstanceAs (Bincode.Canonical (String × UInt64 × List Cap))
  | .drainPage => inferInstanceAs (Bincode.Canonical (String × UInt64 × UInt64 × List Cap))
  | .putReceipt => inferInstanceAs (Bincode.Canonical (String × Receipt × List Cap))
  | .collectReceipts => inferInstanceAs (Bincode.Canonical (String × List Cap))

instance {Cap : Type} [Bincode Cap] [Bincode.Canonical Cap] :
    Bincode.Canonical (MailRequest Cap) := by
  unfold MailRequest.instBincode
  refine Bincode.Canonical.via ?_
  intro p r h
  obtain ⟨v, x⟩ := p
  cases h
  cases v <;> rfl

instance : Bincode.Canonical MailReply.Variant := by
  unfold MailReply.instBincodeVariant
  refine Bincode.Canonical.via ?_
  intro n v h
  repeat' split at h
  all_goals rename_i hn; cases h
  all_goals exact hn.symm

instance : ∀ v, Bincode.Canonical (MailReply.Fields v)
  | .delivered => inferInstanceAs (Bincode.Canonical Bool)
  | .drained => inferInstanceAs (Bincode.Canonical (List Envelope × UInt64))
  | .page => inferInstanceAs (Bincode.Canonical (List Envelope × UInt64 × Bool))
  | .acked => inferInstanceAs (Bincode.Canonical UInt64)
  | .receiptAccepted => inferInstanceAs (Bincode.Canonical Bool)
  | .receipts => inferInstanceAs (Bincode.Canonical (List Receipt))
  | .error => inferInstanceAs (Bincode.Canonical String)

instance : Bincode.Canonical MailReply := by
  unfold MailReply.instBincode
  refine Bincode.Canonical.via ?_
  intro p r h
  obtain ⟨v, x⟩ := p
  cases h
  cases v <;> rfl

section Handle

variable {Cap : Type} [Bincode Cap] [Bincode.Canonical Cap]

/-- What fits in memory is read back as it was sent. -/
theorem decode_encode_request {req : MailRequest Cap} (h : req.encode.length < 2 ^ 64) :
    MailRequest.decode req.encode = .ok req := by
  rw [MailRequest.decode, Bincode.deserialize, MailRequest.encode,
    Bincode.dec_enc_self (Bincode.Canonical.fits req h)]

theorem decode_encode_reply {reply : MailReply} (h : reply.encode.length < 2 ^ 64) :
    MailReply.decode reply.encode = .ok reply := by
  rw [MailReply.decode, Bincode.deserialize, MailReply.encode,
    Bincode.dec_enc_self (Bincode.Canonical.fits reply h)]

/-! ## The operations of a handle -/

omit [Bincode Cap] [Bincode.Canonical Cap] in
theorem runs_transmit {bytes bytes' : List UInt8} {n n' : Network Cap}
    (h : Runs (Network.transmit bytes) n bytes' n') :
    bytes' = bytes ∧ n' = n ∧ bytes.length < 2 ^ 64 := by
  unfold Network.transmit at h
  split at h
  · rename_i hlen
    obtain ⟨rfl, rfl⟩ := runs_pure.mp h
    exact ⟨rfl, rfl, hlen⟩
  · exact absurd h not_runs_throw

variable [Crypto] [Iam Cap]

omit [Bincode Cap] [Bincode.Canonical Cap] [Iam Cap] in
theorem runs_putBlob {bytes : List UInt8} {n n' : Network Cap} {cid : String}
    (h : Runs (Network.putBlob bytes) n cid n') :
    cid = blobCid bytes ∧ .put bytes ∈ n'.past := by
  obtain ⟨turn, n₁, -, hput⟩ := runs_bind.mp h
  cases hfate : turn.fate with
  | served =>
      rw [hfate] at hput
      obtain ⟨hcid, hpast⟩ := Prod.mk.inj (runs_act.mp hput)
      obtain rfl := Except.ok.inj hcid
      subst hpast
      exact ⟨rfl, List.mem_append_right _ (List.mem_singleton_self _)⟩
  | dropped | unanswered =>
      rw [hfate] at hput
      cases hput

omit [Bincode Cap] [Bincode.Canonical Cap] in
theorem runs_getBlob {cid : String} {n n' : Network Cap} {bytes : List UInt8}
    (h : Runs (Network.getBlob cid) n bytes n') : n'.shared.blobs.lookup cid = some bytes := by
  obtain ⟨turn, n₁, -, hget⟩ := runs_bind.mp h
  cases hfate : turn.fate with
  | served =>
      rw [hfate] at hget
      have hact := runs_act.mp hget
      split at hact
      · rename_i bytes' hlookup
        cases hact
        exact hlookup
      · cases hact
  | dropped | unanswered =>
      rw [hfate] at hget
      cases hget

omit [Bincode.Canonical Cap] in
/-- A request that is answered was handled by the service at its address. -/
theorem runs_request {me : NodeId} {address : String} {payload reply : List UInt8}
    {n n' : Network Cap} (h : Runs (Network.request me address payload) n reply n') :
    ∃ m, ∃ c : Call Cap, ∃ answer, n.Extends m ∧ n' = m.happen (c.event address)
      ∧ c.requester = me ∧ MailRequest.decode payload = .ok c.request ∧ payload.length < 2 ^ 64
      ∧ (m.shared.step (c.event address)).2 = some answer
      ∧ reply = answer.encode ∧ answer.encode.length < 2 ^ 64 := by
  obtain ⟨turn, m, hawait, hrest⟩ := runs_bind.mp h
  obtain ⟨hstart, hpast⟩ := Network.await_eq_ok (runs_act.mp hawait)
  have hextends : n.Extends m := ⟨hstart, hpast ▸ List.prefix_append _ _⟩
  cases hfate : turn.fate with
  | dropped =>
      rw [hfate] at hrest
      cases hrest
  | unanswered =>
      rw [hfate] at hrest
      obtain ⟨_, _, -, hrest⟩ := runs_bind.mp hrest
      obtain ⟨_, _, -, hrest⟩ := runs_bind.mp hrest
      obtain ⟨_, _, -, hrest⟩ := runs_bind.mp hrest
      cases hrest
  | served =>
      rw [hfate] at hrest
      obtain ⟨_, _, hsend, hdecodes⟩ := runs_bind.mp hrest
      obtain ⟨rfl, rfl, hlen⟩ := runs_transmit hsend
      obtain ⟨req, _, hlift, hserves⟩ := runs_bind.mp hdecodes
      obtain ⟨hdecode, rfl⟩ := runs_lift.mp hlift
      obtain ⟨answer, m', hserve, hreturns⟩ := runs_bind.mp hserves
      rw [if_neg (by decide)] at hreturns
      obtain ⟨rfl, rfl, hlen'⟩ := runs_transmit hreturns
      have hserved := runs_act.mp hserve
      unfold Network.serve at hserved
      dsimp only at hserved
      split at hserved
      · rename_i answer' hanswer
        cases hserved
        exact ⟨_, ⟨me, req, turn.now, turn.isRevoked⟩, answer, hextends, rfl, rfl, hdecode, hlen,
          hanswer, rfl, hlen'⟩
      · cases hserved

omit [Bincode.Canonical Cap] in
/-- **What happened has happened**: no operation takes anything back. -/
theorem keeps_handle (n : Network Cap) (me : NodeId) :
    (Network.handle me).Keeps n.Extends := by
  have hawait : Effect.Keeps n.Extends (act Network.await) :=
    keeps_act fun n' h => h.trans (Network.extends_await n')
  refine ⟨?_, ?_, ?_⟩
  · intro bytes
    refine hawait.bind fun turn => ?_
    have hput : ∀ n' : Network Cap, n.Extends n' → n.Extends (n'.happen (.put bytes)) :=
      fun n' h => h.trans (Network.extends_happen n' _)
    cases turn.fate with
    | dropped => exact keeps_throw _
    | unanswered => exact keeps_act hput
    | served => exact keeps_act hput
  · intro cid
    refine hawait.bind fun turn => ?_
    cases turn.fate with
    | dropped | unanswered => exact keeps_throw _
    | served =>
        refine keeps_act fun n' h => ?_
        split <;> exact h
  · intro address payload timeout
    refine hawait.bind fun turn => ?_
    have htransmit : ∀ bytes, Effect.Keeps n.Extends (Network.transmit bytes) := by
      intro bytes
      unfold Network.transmit
      split
      · exact keeps_pure _
      · exact keeps_throw _
    have hserve : ∀ req, Effect.Keeps n.Extends (act (Network.serve address me req turn)) := by
      intro req
      refine keeps_act fun n' h => ?_
      unfold Network.serve
      dsimp only
      split <;> exact h.trans (Network.extends_happen n' _)
    cases turn.fate with
    | dropped => exact keeps_throw _
    | served | unanswered =>
        refine (htransmit payload).bind fun _ => (keeps_lift _).bind fun req => ?_
        refine (hserve req).bind fun answer => ?_
        split
        · exact keeps_throw _
        · exact htransmit _

omit [Bincode Cap] [Bincode.Canonical Cap] in
/-- A service that answers is there, and this is its answer. -/
theorem answer_step {s : Shared} {c : Call Cap} {address : String} {answer : MailReply}
    (h : (s.step (c.event address)).2 = some answer) :
    ∃ svc, s.services.lookup address = some svc ∧ (svc.step c).2 = .ok answer := by
  unfold Shared.step Call.event at h
  dsimp only at h
  split at h
  · cases h
  · rename_i svc hsvc
    split at h
    · rename_i svc' reply hhandle
      obtain rfl := Option.some.inj h
      exact ⟨svc, hsvc, congrArg Prod.snd hhandle⟩
    · cases h

/-- An address where a service with these settings was started. -/
def Network.Hosts (n : Network Cap) (address : String) (selfId : NodeId) (capacity : UInt64)
    (limits : Limits) : Prop :=
  n.start.services.lookup address = some (.start selfId capacity limits)

omit [Bincode Cap] [Bincode.Canonical Cap] [Crypto] [Iam Cap] in
theorem Network.Hosts.extends {n n' : Network Cap} {address : String} {selfId : NodeId}
    {capacity : UInt64} {limits : Limits} (h : n.Hosts address selfId capacity limits)
    (hextends : n.Extends n') : n'.Hosts address selfId capacity limits := by
  rw [Network.Hosts, hextends.start]
  exact h

/--
**A round trip** is one request more at the address, the last so far, and its reply is what
the service answered that the requests before it left behind.
-/
theorem runs_roundTrip {c : MailClient (Network Cap)} {me : NodeId}
    (hc : c.transport = Network.handle me) {address : String} {selfId : NodeId}
    {capacity : UInt64} {limits : Limits} {req : MailRequest Cap} {reply : MailReply}
    {n n' : Network Cap} (hhosts : n.Hosts address selfId capacity limits)
    (h : Runs (c.roundTrip address req) n reply n') :
    ∃ before, ∃ call : Call Cap, call.requester = me ∧ call.request = req
      ∧ callsAt address n.past <+: before ∧ callsAt address n'.past = before ++ [call]
      ∧ ((serviceAfter selfId capacity limits before).step call).2 = .ok reply := by
  obtain ⟨bytes, n₁, hrequest, hlift⟩ := runs_bind.mp h
  obtain ⟨hdecode, rfl⟩ := runs_lift.mp hlift
  rw [hc] at hrequest
  obtain ⟨m, call, answer, hextends, rfl, hme, hreq, hlen, hanswer, rfl, hlen'⟩ :=
    runs_request hrequest
  rw [decode_encode_request hlen] at hreq
  rw [decode_encode_reply hlen'] at hdecode
  obtain rfl := Except.ok.inj hdecode
  obtain ⟨svc, hsvc, hstep⟩ := answer_step hanswer
  obtain ⟨svc₀, hsvc₀, rfl⟩ := service_final hsvc
  rw [hextends.start, show n.start.services.lookup address = _ from hhosts] at hsvc₀
  obtain rfl := Option.some.inj hsvc₀
  obtain ⟨later, hlater⟩ := hextends.callsAt address
  refine ⟨callsAt address m.past, call, hme, (Except.ok.inj hreq).symm, hlater ▸
    List.prefix_append _ _, callsAt_happen m address call, hstep⟩

omit [Bincode Cap] [Bincode.Canonical Cap] in
/-- What a service that is there answers is the answer. -/
theorem step_eq_of_answer {s : Shared} {c : Call Cap} {address : String} {svc : MailService}
    (hsvc : s.services.lookup address = some svc) {answer : MailReply}
    (hstep : (svc.step c).2 = .ok answer) : (s.step (c.event address)).2 = some answer := by
  unfold Shared.step Call.event
  dsimp only
  rw [hsvc]
  dsimp only
  unfold MailService.step at hstep
  rcases hhandle : svc.handle c.requester c.request c.now c.isRevoked with ⟨svc', result⟩
  rw [hhandle] at hstep
  obtain rfl : result = .ok answer := hstep
  rfl

omit [Bincode Cap] [Bincode.Canonical Cap] in
theorem lookup_of_answer {s : Shared} {c : Call Cap} {address : String} {svc svc' : MailService}
    (hsvc : s.services.lookup address = some svc) {answer : MailReply}
    (hstep : svc.step c = (svc', .ok answer)) :
    (s.step (c.event address)).1.services.lookup address = some svc' := by
  unfold Shared.step Call.event
  dsimp only
  rw [hsvc]
  dsimp only
  unfold MailService.step at hstep
  rw [hstep]
  exact AList.lookup_insert _

/-- A service answers a request with this reply, and there is room for both on the way. -/
structure MailService.Answers (svc : MailService) (call : Call Cap) (reply : MailReply) : Prop where
  fits : call.request.encode.length < 2 ^ 64
  answer : (svc.step call).2 = .ok reply
  fits_reply : reply.encode.length < 2 ^ 64

omit [Bincode.Canonical Cap] in
theorem MailService.answers_iff {svc : MailService} {call : Call Cap} {reply : MailReply} :
    svc.Answers call reply ↔ call.request.encode.length < 2 ^ 64 ∧ (svc.step call).2 = .ok reply
      ∧ reply.encode.length < 2 ^ 64 :=
  ⟨fun h => ⟨h.fits, h.answer, h.fits_reply⟩, fun h => ⟨h.1, h.2.1, h.2.2⟩⟩

instance (svc : MailService) (call : Call Cap) (reply : MailReply) :
    Decidable (svc.Answers call reply) := decidable_of_iff _ MailService.answers_iff.symm

omit [Bincode Cap] [Bincode.Canonical Cap] [Crypto] [Iam Cap] in
theorem runs_await {n : Network Cap} {turn : NetTurn Cap} {turns : List (NetTurn Cap)}
    (hturns : n.turns = turn :: turns) : Runs (act Network.await) n turn
      { n with past := n.past ++ turn.others, turns := turns } := by
  refine runs_act.mpr ?_
  unfold Network.await
  rw [hturns]

omit [Bincode Cap] [Bincode.Canonical Cap] [Iam Cap] in
/-- **A blob whose turn is served is stored**, under its CID. -/
theorem runs_putBlob_of_served {bytes : List UInt8} {n : Network Cap} {turn : NetTurn Cap}
    {turns : List (NetTurn Cap)} (hturns : n.turns = turn :: turns) (hfate : turn.fate = .served) :
    Runs (Network.putBlob bytes) n (blobCid bytes)
      (Network.happen { n with past := n.past ++ turn.others, turns := turns } (.put bytes)) := by
  refine runs_bind.mpr ⟨turn, _, runs_await hturns, ?_⟩
  rw [hfate]
  exact runs_act.mpr rfl

omit [Bincode Cap] [Bincode.Canonical Cap] in
/-- **A blob that is there is fetched** in a turn that is served. -/
theorem runs_getBlob_of_served {cid : String} {bytes : List UInt8} {n : Network Cap}
    {turn : NetTurn Cap} {turns : List (NetTurn Cap)} (hturns : n.turns = turn :: turns)
    (hfate : turn.fate = .served) (hblob : (Network.shared
      { n with past := n.past ++ turn.others, turns := turns }).blobs.lookup cid = some bytes) :
    Runs (Network.getBlob cid) n bytes
      { n with past := n.past ++ turn.others, turns := turns } := by
  refine runs_bind.mpr ⟨turn, _, runs_await hturns, ?_⟩
  rw [hfate]
  refine runs_act.mpr ?_
  rw [hblob]

/-- **A request whose turn is served is answered**, if there is a service and it answers. -/
theorem runs_roundTrip_of_served {c : MailClient (Network Cap)} {me : NodeId}
    (hc : c.transport = Network.handle me) {address : String} {req : MailRequest Cap}
    {n : Network Cap} {turn : NetTurn Cap} {turns : List (NetTurn Cap)}
    (hturns : n.turns = turn :: turns) (hfate : turn.fate = .served) {svc : MailService}
    (hsvc : (Network.shared
      { n with past := n.past ++ turn.others, turns := turns }).services.lookup address = some svc)
    {reply : MailReply} (h : svc.Answers ⟨me, req, turn.now, turn.isRevoked⟩ reply) :
    Runs (c.roundTrip address req) n reply
      (Network.happen { n with past := n.past ++ turn.others, turns := turns }
        (.request address me req turn.now turn.isRevoked)) := by
  obtain ⟨hlen, hstep, hlen'⟩ := h
  have htransmit : ∀ {bytes : List UInt8} (m : Network Cap), bytes.length < 2 ^ 64 →
      Runs (Network.transmit bytes) m bytes m := by
    intro bytes m hbytes
    unfold Network.transmit
    rw [if_pos hbytes]
    exact runs_pure.mpr ⟨rfl, rfl⟩
  refine runs_bind.mpr ⟨reply.encode, _, ?_, runs_lift.mpr ⟨decode_encode_reply hlen', rfl⟩⟩
  rw [hc]
  refine runs_bind.mpr ⟨turn, _, runs_await hturns, ?_⟩
  rw [hfate]
  refine runs_bind.mpr ⟨req.encode, _, htransmit _ hlen, ?_⟩
  refine runs_bind.mpr ⟨req, _, runs_lift.mpr ⟨decode_encode_request hlen, rfl⟩, ?_⟩
  refine runs_bind.mpr ⟨reply, Network.happen
    { n with past := n.past ++ turn.others, turns := turns }
    (.request address me req turn.now turn.isRevoked), runs_act.mpr ?_, ?_⟩
  · have hanswer := step_eq_of_answer hsvc hstep
    unfold Network.serve
    unfold Call.event at hanswer
    dsimp only at hanswer ⊢
    rw [hanswer]
  · rw [if_neg (by decide)]
    exact htransmit _ hlen'

end Handle

end CeMail
