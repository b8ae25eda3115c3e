import CeMail.Proof.Server

/-!
# The loop serves as the service does

Between a start of the process and its end the loop does with what it polls what the service
does with requests one after another: it handles each message that is a request once, in the
order received, on the store the ones before it left, and its replies are the service's,
but for those it could not send.
-/

namespace CeMail

section Serving

variable {Cap : Type} [Crypto] [Bincode Cap] [Iam Cap] {selfId : NodeId} {capacity : UInt64}

/-! ## What is read off a step -/

omit [Crypto] in
/-- The request that a step handles, with its reply token. -/
def Server.handled (s : Server Cap) : ServerEvent → List (UInt64 × Call Cap)
  | .handle now isRevoked =>
      match s.process with
      | some ⟨_, .serving (msg :: _) _⟩ =>
          (msg.request.map fun (token, requester, req) =>
            (token, ⟨requester, req, now, isRevoked⟩)).toList
      | _ => []
  | _ => []

omit [Crypto] [Bincode Cap] in
/-- The messages that a step polls. -/
def Server.polled (s : Server Cap) : ServerEvent → List AppMessage
  | .poll (some messages) =>
      match s.process with
      | some ⟨_, .polling⟩ => messages
      | _ => []
  | _ => []

/-- The messages of the batch that are not handled yet. -/
def ServePhase.left : ServePhase Cap → List AppMessage
  | .polling => []
  | .serving rest _ => rest
  | .replying _ rest _ => rest

/-- The reply that is not sent yet. -/
def ServePhase.unsent : ServePhase Cap → Option (Sent Cap)
  | .replying sent _ _ => some sent
  | _ => none

/-- The requests handled in a run from `s`. -/
def requestsHandled (selfId : NodeId) (capacity : UInt64) (s : Server Cap)
    (events : List ServerEvent) : List (UInt64 × Call Cap) :=
  (Machine.visits (Server.step selfId capacity) s events).flatMap fun v => v.1.handled v.2

/-- The messages polled in it. -/
def messagesPolled (selfId : NodeId) (capacity : UInt64) (s : Server Cap)
    (events : List ServerEvent) : List AppMessage :=
  (Machine.visits (Server.step selfId capacity) s events).flatMap fun v => v.1.polled v.2

/-- The replies sent in it. -/
def repliesSent (selfId : NodeId) (capacity : UInt64) (s : Server Cap)
    (events : List ServerEvent) : List (Sent Cap) :=
  (Machine.outputs (Server.step selfId capacity) s events).reduceOption

/-- What the service replies to these requests, one after another. -/
def repliesDue (svc : MailService) (requests : List (UInt64 × Call Cap)) : List (Sent Cap) :=
  (requests.zip (Machine.outputs MailService.step svc (requests.map Prod.snd))).filterMap
    fun (r, out) => out.toOption.map fun reply => ⟨r.1, r.2.request, reply⟩

omit [Bincode Cap] in
theorem repliesDue_concat {svc svc' : MailService} {requests : List (UInt64 × Call Cap)}
    {token : UInt64} {c : Call Cap} {reply : MailReply}
    (h : (Machine.final MailService.step svc (requests.map Prod.snd)).step c = (svc', .ok reply)) :
    repliesDue svc (requests ++ [(token, c)])
      = repliesDue svc requests ++ [⟨token, c.request, reply⟩] := by
  have hlen : requests.length
      = (Machine.outputs MailService.step svc (requests.map Prod.snd)).length := by
    rw [Machine.length_outputs, List.length_map]
  unfold repliesDue
  rw [List.map_append, Machine.outputs_append, List.zip_append hlen, List.filterMap_append]
  show _ ++ List.filterMap _ [((token, c), _)] = _
  rw [congrArg Prod.snd h]
  rfl

/-! ## A process serves in order -/

/-- What holds of a process that started at `s` with the service `svc₀`, and runs as `p` now. -/
structure InOrder (selfId : NodeId) (capacity : UInt64) (svc₀ : MailService) (s : Server Cap)
    (events : List ServerEvent) (p : ServeProcess Cap) : Prop where
  svc : p.svc = Machine.final MailService.step svc₀
    ((requestsHandled selfId capacity s events).map Prod.snd)
  polled : (messagesPolled selfId capacity s events).filterMap AppMessage.request
    = (requestsHandled selfId capacity s events).map (fun r => (r.1, r.2.requester, r.2.request))
      ++ p.phase.left.filterMap AppMessage.request
  sent : ∃ due, (repliesSent selfId capacity s events).Sublist due
    ∧ repliesDue svc₀ (requestsHandled selfId capacity s events) = due ++ p.phase.unsent.toList

section Step

variable {s : Server Cap} {events : List ServerEvent} {i : ServerEvent}

theorem requestsHandled_concat : requestsHandled selfId capacity s (events ++ [i])
    = requestsHandled selfId capacity s events
      ++ (Machine.final (Server.step selfId capacity) s events).handled i := by
  rw [requestsHandled, Machine.visits_concat, List.flatMap_append, List.flatMap_singleton]
  rfl

theorem messagesPolled_concat : messagesPolled selfId capacity s (events ++ [i])
    = messagesPolled selfId capacity s events
      ++ (Machine.final (Server.step selfId capacity) s events).polled i := by
  rw [messagesPolled, Machine.visits_concat, List.flatMap_append, List.flatMap_singleton]
  rfl

theorem repliesSent_concat : repliesSent selfId capacity s (events ++ [i])
    = repliesSent selfId capacity s events
      ++ (Server.step selfId capacity (Machine.final (Server.step selfId capacity) s events)
        i).2.toList := by
  rw [repliesSent, Machine.outputs_append, List.reduceOption_append]
  show _ ++ [_].reduceOption = _
  rw [List.reduceOption_singleton]
  rfl

variable {svc₀ svc : MailService} {file : Option (List UInt8)} {p p' : ServeProcess Cap}

omit [Crypto] [Iam Cap] in
theorem handled_request {msg : AppMessage} {rest : List AppMessage} {dirty : Bool}
    {token : UInt64} {c : Call Cap} (hreq : msg.request = some (token, c.requester, c.request)) :
    (⟨file, some ⟨svc, .serving (msg :: rest) dirty⟩⟩ : Server Cap).handled
      (.handle c.now c.isRevoked) = [(token, c)] := by
  unfold Server.handled
  dsimp only
  rw [hreq]
  rfl

omit [Crypto] [Iam Cap] in
theorem handled_none {msg : AppMessage} {rest : List AppMessage} {dirty : Bool} {now : UInt64}
    {isRevoked : NodeId → UInt64 → Bool}
    (hreq : (msg.request : Option (UInt64 × NodeId × MailRequest Cap)) = none) :
    (⟨file, some ⟨svc, .serving (msg :: rest) dirty⟩⟩ : Server Cap).handled
      (.handle now isRevoked) = [] := by
  unfold Server.handled
  dsimp only
  rw [hreq]
  rfl

/-- A step that at most polls. -/
theorem InOrder.stay (h : InOrder selfId capacity svc₀ s events p)
    (hs : Machine.final (Server.step selfId capacity) s events = ⟨file, some p⟩)
    (hhandled : (⟨file, some p⟩ : Server Cap).handled i = [])
    (hsent : (Server.step selfId capacity ⟨file, some p⟩ i).2 = none) (hsvc : p'.svc = p.svc)
    (hleft : p'.phase.left.filterMap AppMessage.request
      = (p.phase.left ++ (⟨file, some p⟩ : Server Cap).polled i).filterMap
        (@AppMessage.request Cap _))
    (hunsent : p'.phase.unsent = p.phase.unsent) :
    InOrder selfId capacity svc₀ s (events ++ [i]) p' := by
  obtain ⟨due, hdue, hall⟩ := h.sent
  have hrequests : requestsHandled selfId capacity s (events ++ [i])
      = requestsHandled selfId capacity s events := by
    rw [requestsHandled_concat, hs, hhandled, List.append_nil]
  refine ⟨?_, ?_, due, ?_, ?_⟩
  · rw [hrequests, hsvc]
    exact h.svc
  · rw [hrequests, messagesPolled_concat, hs, List.filterMap_append, h.polled, hleft,
      List.filterMap_append, List.append_assoc]
  · rw [repliesSent_concat, hs, hsent, Option.toList_none, List.append_nil]
    exact hdue
  · rw [hrequests, hunsent]
    exact hall

/-- A request is handled: the service answers it, and the reply waits to be sent. -/
theorem InOrder.answer {msg : AppMessage} {rest : List AppMessage} {dirty dirty' : Bool}
    (h : InOrder selfId capacity svc₀ s events ⟨svc, .serving (msg :: rest) dirty⟩)
    (hs : Machine.final (Server.step selfId capacity) s events
      = ⟨file, some ⟨svc, .serving (msg :: rest) dirty⟩⟩) {token : UInt64} {c : Call Cap}
    {svc' : MailService} {reply : MailReply}
    (hreq : msg.request = some (token, c.requester, c.request))
    (hstep : svc.step c = (svc', .ok reply)) :
    InOrder selfId capacity svc₀ s (events ++ [.handle c.now c.isRevoked])
      ⟨svc', .replying ⟨token, c.request, reply⟩ rest dirty'⟩ := by
  obtain ⟨due, hdue, hall⟩ := h.sent
  have hrequests : requestsHandled selfId capacity s (events ++ [.handle c.now c.isRevoked])
      = requestsHandled selfId capacity s events ++ [(token, c)] := by
    rw [requestsHandled_concat, hs, handled_request hreq]
  have hlast : (Machine.final MailService.step svc₀
      ((requestsHandled selfId capacity s events).map Prod.snd)).step c = (svc', .ok reply) :=
    h.svc ▸ hstep
  refine ⟨?_, ?_, due, ?_, ?_⟩
  · rw [hrequests, List.map_append]
    exact (congrArg Prod.fst hlast).symm.trans (Machine.final_concat _ c).symm
  · rw [hrequests, messagesPolled_concat, hs, List.map_append, List.append_assoc]
    refine (congrArg _ (List.append_nil _)).trans (h.polled.trans (congrArg _ ?_))
    show (msg :: rest).filterMap AppMessage.request = _ :: rest.filterMap AppMessage.request
    rw [List.filterMap_cons_some hreq]
  · rw [repliesSent_concat, hs]
    exact (List.append_nil (repliesSent selfId capacity s events)).symm ▸ hdue
  · rw [hrequests, repliesDue_concat hlast, hall]
    exact congrArg (· ++ _) (List.append_nil due)

/-- The reply that waits is sent, or lost. -/
theorem InOrder.reply {sent : Sent Cap} {rest : List AppMessage} {dirty delivered : Bool}
    (h : InOrder selfId capacity svc₀ s events ⟨svc, .replying sent rest dirty⟩)
    (hs : Machine.final (Server.step selfId capacity) s events
      = ⟨file, some ⟨svc, .replying sent rest dirty⟩⟩) :
    InOrder selfId capacity svc₀ s (events ++ [.reply delivered])
      ⟨svc, .serving rest dirty⟩ := by
  obtain ⟨due, hdue, hall⟩ := h.sent
  have hrequests : requestsHandled selfId capacity s (events ++ [.reply delivered])
      = requestsHandled selfId capacity s events := by
    rw [requestsHandled_concat]
    exact List.append_nil _
  refine ⟨?_, ?_, due ++ [sent], ?_, ?_⟩
  · rw [hrequests]
    exact h.svc
  · rw [hrequests, messagesPolled_concat]
    exact (congrArg _ (List.append_nil _)).trans h.polled
  · rw [repliesSent_concat, hs]
    refine hdue.append ?_
    cases delivered with
    | true => exact List.Sublist.refl _
    | false => exact List.nil_sublist _
  · rw [hrequests, hall]
    exact (List.append_nil _).symm

/-- **One step of a process that lives on.** -/
theorem InOrder.step (h : InOrder selfId capacity svc₀ s events p)
    (hs : Machine.final (Server.step selfId capacity) s events = ⟨file, some p⟩)
    (hs' : (Server.step selfId capacity ⟨file, some p⟩ i).1.process = some p') :
    InOrder selfId capacity svc₀ s (events ++ [i]) p' := by
  obtain ⟨svc, phase⟩ := p
  have hstay : (Server.step selfId capacity ⟨file, some ⟨svc, phase⟩⟩ i)
        = ((⟨file, some ⟨svc, phase⟩⟩ : Server Cap), none) →
      (⟨file, some ⟨svc, phase⟩⟩ : Server Cap).handled i = [] →
      (⟨file, some ⟨svc, phase⟩⟩ : Server Cap).polled i = [] →
      InOrder selfId capacity svc₀ s (events ++ [i]) p' := by
    intro hidle hhandled hpolled
    rw [hidle] at hs'
    obtain rfl := Option.some.inj hs'
    refine h.stay hs hhandled (congrArg Prod.snd hidle) rfl ?_ rfl
    rw [hpolled, List.append_nil]
  cases i with
  | poll messages =>
      cases phase with
      | polling =>
          cases messages with
          | none => exact hstay rfl rfl rfl
          | some messages =>
              obtain rfl := Option.some.inj hs'
              exact h.stay hs rfl rfl rfl rfl rfl
      | serving rest dirty => exact hstay rfl rfl (by cases messages <;> rfl)
      | replying sent rest dirty => exact hstay rfl rfl (by cases messages <;> rfl)
  | handle now isRevoked =>
      cases phase with
      | polling => exact hstay rfl rfl rfl
      | replying sent rest dirty => exact hstay rfl rfl rfl
      | serving messages dirty =>
          cases messages with
          | nil => exact hstay rfl rfl rfl
          | cons msg rest =>
              have hserve : svc.serve msg rest dirty now isRevoked = some p' := hs'
              cases hreq : (msg.request : Option (UInt64 × NodeId × MailRequest Cap)) with
              | none =>
                  rw [MailService.serve, hreq] at hserve
                  obtain rfl := Option.some.inj hserve
                  refine h.stay hs ?_ rfl rfl ?_ rfl
                  · exact handled_none hreq
                  · show rest.filterMap AppMessage.request
                      = ((msg :: rest) ++ []).filterMap AppMessage.request
                    rw [List.append_nil, List.filterMap_cons_none hreq]
              | some r =>
                  obtain ⟨token, requester, request⟩ := r
                  cases hstep : svc.step (⟨requester, request, now, isRevoked⟩ : Call Cap) with
                  | mk svc' out =>
                      have hhandle : svc.handle requester request now isRevoked = (svc', out) :=
                        hstep
                      cases out with
                      | error panic =>
                          rw [MailService.serve, hreq] at hserve
                          simp only [hhandle] at hserve
                          cases hserve
                      | ok reply =>
                          rw [MailService.serve_of_step hreq hstep] at hserve
                          obtain rfl := Option.some.inj hserve
                          exact h.answer hs hreq hstep
  | reply delivered =>
      cases phase with
      | polling => exact hstay rfl rfl rfl
      | serving rest dirty => exact hstay rfl rfl rfl
      | replying sent rest dirty =>
          obtain rfl := Option.some.inj hs'
          exact h.reply hs
  | persist written =>
      cases phase with
      | polling => exact hstay rfl rfl rfl
      | replying sent rest dirty => exact hstay rfl rfl rfl
      | serving messages dirty =>
          cases messages with
          | cons msg rest => exact hstay rfl rfl rfl
          | nil =>
              obtain rfl := Option.some.inj hs'
              exact h.stay hs rfl rfl rfl rfl rfl
  | crash => cases hs'
  | restart => exact hstay rfl rfl rfl

omit [Crypto] [Bincode Cap] [Iam Cap] in
theorem eq_of_process (h : s.process = some p) : s = ⟨s.file, some p⟩ := by
  rw [← h]

/-- Without a restart a process that runs has run all the time. -/
theorem process_before (hi : i ≠ .restart) (hs' : (Server.step selfId capacity s i).1.process
    = some p') : ∃ p, s.process = some p := by
  obtain ⟨file, process⟩ := s
  cases process with
  | some p => exact ⟨p, rfl⟩
  | none =>
      cases i with
      | restart => exact absurd rfl hi
      | poll messages => cases messages <;> cases hs'
      | _ => cases hs'

end Step

/-- A process that runs has served in order since it started. -/
theorem inOrder (svc₀ : MailService) (file : Option (List UInt8)) {events : List ServerEvent}
    (halive : ServerEvent.restart ∉ events) {p : ServeProcess Cap}
    (hp : (Machine.final (Server.step selfId capacity) ⟨file, some ⟨svc₀, .polling⟩⟩ events).process
      = some p) :
    InOrder selfId capacity svc₀ ⟨file, some ⟨svc₀, .polling⟩⟩ events p := by
  induction events using List.reverseRecOn generalizing p with
  | nil =>
      obtain rfl := Option.some.inj hp
      exact ⟨rfl, rfl, [], List.Sublist.refl _, rfl⟩
  | append_singleton events i ih =>
      rw [List.mem_append, not_or] at halive
      rw [Machine.final_concat] at hp
      obtain ⟨p', hp'⟩ := process_before (fun h => halive.2 (h ▸ List.mem_singleton_self _)) hp
      rw [eq_of_process hp'] at hp
      exact (ih halive.1 hp').step (eq_of_process hp') hp

/--
**The loop serves as the service does.** Let a process start with the service its file gives
it, and still run after some events. Then the messages it polled that are requests are
those it handled, in the order polled, and those left of the batch; its service is
what handling them one after another leaves; and the replies it sent are the replies the service
gives to them, in that order, but for some that were lost.
-/
theorem serves_in_order (file : Option (List UInt8)) {svc₀ : MailService}
    (hload : Server.load selfId capacity file = some (⟨svc₀, .polling⟩ : ServeProcess Cap))
    {events : List ServerEvent} (halive : .restart ∉ events) {p : ServeProcess Cap}
    (hp : (Machine.final (Server.step selfId capacity) (.down file) (.restart :: events)).process
      = some p) :
    let started : Server Cap := ⟨file, some ⟨svc₀, .polling⟩⟩
    let requests := requestsHandled selfId capacity started events
    (messagesPolled selfId capacity started events).filterMap AppMessage.request
        = requests.map (fun r => (r.1, r.2.requester, r.2.request))
          ++ p.phase.left.filterMap AppMessage.request
      ∧ p.svc = Machine.final MailService.step svc₀ (requests.map Prod.snd)
      ∧ (repliesSent selfId capacity started events).Sublist (repliesDue svc₀ requests) := by
  have hstart : (Server.step selfId capacity (.down file : Server Cap) .restart).1
      = (⟨file, some ⟨svc₀, .polling⟩⟩ : Server Cap) := by
    show (⟨file, Server.load selfId capacity file⟩ : Server Cap) = _
    rw [hload]
  rw [Machine.final, hstart] at hp
  obtain ⟨hsvc, hpolled, due, hdue, hall⟩ := inOrder svc₀ file halive hp
  exact ⟨hpolled, hsvc, hall ▸ hdue.trans (List.sublist_append_left due _)⟩

end Serving

namespace Sample

/-- Another delivery, with a token of its own. -/
def deliveringNext : AppMessage := { delivering second with replyToken := some 8 }

/-- Two deliveries in one batch, of which the first is handled and answered. -/
def oneOfTwo : List ServerEvent :=
  [.poll (some [delivering first, deliveringNext]), .handle 1 fun _ _ => false, .reply true]

theorem node_oneOfTwo :
    node (.restart :: oneOfTwo) = ⟨none, some ⟨served, .serving [deliveringNext] true⟩⟩ := by
  have hhandled : node ([.restart, .poll (some [delivering first, deliveringNext])]
      ++ [.handle 1 fun _ _ => false])
        = ⟨none, some ⟨served, .replying ⟨7, (delivery first).request, .delivered false⟩
          [deliveringNext] true⟩⟩ := by
    rw [node_concat]
    exact congrArg (Server.mk none) (serve_delivering [deliveringNext])
  have hcut : (.restart :: oneOfTwo : List ServerEvent)
      = [.restart, .poll (some [delivering first, deliveringNext])]
        ++ [.handle 1 fun _ _ => false] ++ [.reply true] := rfl
  rw [hcut, node_concat, hhandled]
  rfl

end Sample

/-- The theorem for a process that was asked for two deliveries at once and answered one. -/
theorem serves_in_order_sample :
    let started : Server (NodeId × NodeId) := ⟨none, some ⟨Sample.fresh, .polling⟩⟩
    let requests := @requestsHandled (NodeId × NodeId) Sample.crypto _ Sample.iam Sample.mailbox 1
      started Sample.oneOfTwo
    ∃ p, (Sample.node (.restart :: Sample.oneOfTwo)).process = some p
      ∧ p.phase.left = [Sample.deliveringNext]
      ∧ (@messagesPolled (NodeId × NodeId) Sample.crypto _ Sample.iam Sample.mailbox 1 started
          Sample.oneOfTwo).filterMap (@AppMessage.request (NodeId × NodeId) _)
        = requests.map (fun r => (r.1, r.2.requester, r.2.request))
          ++ p.phase.left.filterMap AppMessage.request
      ∧ p.svc = Machine.final (@MailService.step _ Sample.crypto Sample.iam) Sample.fresh
        (requests.map Prod.snd)
      ∧ (@repliesSent (NodeId × NodeId) Sample.crypto _ Sample.iam Sample.mailbox 1 started
          Sample.oneOfTwo).Sublist
        (@repliesDue _ Sample.crypto Sample.iam Sample.fresh requests) := by
  intro started requests
  have hp : (Sample.node (.restart :: Sample.oneOfTwo)).process
      = some ⟨Sample.served, .serving [Sample.deliveringNext] true⟩ :=
    congrArg Server.process Sample.node_oneOfTwo
  exact ⟨_, hp, rfl, @serves_in_order _ Sample.crypto _ Sample.iam Sample.mailbox 1 none
    Sample.fresh rfl _ (by simp [Sample.oneOfTwo]) _ hp⟩

end CeMail
