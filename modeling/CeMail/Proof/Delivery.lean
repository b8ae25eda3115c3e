import CeMail.Proof.Client
import CeMail.Proof.Custody
import CeMail.Proof.Network
import CeMail.Proof.Oversized
import CeMail.Proof.ReceiptBox
import CeMail.Proof.Server

/-!
# From sender to recipient

Two clients on one network, and anything else happening between and around what they do.
What `send` reports as sent is in the recipient's next drain, once and as it was sent, or a
body that could not be fetched is empty, or somebody took the mail from the mailbox before.

A blob is known by its CID and mail by its id, so what arrives is what was sent as far as
SHA-256 tells apart what it was applied to on this network.
-/

namespace CeMail

open Effect

/-! ## A batch -/

/-- Where keys do not repeat, one item has the key of an item that is there. -/
theorem filter_key_eq {α β : Type} [DecidableEq β] {f : α → β} {l : List α}
    (hnd : (l.map f).Nodup) {a : α} (h : a ∈ l) : l.filter (fun x => f x = f a) = [a] := by
  induction l with
  | nil => cases h
  | cons b l ih =>
      rw [List.map_cons, List.nodup_cons] at hnd
      rcases List.mem_cons.mp h with rfl | h
      · rw [List.filter_cons_of_pos (by simp)]
        refine congrArg _ (List.filter_eq_nil_iff.mpr ?_)
        intro x hx heq
        exact hnd.1 (of_decide_eq_true heq ▸ List.mem_map_of_mem hx)
      · have hne : f b ≠ f a := by
          intro heq
          exact hnd.1 (heq ▸ List.mem_map_of_mem h)
        rw [List.filter_cons_of_neg (by simpa using hne), ih hnd.2 h]

section Batch

variable {Net Cap : Type} {c : MailClient Net} [Curve] [Sha512] [Crypto] [Aead]

/-- The messages of a batch are those of its envelopes that verify, in order. -/
theorem envelopes_composeMessages {envs : List Envelope} {messages : List Message} {net net' : Net}
    (h : Runs (c.composeMessages envs) net messages net') :
    messages.map Message.envelope = envs.filter fun e => e.verify = .ok () := by
  induction envs generalizing messages net with
  | nil =>
      obtain ⟨rfl, rfl⟩ := runs_pure.mp h
      rfl
  | cons env envs ih =>
      unfold MailClient.composeMessages at h
      split at h
      · rename_i hverify
        obtain ⟨content, net₁, -, hrest⟩ := runs_bind.mp h
        obtain ⟨rest, net₂, htail, hpure⟩ := runs_bind.mp hrest
        obtain ⟨rfl, rfl⟩ := runs_pure.mp hpure
        rw [List.filter_cons_of_pos (by simpa using hverify), List.map_cons, ih htail]
      · rename_i hverify
        rw [List.filter_cons_of_neg (by simpa using hverify)]
        exact ih h

/-- The first message of a batch, and the others after it. -/
theorem runs_composeMessages_cons {n n₁ n₂ : Net} {env : Envelope} (hverify : env.verify = .ok ())
    {content : List UInt8 × Option String} (hopen : Runs (c.openContent env) n content n₁)
    {envs : List Envelope} {messages : List Message}
    (hrest : Runs (c.composeMessages envs) n₁ messages n₂) :
    Runs (c.composeMessages (env :: envs)) n (⟨env, content.1, content.2⟩ :: messages) n₂ := by
  have hfirst : Runs (orElse (c.openContent env) ([], none)) n content n₁ := by
    unfold Runs
    rw [run_orElse, hopen]
  rw [MailClient.composeMessages, if_pos hverify]
  exact runs_bind.mpr ⟨content, n₁, hfirst, runs_bind.mpr ⟨messages, n₂, hrest, rfl⟩⟩

/-- A message without a body is opened without the network. -/
theorem runs_openContent_bare (n : Net) {env : Envelope} (hcid : env.body.bodyCid = "") :
    Runs (c.openContent env) n ([], none) n := by
  unfold MailClient.openContent
  rw [if_pos hcid]
  rfl

end Batch

section Network

variable {Cap : Type}

/-- What the body blob of a message holds. -/
def SendOptions.plaintext (opts : SendOptions Cap) : List UInt8 :=
  if opts.sealSubject then BodyContent.encode ⟨opts.subject, opts.body⟩ else opts.body

/-- What a message is opened to: its body, and its subject if that was sealed. -/
def SendOptions.content (opts : SendOptions Cap) : List UInt8 × Option String :=
  (opts.body, if opts.sealSubject then some opts.subject else none)

variable [Bincode Cap] [Crypto] [Iam Cap]

/-- SHA-256 tells apart the blobs stored and the bodies delivered so far. -/
structure Network.Collisionless (n : Network Cap) : Prop where
  blobs : Set.InjOn blobCid {bytes | .put bytes ∈ n.past}
  bodies : Set.InjOn messageId {body | ∃ address, ∃ call : Call Cap, ∃ e grant,
    call.event address ∈ n.past ∧ call.request = .deliver e grant ∧ e.body = body}

variable [Curve] [Sha512] [Aead] {c : MailClient (Network Cap)} {me : NodeId}

omit [Curve] [Sha512] [Aead] in
theorem keeps_transport (hc : c.transport = Network.handle me) (n : Network Cap) :
    c.transport.Keeps n.Extends := hc ▸ keeps_handle n me

/-- The content of a message of a batch is what its envelope was opened to, or nothing. -/
theorem content_composeMessages (hc : c.transport = Network.handle me) {envs : List Envelope}
    {messages : List Message} {n n' : Network Cap}
    (h : Runs (c.composeMessages envs) n messages n') {m : Message} (hm : m ∈ messages) :
    (m.body, m.sealedSubject) = ([], none)
      ∨ ∃ n₁ n₂, n.Extends n₁ ∧ Runs (c.openContent m.envelope) n₁ (m.body, m.sealedSubject) n₂
        ∧ n₂.Extends n' := by
  induction envs generalizing messages n with
  | nil =>
      obtain ⟨rfl, rfl⟩ := runs_pure.mp h
      cases hm
  | cons env envs ih =>
      unfold MailClient.composeMessages at h
      split at h
      · obtain ⟨⟨body, sealedSubject⟩, n₁, hopen, hrest⟩ := runs_bind.mp h
        obtain ⟨rest, n₂, htail, hpure⟩ := runs_bind.mp hrest
        obtain ⟨rfl, rfl⟩ := runs_pure.mp hpure
        have hfirst := (keeps_orElse (keeps_openContent_of_get (keeps_transport hc n).get env)
          _).runs hopen (Network.Extends.refl n)
        have hlater := (keeps_composeMessages_of_get (keeps_transport hc n₁).get envs).runs htail
          (Network.Extends.refl n₁)
        rcases List.mem_cons.mp hm with rfl | hm
        · unfold Runs at hopen
          rw [run_orElse] at hopen
          split at hopen
          · rename_i content n₂ hrun
            obtain ⟨hcontent, rfl⟩ := Prod.mk.inj hopen
            obtain rfl := Except.ok.inj hcontent
            exact Or.inr ⟨n, n₂, Network.Extends.refl n, hrun, hlater⟩
          · obtain ⟨hcontent, -⟩ := Prod.mk.inj hopen
            exact Or.inl (Except.ok.inj hcontent).symm
        · rcases ih htail hm with hnone | ⟨m₁, m₂, hbefore, hrun, hafter⟩
          · exact Or.inl hnone
          · exact Or.inr ⟨m₁, m₂, hfirst.trans hbefore, hrun, hafter⟩
      · exact ih h hm

/-! ## Boxes -/

/-- A blob with this CID was stored, and it is a box that this seed opens to the plaintext. -/
structure SealedFor (seed : Bytes 32) (n : Network Cap) (cid : String) (plaintext : List UInt8) :
    Prop where
  stored : ∃ blob, .put blob ∈ n.past ∧ blobCid blob = cid
    ∧ (decodeSealed blob >>= SealedBody.open seed) = .ok plaintext
  length : plaintext.length < 2 ^ 64

omit [Bincode Cap] [Iam Cap] in
theorem SealedFor.extends {seed : Bytes 32} {n n' : Network Cap} {cid : String}
    {plaintext : List UInt8} (h : SealedFor seed n cid plaintext) (hextends : n.Extends n') :
    SealedFor seed n' cid plaintext := by
  obtain ⟨⟨blob, hput, hrest⟩, hlen⟩ := h
  exact ⟨⟨blob, hextends.past.subset hput, hrest⟩, hlen⟩

omit [Curve] [Sha512] [Aead] in
/-- A CID has 64 digits. -/
theorem blobCid_ne_empty (bytes : List UInt8) : blobCid bytes ≠ "" := by
  intro h
  have hnil := hexEncode_inj (b := []) h
  have hlen := (Crypto.sha256 bytes).property
  rw [hnil] at hlen
  cases hlen

variable {seed : Bytes 32} {n n' : Network Cap} {cid : String}

theorem sealedFor_putSealed (hc : c.transport = Network.handle me) {plaintext : List UInt8}
    {draw : Draw}
    (h : Runs (c.putSealed (ed25519PublicKey seed) plaintext draw) n cid n') :
    SealedFor seed n' cid plaintext := by
  obtain ⟨s, n₁, hlift, hput⟩ := runs_bind.mp h
  obtain ⟨hseal, rfl⟩ := runs_lift.mp hlift
  rw [hc] at hput
  obtain ⟨rfl, hstored⟩ := runs_putBlob hput
  cases henc : Aead.encrypt (openKey seed (ephemeralPublic draw.1)) draw.2 plaintext with
  | none =>
      rw [seal_of_encrypt_eq_none henc] at hseal
      cases hseal
  | some ciphertext =>
      rw [seal_of_encrypt henc] at hseal
      obtain rfl := Except.ok.inj hseal
      have hlen := Aead.length_encrypt henc
      exact ⟨⟨_, hstored, rfl, decode_open_of_encrypt henc⟩, Nat.lt_of_le_of_lt hlen.1 hlen.2⟩

/-- Whoever fetches a box by its CID gets its plaintext, if anything. -/
theorem plaintext_of_getSealed (hc : c.transport = Network.handle me) (hfresh : n.start.Fresh)
    {plaintext plaintext' : List UInt8} (h : Runs (c.getSealed cid) n plaintext n')
    {now : Network Cap} (hlater : n'.Extends now)
    (hbox : SealedFor c.identity.secretBytes now cid plaintext')
    (hblobs : Set.InjOn blobCid {bytes | .put bytes ∈ now.past}) : plaintext = plaintext' := by
  obtain ⟨bytes, n₁, hget, hrest⟩ := runs_bind.mp h
  obtain ⟨s, n₂, hlift, hlift'⟩ := runs_bind.mp hrest
  obtain ⟨hdecode, rfl⟩ := runs_lift.mp hlift
  obtain ⟨hopen, rfl⟩ := runs_lift.mp hlift'
  have hstart : n'.start.blobs = ∅ := by
    rw [(((keeps_transport hc n).get cid).runs hget (Network.Extends.refl n)).start]
    exact hfresh.blobs
  rw [hc] at hget
  obtain ⟨hput, hcid⟩ := blob_final hstart (runs_getBlob hget)
  obtain ⟨⟨blob, hput', hcid', hbox⟩, -⟩ := hbox
  obtain rfl := hblobs (hlater.past.subset hput) hput' (hcid.trans hcid'.symm)
  rw [hdecode] at hbox
  exact Except.ok.inj (hopen.symm.trans hbox)

/-! ## What an envelope carries -/

/-- An envelope body composed of a message, and its blobs as they were stored. -/
structure Composed (sender : NodeId) (seed : Bytes 32) (opts : SendOptions Cap) (now : UInt64)
    (n : Network Cap) (body : EnvelopeBody) : Prop where
  sender : body.from = sender.hex
  recipient : body.to = opts.to
  subject : body.subject = if opts.sealSubject then redactedSubject else opts.subject
  inReplyTo : body.inReplyTo = opts.inReplyTo
  sentAt : body.sentAt = now
  postageReceipt : body.postageReceipt = opts.postageReceipt
  bodyCid : body.bodyCid = "" ∧ opts.content = ([], none)
    ∨ SealedFor seed n body.bodyCid opts.plaintext
  attachmentCids : List.Forall₂ (fun a cid => SealedFor seed n cid a.encode) opts.attachments
    body.attachmentCids

omit [Bincode Cap] [Iam Cap] in
theorem Composed.extends {sender : NodeId} {opts : SendOptions Cap} {now : UInt64}
    {body : EnvelopeBody} (h : Composed sender seed opts now n body) (hextends : n.Extends n') :
    Composed sender seed opts now n' body :=
  { h with
    bodyCid := h.bodyCid.imp_right fun hbox => hbox.extends hextends
    attachmentCids := h.attachmentCids.imp fun _ _ hbox => hbox.extends hextends }

/-- One box for each attachment, in order. -/
theorem sealedFor_storeAttachments (hc : c.transport = Network.handle me) {draws : Nat → Draw}
    {i : Nat} {attachments : List Attachment} {cids : List String}
    (h : Runs (c.storeAttachments (ed25519PublicKey seed) draws i attachments) n cids n') :
    List.Forall₂ (fun a cid => SealedFor seed n' cid a.encode) attachments cids := by
  induction attachments generalizing i n cids with
  | nil =>
      obtain ⟨rfl, rfl⟩ := runs_pure.mp h
      exact List.Forall₂.nil
  | cons a rest ih =>
      obtain ⟨cid, n₁, hput, htail⟩ := runs_bind.mp h
      obtain ⟨cids', n₂, hrest, hpure⟩ := runs_bind.mp htail
      obtain ⟨rfl, rfl⟩ := runs_pure.mp hpure
      have hlater := ((keeps_transport hc n₁).storeAttachments _ draws (i + 1) rest).runs hrest
        (Network.Extends.refl n₁)
      exact .cons ((sealedFor_putSealed hc hput).extends hlater) (ih hrest)

theorem composed_of_runs (hc : c.transport = Network.handle me) {opts : SendOptions Cap}
    (hto : parseNodeId opts.to = .ok (ed25519PublicKey seed)) {draws : Nat → Draw} {now : UInt64}
    {env : Envelope} (h : Runs (c.compose opts draws now) n env n') :
    Composed c.identity.nodeId seed opts now n' env.body := by
  obtain ⟨-, bodyCid, subject, n₁, cids, hbody, hcids, rfl⟩ := (runs_compose hto).mp h
  have hlater := ((keeps_transport hc n₁).storeAttachments _ draws 1 opts.attachments).runs hcids
    (Network.Extends.refl n₁)
  unfold MailClient.storeBody at hbody
  split at hbody
  · rename_i hsealed
    obtain ⟨cid, n₂, hput, hpure⟩ := runs_bind.mp hbody
    obtain ⟨hpair, rfl⟩ := runs_pure.mp hpure
    obtain ⟨rfl, rfl⟩ := Prod.mk.inj hpair
    refine ⟨rfl, rfl, (if_pos hsealed).symm, rfl, rfl, rfl, Or.inr ?_,
      sealedFor_storeAttachments hc hcids⟩
    rw [SendOptions.plaintext, if_pos hsealed]
    exact (sealedFor_putSealed hc hput).extends hlater
  · rename_i hsealed
    obtain ⟨cid, n₂, hstore, hpure⟩ := runs_bind.mp hbody
    obtain ⟨hpair, rfl⟩ := runs_pure.mp hpure
    obtain ⟨rfl, rfl⟩ := Prod.mk.inj hpair
    refine ⟨rfl, rfl, (if_neg hsealed).symm, rfl, rfl, rfl, ?_, sealedFor_storeAttachments hc hcids⟩
    unfold MailClient.sealAndStore at hstore
    split at hstore
    · rename_i hempty
      obtain ⟨rfl, rfl⟩ := runs_pure.mp hstore
      rw [SendOptions.content, if_neg hsealed, hempty]
      exact Or.inl ⟨rfl, rfl⟩
    · rw [SendOptions.plaintext, if_neg hsealed]
      exact Or.inr ((sealedFor_putSealed hc hstore).extends hlater)

/-- **What an envelope is opened to** is what it was composed of. -/
theorem content_of_openContent (hc : c.transport = Network.handle me) (hfresh : n.start.Fresh)
    {env : Envelope} {content : List UInt8 × Option String}
    (h : Runs (c.openContent env) n content n') {later : Network Cap} (hlater : n'.Extends later)
    {sender : NodeId} {opts : SendOptions Cap} {now : UInt64}
    (hcomposed : Composed sender c.identity.secretBytes opts now later env.body)
    (hplain : opts.sealSubject = true ∨ ¬LooksStructured opts.body)
    (hblobs : Set.InjOn blobCid {bytes | .put bytes ∈ later.past}) : content = opts.content := by
  unfold MailClient.openContent at h
  rcases hcomposed.bodyCid with ⟨hempty, hcontent⟩ | hbox
  · rw [if_pos hempty] at h
    rw [(runs_pure.mp h).1, hcontent]
  · obtain ⟨blob, -, hcid, -⟩ := hbox.stored
    rw [if_neg (hcid ▸ blobCid_ne_empty blob)] at h
    obtain ⟨plaintext, n₁, hget, hrest⟩ := runs_bind.mp h
    have hsame : n₁ = n' := by
      split at hrest <;> exact (runs_pure.mp hrest).2.symm
    subst hsame
    obtain rfl := plaintext_of_getSealed hc hfresh hget hlater hbox hblobs
    -- the first bytes say which of the two formats it is
    rcases Bool.eq_false_or_eq_true opts.sealSubject with hsealed | hsealed
    · have hdec : BodyContent.tryDecode opts.plaintext = some ⟨opts.subject, opts.body⟩ := by
        refine (tryDecode_eq_some hbox.length).mpr ?_
        rw [SendOptions.plaintext, if_pos hsealed]
      rw [hdec] at hrest
      rw [(runs_pure.mp hrest).1, SendOptions.content, if_pos hsealed]
    · have hraw : opts.plaintext = opts.body := by
        rw [SendOptions.plaintext, hsealed]
        rfl
      have hdec : BodyContent.tryDecode opts.plaintext = none := by
        refine Option.eq_none_iff_forall_ne_some.mpr ?_
        intro content hcontent
        refine hplain.resolve_left (by rw [hsealed]; exact Bool.false_ne_true) ⟨content, ?_⟩
        rw [← hraw]
        exact (tryDecode_eq_some hbox.length).mp hcontent
      rw [hdec] at hrest
      rw [(runs_pure.mp hrest).1, SendOptions.content, hsealed, hraw]
      rfl

/-- The attachments opened from index `i` on are those that were stored there. -/
theorem eq_of_openAttachmentsFrom (hc : c.transport = Network.handle me) {env : Envelope}
    {attachments opened : List Attachment} {cids : List String} {later : Network Cap}
    (hbox : List.Forall₂ (fun a cid => SealedFor c.identity.secretBytes later cid a.encode)
      attachments cids) {i : Nat} (hcids : env.body.attachmentCids.drop i = cids)
    (hfresh : n.start.Fresh) (h : Runs (c.openAttachmentsFrom env i cids.length) n opened n')
    (hlater : n'.Extends later)
    (hblobs : Set.InjOn blobCid {bytes | .put bytes ∈ later.past}) : opened = attachments := by
  induction hbox generalizing i n opened with
  | nil => exact (runs_pure.mp h).1
  | @cons a cid attachments cids hfirst _ ih =>
      have hget : env.body.attachmentCids[i]? = some cid := by
        rw [← List.head?_drop, hcids, List.head?_cons]
      have hdrop : env.body.attachmentCids.drop (i + 1) = cids := by
        rw [← List.tail_drop, hcids, List.tail_cons]
      obtain ⟨a', n₁, hopen, hrest⟩ := runs_bind.mp h
      obtain ⟨rest, n₂, htail, hpure⟩ := runs_bind.mp hrest
      obtain ⟨rfl, rfl⟩ := runs_pure.mp hpure
      have hbefore := ((keeps_transport hc n).openAttachment env i).runs hopen
        (Network.Extends.refl n)
      have hafter := ((keeps_transport hc n₁).openAttachmentsFrom env (i + 1) _).runs htail
        (Network.Extends.refl n₁)
      refine congrArg₂ List.cons ?_ <| ih hdrop (hbefore.start ▸ hfresh) htail
      unfold MailClient.openAttachment at hopen
      rw [hget] at hopen
      dsimp only at hopen
      obtain ⟨blob, -, hcid, -⟩ := hfirst.stored
      rw [if_neg (hcid ▸ blobCid_ne_empty blob)] at hopen
      obtain ⟨plaintext, n₃, hsealed, hlift⟩ := runs_bind.mp hopen
      obtain ⟨hdecode, rfl⟩ := runs_lift.mp hlift
      obtain rfl := plaintext_of_getSealed hc hfresh hsealed (hafter.trans hlater) hfirst hblobs
      rw [Attachment.decode, Bincode.deserialize, Attachment.encode,
        Bincode.dec_enc_self (Bincode.Canonical.fits a hfirst.length)] at hdecode
      exact (Except.ok.inj hdecode).symm

/-! ## Mail -/

/-- The message is the one that was sent, with its content or, if that was not got, without. -/
structure SendOptions.ShownAs (opts : SendOptions Cap) (sender : NodeId) (now : UInt64)
    (m : Message) : Prop where
  sender : m.envelope.body.from = sender.hex
  recipient : m.envelope.body.to = opts.to
  inReplyTo : m.envelope.body.inReplyTo = opts.inReplyTo
  sentAt : m.envelope.body.sentAt = now
  postageReceipt : m.envelope.body.postageReceipt = opts.postageReceipt
  content : m.body = opts.body ∧ m.subject = opts.subject
    ∨ m.body = [] ∧ m.sealedSubject = none

omit [Bincode Cap] [Iam Cap] in
theorem Composed.shownAs {sender : NodeId} {opts : SendOptions Cap} {now : UInt64} {m : Message}
    (h : Composed sender seed opts now n m.envelope.body)
    (hcontent : (m.body, m.sealedSubject) = ([], none)
      ∨ (m.body, m.sealedSubject) = opts.content) : opts.ShownAs sender now m := by
  refine ⟨h.sender, h.recipient, h.inReplyTo, h.sentAt, h.postageReceipt, ?_⟩
  rcases hcontent with hnone | hsome
  · obtain ⟨hbody, hsealed⟩ := Prod.mk.inj hnone
    exact Or.inr ⟨hbody, hsealed⟩
  · obtain ⟨hbody, hsealed⟩ := Prod.mk.inj hsome
    refine Or.inl ⟨hbody, ?_⟩
    rw [Message.subject, hsealed, h.subject]
    cases opts.sealSubject <;> rfl

omit [Bincode Cap] [Crypto] [Iam Cap] [Curve] [Sha512] [Aead] in
theorem mem_past_of_mem_callsAt {address : String} {events : List (NetEvent Cap)} {call : Call Cap}
    (h : call ∈ callsAt address events) : call.event address ∈ events := by
  obtain ⟨e, he, hcall⟩ := List.mem_filterMap.mp h
  cases e with
  | put bytes => cases hcall
  | request address' requester req now isRevoked =>
      obtain ⟨rfl, rfl⟩ := Option.ite_none_right_eq_some.mp hcall |>.imp_right Option.some.inj
      exact he

variable {selfId : NodeId} {capacity : UInt64} {limits : Limits} [Bincode.Canonical Cap]

/-- What `send` reports as sent is an envelope the mailbox has, or had until it was taken. -/
theorem custody_of_send (hc : c.transport = Network.handle me) {opts : SendOptions Cap}
    (hhosts : n.Hosts opts.delivery.1 selfId capacity limits) {draws : Nat → Draw} {now : UInt64}
    {id : String} (h : Runs (c.send opts draws now) n id n') :
    ∃ env n₁, Runs (c.compose opts draws now) n env n₁ ∧ n₁.Extends n' ∧ env.messageId = id
      ∧ (∃ call : Call Cap, call ∈ callsAt opts.delivery.1 n'.past
        ∧ call.request = .deliver env opts.delivery.2)
      ∧ ((serviceAfter selfId capacity limits (callsAt opts.delivery.1 n'.past)).Queued opts.to id
        ∨ Taken selfId capacity limits (callsAt opts.delivery.1 n'.past) opts.to id) := by
  obtain ⟨env, n₁, hcompose, hdeliver⟩ := runs_bind.mp h
  rw [MailClient.deliver_eq] at hdeliver
  obtain ⟨reply, n₂, htrip, hreply⟩ := runs_bind.mp hdeliver
  have hlater := ((keeps_transport hc n).compose opts draws now).runs hcompose
    (Network.Extends.refl n)
  have hlater' := ((keeps_transport hc n₁).roundTrip _ _).runs htrip (Network.Extends.refl n₁)
  obtain ⟨before, call, -, hreq, -, hcalls, hanswer⟩ :=
    runs_roundTrip hc (hhosts.extends hlater) htrip
  cases reply with
  | delivered duplicate =>
      obtain ⟨rfl, rfl⟩ := runs_pure.mp hreply
      have hcustody := queued_or_taken_of_delivered hreq hanswer
      rw [(to_of_compose hcompose).1, ← hcalls] at hcustody
      refine ⟨env, n₁, hcompose, hlater', rfl, ⟨call, ?_, hreq⟩, hcustody⟩
      rw [hcalls]
      exact List.mem_append_right _ (List.mem_singleton_self _)
  | _ => exact absurd hreply not_runs_throw

omit [Bincode Cap] [Curve] [Sha512] [Aead] [Bincode.Canonical Cap] in
/-- A drain is answered with what the store reads from the cursor on. -/
theorem drained_of_answer {before : List (Call Cap)} {call : Call Cap} {k : String}
    {since cursor : UInt64} {grant : List Cap} {envelopes : List Envelope}
    (hreq : call.request = .drain k since grant)
    (hanswer : ((serviceAfter selfId capacity limits before).step call).2
      = .ok (.drained envelopes cursor)) :
    let read := (serviceAfter selfId capacity limits before).store.readFrom k since
    envelopes = read.1.map StoredEnvelope.envelope ∧ cursor = read.2 := by
  obtain ⟨-, hperform⟩ := MailService.ok_of_reply hanswer fun _ he => by cases he
  rw [hreq, MailService.perform] at hperform
  obtain ⟨henvelopes, hcursor⟩ := MailReply.drained.inj (Except.ok.inj hperform)
  exact ⟨henvelopes.symm, hcursor.symm⟩

omit [Bincode Cap] [Curve] [Sha512] [Aead] [Bincode.Canonical Cap] in
theorem verify_of_mem_queue {before : List (Call Cap)} {k : String} {x : StoredEnvelope}
    (h : x ∈ (serviceAfter selfId capacity limits before).store.queue k) :
    x.envelope.verify = .ok () := by
  exact ((kept_serviceAfter selfId capacity limits before k).addressed x h).1

/-- What a drain returns is the queue at the time from the cursor on, and a message for each. -/
theorem queue_of_drainInbox (hc : c.transport = Network.handle me) {address : String}
    (hhosts : n.Hosts address selfId capacity limits) {since : UInt64} {grant : List Cap}
    {messages : List Message} {cursor : UInt64}
    (h : Runs (c.drainInbox address since grant) n (messages, cursor) n') :
    ∃ before n₁, n.Extends n₁ ∧ callsAt address n.past <+: before
      ∧ before <+: callsAt address n'.past
      ∧ messages.map Message.envelope
        = (((serviceAfter selfId capacity limits before).store.queue
            c.identity.nodeId.hex).drop since.toNat).map StoredEnvelope.envelope
      ∧ ∃ envelopes, Runs (c.composeMessages envelopes) n₁ messages n' := by
  obtain ⟨reply, n₁, htrip, hreply⟩ := runs_bind.mp h
  have hlater := ((keeps_transport hc n).roundTrip _ _).runs htrip (Network.Extends.refl n)
  obtain ⟨before, call, -, hreq, hprefix, hcalls, hanswer⟩ := runs_roundTrip hc hhosts htrip
  cases reply with
  | drained envelopes cursor' =>
      obtain ⟨messages', n₂, hmessages, hpure⟩ := runs_bind.mp hreply
      obtain ⟨hpair, rfl⟩ := runs_pure.mp hpure
      obtain ⟨rfl, rfl⟩ := Prod.mk.inj hpair
      obtain ⟨later, hlater'⟩ := ((keeps_composeMessages_of_get (keeps_transport hc n₁).get
        envelopes).runs hmessages (Network.Extends.refl n₁)).callsAt address
      refine ⟨before, n₁, hlater, hprefix, ?_, ?_, envelopes, hmessages⟩
      · rw [hlater', hcalls, List.append_assoc]
        exact List.prefix_append _ _
      · -- the queue holds nothing that does not verify
        obtain ⟨henvelopes, -⟩ := drained_of_answer hreq hanswer
        rw [MailboxStore.readFrom_eq] at henvelopes
        rw [envelopes_composeMessages hmessages, ← henvelopes]
        refine List.filter_eq_self.mpr ?_
        intro e he
        rw [henvelopes] at he
        obtain ⟨x, hx, rfl⟩ := List.mem_map.mp he
        exact decide_eq_true (verify_of_mem_queue (List.mem_of_mem_drop hx))
  | _ => exact absurd hreply not_runs_throw

omit [Bincode Cap] [Curve] [Sha512] [Aead] [Bincode.Canonical Cap] in
/-- Mail that waits is one message of the drain, in an envelope that was delivered. -/
theorem message_of_queued {before : List (Call Cap)} {k id : String} {messages : List Message}
    (henvelopes : messages.map Message.envelope
      = ((serviceAfter selfId capacity limits before).store.queue k).map StoredEnvelope.envelope)
    (hqueued : (serviceAfter selfId capacity limits before).Queued k id) :
    ∃ m ∈ messages, m.envelope.messageId = id
      ∧ messages.filter (fun m => m.envelope.messageId = id) = [m]
      ∧ ∃ call ∈ before, ∃ grant, call.request = .deliver m.envelope grant := by
  obtain ⟨x, hx, hid⟩ := List.mem_map.mp hqueued
  have hmem : x.envelope ∈ messages.map Message.envelope := by
    rw [henvelopes]
    exact List.mem_map_of_mem hx
  obtain ⟨m, hm, hmx⟩ := List.mem_map.mp hmem
  have hthis : m.envelope.messageId = id := hmx ▸ hid
  have hnodup : (messages.map fun m => m.envelope.messageId).Nodup := by
    have hkept := kept_serviceAfter selfId capacity limits before k
    have hids : (messages.map Message.envelope).map Envelope.messageId
        = ((serviceAfter selfId capacity limits before).store.queue k).map
            StoredEnvelope.messageId := by
      rw [henvelopes, List.map_map]
      rfl
    rw [List.map_map] at hids
    exact hids ▸ hkept.sound.nodup
  obtain ⟨pre, call, post, rfl, -, hstores⟩ := exists_stores_of_mem hx
  obtain ⟨grant, hreq⟩ := hstores.request
  refine ⟨m, hm, hthis, ?_, call, List.mem_append_right _ List.mem_cons_self, grant, hmx ▸ hreq⟩
  have hone := filter_key_eq hnodup hm
  rwa [hthis] at hone

/-- A client that is on the network as the node it is. -/
def MailClient.OnNetwork (c : MailClient (Network Cap)) : Prop :=
  c.transport = Network.handle c.identity.nodeId

/--
**Mail arrives.** Let `send` report a message as sent, and let anything happen then. The next
drain of the recipient that gets an answer shows the message exactly once: from the sender,
as it was composed, with the body and the subject as they were sent, or with no body where
it could not be fetched; and its attachments, whenever they can be opened, are those that
were sent. Or else somebody took the mail before, who acked it or filled the queue.
-/
theorem sent_is_drained {s r : MailClient (Network Cap)} (hs : s.OnNetwork) (hr : r.OnNetwork)
    {opts : SendOptions Cap} (hto : opts.to = r.identity.nodeId.hex)
    (hplain : opts.sealSubject = true ∨ ¬LooksStructured opts.body)
    {n n₁ n₂ n₃ : Network Cap} (hfresh : n.start.Fresh)
    (hhosts : n.Hosts opts.delivery.1 selfId capacity limits) {draws : Nat → Draw} {now : UInt64}
    {id : String} (hsent : Runs (s.send opts draws now) n id n₁) (hbetween : n₁.Extends n₂)
    {grant : List Cap} {messages : List Message} {cursor : UInt64}
    (hdrained : Runs (r.drainInbox opts.delivery.1 0 grant) n₂ (messages, cursor) n₃)
    (hfree : n₃.Collisionless) :
    Taken selfId capacity limits (callsAt opts.delivery.1 n₃.past) opts.to id
      ∨ ∃ m, messages.filter (fun m => m.envelope.messageId = id) = [m]
        ∧ opts.ShownAs s.identity.nodeId now m
        ∧ ∀ n₄ n₅ attachments, n₃.Extends n₄ →
          Runs (r.openAttachments m.envelope) n₄ attachments n₅ →
          Set.InjOn blobCid {bytes | .put bytes ∈ n₅.past} → attachments = opts.attachments := by
  obtain ⟨env, n₀, hcompose, hcomposed, rfl, ⟨call, hcall, hreq⟩, hcustody⟩ :=
    custody_of_send hs hhosts hsent
  have hupto : n.Extends n₂ :=
    ((((keeps_transport hs n).compose opts draws now).runs hcompose
      (Network.Extends.refl n)).trans hcomposed).trans hbetween
  obtain ⟨before, m₂, hdrain, hfrom, hinto, henvelopes, envelopes, hmessages⟩ :=
    queue_of_drainInbox hr (hhosts.extends hupto) hdrained
  have hrest : m₂.Extends n₃ :=
    (keeps_composeMessages_of_get (keeps_transport hr m₂).get envelopes).runs hmessages
      (Network.Extends.refl m₂)
  obtain ⟨later, rfl⟩ : callsAt opts.delivery.1 n₁.past <+: before := by
    obtain ⟨later, hlater⟩ := hbetween.callsAt opts.delivery.1
    exact (hlater ▸ List.prefix_append _ _).trans hfrom
  -- until the reply to the drain the mail waits, or somebody takes it
  rcases custody_append hcustody later with hqueued | htaken
  · rw [hto] at hqueued
    obtain ⟨m, hm, hid, hone, call', hcall', grant', hreq'⟩ := message_of_queued henvelopes hqueued
    -- it is the body that was sent, since no other has its id
    have hbody : m.envelope.body = env.body :=
      hfree.bodies
        ⟨_, call', _, grant', mem_past_of_mem_callsAt (hinto.subset hcall'), hreq', rfl⟩
        ⟨_, call, env, _, mem_past_of_mem_callsAt (hinto.subset (List.mem_append_left _ hcall)),
          hreq, rfl⟩ hid
    have hcomp : ∀ {m' : Network Cap}, n₂.Extends m' →
        Composed s.identity.nodeId r.identity.secretBytes opts now m' m.envelope.body := by
      intro m' hm'
      rw [hbody]
      refine (composed_of_runs hs ?_ hcompose).extends ((hcomposed.trans hbetween).trans hm')
      rw [hto, parseNodeId_hex]
      rfl
    have hfresh' : ∀ {m' : Network Cap}, n₂.Extends m' → m'.start.Fresh := fun hm' =>
      (hupto.trans hm').start ▸ hfresh
    refine Or.inr ⟨m, hone, (hcomp (hdrain.trans hrest)).shownAs ?_, ?_⟩
    · refine (content_composeMessages hr hmessages hm).imp_right ?_
      intro hopened
      obtain ⟨m₃, m₄, hfirst, hopen, hlast⟩ := hopened
      exact content_of_openContent hr (hfresh' (hdrain.trans hfirst)) hopen hlast
        (hcomp (hdrain.trans hrest)) hplain hfree.blobs
    · intro n₄ n₅ attachments hn₄ hopened hblobs
      have hopen := ((keeps_transport hr n₄).openAttachmentsFrom m.envelope 0 _).runs hopened
        (Network.Extends.refl n₄)
      exact eq_of_openAttachmentsFrom hr
        (hcomp (((hdrain.trans hrest).trans hn₄).trans hopen)).attachmentCids List.drop_zero
        (hfresh' ((hdrain.trans hrest).trans hn₄)) hopened (Network.Extends.refl n₅) hblobs
  · obtain ⟨more, hmore⟩ := hinto
    rw [← hmore]
    exact Or.inl (htaken.append more)

end Network

namespace Sample

/-- A mailbox that has served nothing, and no blobs. -/
def oneMailbox (capacity : UInt64) : Shared :=
  ⟨∅, (∅ : Table String MailService).insert mailbox.hex (.start mailbox capacity default)⟩

theorem lookup_oneMailbox (capacity : UInt64) :
    (oneMailbox capacity).services.lookup mailbox.hex = some (.start mailbox capacity default) :=
  AList.lookup_insert _

theorem fresh_oneMailbox (capacity : UInt64) : (oneMailbox capacity).Fresh where
  blobs := rfl
  services address svc h := by
    by_cases heq : address = mailbox.hex
    · subst heq
      refine ⟨mailbox, capacity, default, ?_⟩
      exact (Option.some.inj ((lookup_oneMailbox capacity).symm.trans h)).symm
    · have hnone : (∅ : Table String MailService).lookup address = some svc := by
        rw [← AList.lookup_insert_ne heq]
        exact h
      cases hnone

/-- A turn that is served, after what others do. -/
def turnAfter (others : List (NetEvent (NodeId × NodeId))) : NetTurn (NodeId × NodeId) :=
  ⟨others, .served, 1, fun _ _ => false⟩

/-! ### A confidential message among others -/

/-- `confidential`, by way of a mailbox. -/
def parcel : SendOptions (NodeId × NodeId) :=
  { confidential with mailbox := some mailbox.hex, grant := [(recipient, mailbox)] }

/-- The blob of the box that carries the `i`-th plaintext of `boxes`. -/
def blob (i : Nat) : List UInt8 :=
  encodeSealed ⟨ephemeral.val, draw.2.val, (boxes.getD i ([], [])).2⟩

/-- The envelope of `parcel`, as signed by `sender`. -/
def letter : Envelope where
  body := {
    «from» := sender.hex
    «to» := recipient.hex
    subject := redactedSubject
    bodyCid := "6f1bced94178892888097e921aed229728ac1d3db291619860460e1a86fff753"
    attachmentCids := ["fe237176b4000684f2996411d68d81061f3468056748ac54163f66d4a50f57c9"]
    inReplyTo := ""
    sentAt := 1
    postageReceipt := "" }
  sig := (signed.getD 1 ([], bytes 64 0)).2

/-- The envelopes of this network, each with its hash. -/
def posted : List (Envelope × Nat) :=
  [(first, 0x60ff8f80b897d5f0adc49214573ad0c98f926b2593e79389cf67f6cd74a95c1d),
    (letter, 0xeec19ab434a2c8c868cc5ca61f66dc78b3445027913aad68c2813f74163ed92b)]

/-- Ed25519 on these, and SHA-256 on them, on the blobs and where the key is derived. -/
@[reducible] def netCrypto : Crypto where
  verify := (cryptoOn posted).verify
  sha256 bs :=
    if bs = kdfDomain ++ shared.val ++ ephemeral.val then agreedKey
    else if bs = blob 1 then
      bytes 32 0x6f1bced94178892888097e921aed229728ac1d3db291619860460e1a86fff753
    else if bs = blob 2 then
      bytes 32 0xfe237176b4000684f2996411d68d81061f3468056748ac54163f66d4a50f57c9
    else if bs = [9] then
      bytes 32 0x2b4c342f5433ebe591a1da77e013d1b72475562d48578dca8b84bac6651c3cb9
    else (cryptoOn posted).sha256 bs

/-- The sender of `parcel`. -/
noncomputable def poster : MailClient (Network (NodeId × NodeId)) where
  identity := alice.identity
  transport := @Network.handle _ netCrypto iam _ (@ed25519PublicKey curve sha512 senderSeed)

/-- Its recipient. -/
noncomputable def addressee : MailClient (Network (NodeId × NodeId)) where
  identity := bob.identity
  transport := @Network.handle _ netCrypto iam _ (@ed25519PublicKey curve sha512 recipientSeed)

/--
The network `parcel` is sent on. Another message to the recipient is delivered just before it,
and somebody stores a blob before the recipient drains.
-/
def busyNet : Network (NodeId × NodeId) where
  start := oneMailbox 2
  past := []
  turns := [turnAfter [], turnAfter [], turnAfter [(delivery first).event mailbox.hex],
    turnAfter [.put [9]], turnAfter []]

/-- The network after the body was stored. -/
def bodyNet : Network (NodeId × NodeId) where
  start := busyNet.start
  past := [.put (blob 1)]
  turns := busyNet.turns.drop 1

/-- The network after the attachment was stored. -/
def storedNet : Network (NodeId × NodeId) where
  start := busyNet.start
  past := [.put (blob 1), .put (blob 2)]
  turns := busyNet.turns.drop 2

/-- The network after the message was delivered. -/
def sentNet : Network (NodeId × NodeId) where
  start := busyNet.start
  past := storedNet.past ++ [(delivery first).event mailbox.hex,
    (delivery letter).event mailbox.hex]
  turns := busyNet.turns.drop 3

/-- The network after the recipient asked for its mail. -/
def askedNet : Network (NodeId × NodeId) where
  start := busyNet.start
  past := sentNet.past ++ [.put [9], (own (.drain recipient.hex 0 [])).event mailbox.hex]
  turns := busyNet.turns.drop 4

/-- The network after the recipient fetched the body. -/
def drainedNet : Network (NodeId × NodeId) := { askedNet with turns := busyNet.turns.drop 5 }

/-- The mailbox after these envelopes were delivered. -/
def mailboxAfter (delivered : List Envelope) : MailService :=
  @serviceAfter _ netCrypto iam mailbox 2 default (delivered.map delivery)

/-- The CIDs and ids of this network, and the key of its boxes. -/
theorem hashes_drainedNet : @blobCid netCrypto (blob 1) = letter.body.bodyCid
    ∧ letter.body.attachmentCids = [@blobCid netCrypto (blob 2)]
    ∧ @blobCid netCrypto [9] = "2b4c342f5433ebe591a1da77e013d1b72475562d48578dca8b84bac6651c3cb9"
    ∧ @messageId netCrypto first.body
      = "60ff8f80b897d5f0adc49214573ad0c98f926b2593e79389cf67f6cd74a95c1d"
    ∧ @messageId netCrypto letter.body
      = "eec19ab434a2c8c868cc5ca61f66dc78b3445027913aad68c2813f74163ed92b"
    ∧ @kdf netCrypto shared ephemeral = agreedKey := by
  decide +kernel

theorem signed_drainedNet : poster.identity.sign (envelopeSigningBytes letter.body) = letter.sig
      ∧ @Envelope.verify netCrypto first = .ok () ∧ @Envelope.verify netCrypto letter = .ok () := by
  decide +kernel

theorem answers_mailboxAfter :
    (@MailService.step _ netCrypto iam (mailboxAfter []) (delivery first)).2
        = .ok (.delivered false)
      ∧ @MailService.Answers _ _ netCrypto iam (mailboxAfter [first]) (delivery letter)
        (.delivered false)
      ∧ @MailService.Answers _ _ netCrypto iam (mailboxAfter [first, letter])
        (own (.drain recipient.hex 0 [])) (.drained [first, letter] 2) := by
  decide +kernel

theorem openKey_draw :
    @openKey curve netCrypto sha512 recipientSeed (@ephemeralPublic curve draw.1) = agreedKey := by
  obtain ⟨hephemeral, hshared⟩ := agreement_draw
  obtain ⟨-, -, -, -, -, hkey⟩ := hashes_drainedNet
  rw [hephemeral]
  show @kdf netCrypto (@ecdh curve _ ephemeral) ephemeral = agreedKey
  rw [hshared, hkey]

/-- What is sealed to the recipient and stored, in a turn of its own. -/
theorem runs_putSealed_box {plaintext ciphertext : List UInt8}
    (henc : aead.encrypt agreedKey draw.2 plaintext = some ciphertext)
    {n : Network (NodeId × NodeId)} {turn : NetTurn (NodeId × NodeId)}
    {turns : List (NetTurn (NodeId × NodeId))} (hturns : n.turns = turn :: turns)
    (hfate : turn.fate = .served) :
    let box := encodeSealed ⟨ephemeral.val, draw.2.val, ciphertext⟩
    Runs (@MailClient.putSealed _ curve netCrypto aead poster recipient plaintext draw) n
      (@blobCid netCrypto box)
      (Network.happen { n with past := n.past ++ turn.others, turns := turns } (.put box)) := by
  rw [← openKey_draw] at henc
  have hput := @runs_putSealed _ curve sha512 netCrypto aead poster recipientSeed _ _ draw henc n _
    _ (@runs_putBlob_of_served _ netCrypto _ n turn turns hturns hfate)
  rwa [ed25519PublicKey_recipientSeed, agreement_draw.1] at hput

theorem seal_letter : @Envelope.seal curve sha512 poster.identity
    ⟨"", recipient.hex, redactedSubject, letter.body.bodyCid, letter.body.attachmentCids, "", 1,
      ""⟩ = letter := by
  have hme : @Identity.nodeId curve sha512 poster.identity = sender := ed25519PublicKey_senderSeed
  unfold Envelope.seal
  rw [hme]
  exact congrArg (Envelope.mk letter.body) signed_drainedNet.1

theorem runs_compose_parcel :
    Runs (@MailClient.compose _ _ curve sha512 netCrypto aead poster parcel (fun _ => draw) 1)
      busyNet letter storedNet := by
  obtain ⟨hbody, hattachment, -⟩ := boxes_confidential
  obtain ⟨hbodyCid, hattachmentCids, -⟩ := hashes_drainedNet
  have hput : Runs (@MailClient.putSealed _ curve netCrypto aead poster recipient
      (BodyContent.encode ⟨"a", [1]⟩) draw) busyNet letter.body.bodyCid bodyNet := by
    rw [← hbodyCid]
    exact @runs_putSealed_box _ _ hbody busyNet _ _ rfl rfl
  have hput' : Runs (@MailClient.putSealed _ curve netCrypto aead poster recipient
      (Attachment.encode ⟨"n", "t", [7]⟩) draw) bodyNet (@blobCid netCrypto (blob 2)) storedNet :=
    @runs_putSealed_box _ _ hattachment bodyNet _ _ rfl rfl
  refine (@runs_compose _ _ curve sha512 netCrypto aead poster parcel _
    (parseNodeId_hex recipient) _ _ _ _ _).mpr ⟨by decide, letter.body.bodyCid, redactedSubject,
      bodyNet, letter.body.attachmentCids, ?_, ?_, seal_letter.symm⟩
  · exact runs_bind.mpr ⟨_, _, hput, rfl⟩
  · rw [hattachmentCids]
    exact runs_bind.mpr ⟨_, _, hput', rfl⟩

/-- A delivery that is accepted is one more. -/
theorem lookup_mailboxAfter {past : List (NetEvent (NodeId × NodeId))} {delivered : List Envelope}
    {e : Envelope} {turns : List (NetTurn (NodeId × NodeId))}
    (h : (@Network.shared _ netCrypto iam ⟨busyNet.start, past, turns⟩).services.lookup mailbox.hex
      = some (mailboxAfter delivered))
    (hstep : (@MailService.step _ netCrypto iam (mailboxAfter delivered) (delivery e)).2
      = .ok (.delivered false)) (turns' : List (NetTurn (NodeId × NodeId))) :
    (@Network.shared _ netCrypto iam ⟨busyNet.start, past ++ [(delivery e).event mailbox.hex],
      turns'⟩).services.lookup mailbox.hex = some (mailboxAfter (delivered ++ [e])) := by
  have hshared : @Network.shared _ netCrypto iam
      ⟨busyNet.start, past ++ [(delivery e).event mailbox.hex], turns'⟩
      = (@Shared.step _ netCrypto iam (@Network.shared _ netCrypto iam ⟨busyNet.start, past, turns⟩)
        ((delivery e).event mailbox.hex)).1 :=
    Machine.final_concat _ _
  rw [hshared]
  refine @lookup_of_answer _ netCrypto iam _ _ _ _ _ h (.delivered false) (Prod.ext ?_ hstep)
  unfold mailboxAfter
  rw [List.map_append]
  exact (@serviceAfter_concat _ netCrypto iam mailbox 2 default _ _).symm

theorem lookup_storedNet : (@Network.shared _ netCrypto iam storedNet).services.lookup mailbox.hex
    = some (mailboxAfter []) := by
  have hservices :
      (@Network.shared _ netCrypto iam storedNet).services = busyNet.start.services := by
    unfold Network.shared storedNet
    rfl
  rw [hservices]
  exact lookup_oneMailbox 2

theorem runs_send_parcel :
    Runs (@MailClient.send _ _ curve sha512 netCrypto aead poster _ parcel (fun _ => draw) 1)
      busyNet (@Envelope.messageId netCrypto letter) sentNet := by
  obtain ⟨hfirst, hletter, -⟩ := answers_mailboxAfter
  have htransport : poster.transport = @Network.handle _ netCrypto iam _ sender := by
    rw [← ed25519PublicKey_senderSeed]
    rfl
  refine runs_bind.mpr ⟨letter, storedNet, runs_compose_parcel, ?_⟩
  rw [@MailClient.deliver_eq _ _ netCrypto]
  refine runs_bind.mpr ⟨.delivered false, sentNet, ?_, rfl⟩
  have hlookup := lookup_mailboxAfter lookup_storedNet hfirst sentNet.turns
  exact @runs_roundTrip_of_served _ _ _ netCrypto iam poster sender htransport mailbox.hex
    (.deliver letter [(recipient, mailbox)]) storedNet _ _ rfl rfl (mailboxAfter [first]) hlookup
    (.delivered false) hletter

theorem lookup_sentNet : (@Network.shared _ netCrypto iam sentNet).services.lookup mailbox.hex
    = some (mailboxAfter [first, letter]) := by
  obtain ⟨hfirst, ⟨-, hletter, -⟩, -⟩ := answers_mailboxAfter
  have hlookup := lookup_mailboxAfter lookup_storedNet hfirst sentNet.turns
  exact lookup_mailboxAfter hlookup hletter sentNet.turns

theorem runs_roundTrip_drain :
    Runs (@MailClient.roundTrip _ (NodeId × NodeId) addressee _ mailbox.hex
      (.drain recipient.hex 0 [])) sentNet (.drained [first, letter] 2) askedNet := by
  obtain ⟨-, -, hdrain⟩ := answers_mailboxAfter
  have htransport : addressee.transport = @Network.handle _ netCrypto iam _ recipient := by
    rw [← ed25519PublicKey_recipientSeed]
    rfl
  -- a blob does nothing to the mailbox
  have hput : ∀ (shared : Shared) (bytes : List UInt8),
      (@Shared.step (NodeId × NodeId) netCrypto iam shared (.put bytes)).1.services
        = shared.services := fun _ _ => rfl
  have hlookup : (@Network.shared _ netCrypto iam
      ⟨busyNet.start, sentNet.past ++ [.put [9]], askedNet.turns⟩).services.lookup mailbox.hex
        = some (mailboxAfter [first, letter]) := by
    rw [← lookup_sentNet]
    unfold Network.shared
    rw [Machine.final_concat, hput]
    rfl
  exact @runs_roundTrip_of_served _ _ _ netCrypto iam addressee recipient htransport mailbox.hex
    (.drain recipient.hex 0 []) sentNet _ _ rfl rfl (mailboxAfter [first, letter]) hlookup
    (.drained [first, letter] 2) hdrain

theorem blobs_drainedNet :
    drainedNet.past.filterMap NetEvent.blob = [blob 1, blob 2, [9]] := rfl

theorem lookup_blobs_drainedNet : (@Network.shared _ netCrypto iam drainedNet).blobs.lookup
    letter.body.bodyCid = some (blob 1) := by
  obtain ⟨hbodyCid, hattachmentCids, hother, -⟩ := hashes_drainedNet
  have hne : letter.body.bodyCid ≠ @blobCid netCrypto (blob 2) := by
    rw [← (List.cons.inj hattachmentCids).1]
    decide
  have hne' : letter.body.bodyCid ≠ @blobCid netCrypto [9] := by
    rw [hother]
    decide
  unfold Network.shared
  rw [@blobs_final _ netCrypto iam, blobs_drainedNet, List.foldl_cons, List.foldl_cons,
    List.foldl_cons, List.foldl_nil, AList.lookup_insert_ne hne', AList.lookup_insert_ne hne,
    hbodyCid]
  exact AList.lookup_insert _

theorem runs_openContent_letter :
    Runs (@MailClient.openContent _ curve sha512 netCrypto aead addressee letter) askedNet
      ([1], some "a") drainedNet := by
  obtain ⟨henc, -, hdecode⟩ := boxes_confidential
  have hget : Runs (@Network.getBlob _ netCrypto iam letter.body.bodyCid) askedNet (blob 1)
      drainedNet :=
    @runs_getBlob_of_served _ netCrypto iam _ _ askedNet _ _ rfl rfl lookup_blobs_drainedNet
  have hbox : (decodeSealed (blob 1) >>= @SealedBody.open curve netCrypto aead sha512 recipientSeed)
      = .ok (BodyContent.encode ⟨"a", [1]⟩) := by
    rw [← openKey_draw] at henc
    have hopen := @decode_open_of_encrypt curve sha512 netCrypto aead _ _ _ _ _ henc
    rwa [agreement_draw.1] at hopen
  unfold MailClient.openContent
  rw [if_neg (by decide)]
  refine runs_bind.mpr ⟨BodyContent.encode ⟨"a", [1]⟩, drainedNet, ?_, ?_⟩
  · exact @runs_getSealed _ curve sha512 netCrypto aead addressee _ _ _ _ _ hget hbox
  · rw [hdecode]
    rfl

theorem runs_composeMessages_drained :
    Runs (@MailClient.composeMessages _ curve sha512 netCrypto aead addressee [first, letter])
      askedNet [⟨first, [], none⟩, ⟨letter, [1], some "a"⟩] drainedNet := by
  obtain ⟨-, hfirst, hletter⟩ := signed_drainedNet
  have hend : Runs (@MailClient.composeMessages _ curve sha512 netCrypto aead addressee [])
      drainedNet [] drainedNet := runs_pure.mpr ⟨rfl, rfl⟩
  have hrest := @runs_composeMessages_cons _ addressee curve sha512 netCrypto aead _ _ _ _ hletter _
    runs_openContent_letter _ _ hend
  exact @runs_composeMessages_cons _ addressee curve sha512 netCrypto aead _ _ _ _ hfirst _
    (@runs_openContent_bare _ addressee curve sha512 netCrypto aead askedNet _ rfl) _ _ hrest

theorem runs_drain_letter :
    Runs (@MailClient.drainInbox _ (NodeId × NodeId) curve sha512 netCrypto aead addressee _
      mailbox.hex 0 []) sentNet
      ([⟨first, [], none⟩, ⟨letter, [1], some "a"⟩], 2) drainedNet := by
  have hme : @Identity.nodeId curve sha512 addressee.identity = recipient :=
    ed25519PublicKey_recipientSeed
  unfold MailClient.drainInbox
  rw [hme]
  refine runs_bind.mpr ⟨.drained [first, letter] 2, askedNet, runs_roundTrip_drain, ?_⟩
  exact runs_bind.mpr ⟨_, drainedNet, runs_composeMessages_drained, rfl⟩

theorem mem_blobs_drainedNet {bytes : List UInt8} (h : .put bytes ∈ drainedNet.past) :
    bytes ∈ [blob 1, blob 2, [9]] := by
  rw [← blobs_drainedNet]
  exact List.mem_filterMap.mpr ⟨.put bytes, h, rfl⟩

theorem mem_bodies_drainedNet {address : String} {call : Call (NodeId × NodeId)} {e : Envelope}
    {grant : List (NodeId × NodeId)} (hevent : call.event address ∈ drainedNet.past)
    (hreq : call.request = .deliver e grant) : e.body ∈ [first.body, letter.body] := by
  simp only [drainedNet, askedNet, sentNet, storedNet, Call.event, hreq, delivery, own,
    List.cons_append, List.nil_append, List.mem_cons, List.not_mem_nil, NetEvent.request.injEq,
    MailRequest.deliver.injEq, reduceCtorEq, or_false, false_or, and_false, false_and] at hevent
  rcases hevent with ⟨-, -, ⟨rfl, -⟩, -⟩ | ⟨-, -, ⟨rfl, -⟩, -⟩ <;> simp

theorem collisionless_drainedNet : @Network.Collisionless _ netCrypto drainedNet := by
  obtain ⟨hbody, hattachment, hother, hfirst, hletter, -⟩ := hashes_drainedNet
  have hblobs : ([blob 1, blob 2, [9]].map (@blobCid netCrypto)).Nodup := by
    rw [List.map_cons, List.map_cons, List.map_cons, List.map_nil, hbody,
      ← (List.cons.inj hattachment).1, hother]
    decide
  have hbodies : ([first.body, letter.body].map (@messageId netCrypto)).Nodup := by
    rw [List.map_cons, List.map_cons, List.map_nil, hfirst, hletter]
    decide
  refine @Network.Collisionless.mk _ netCrypto _ ?_ ?_
  · intro a ha b hb hab
    exact List.inj_on_of_nodup_map hblobs (mem_blobs_drainedNet ha) (mem_blobs_drainedNet hb) hab
  · intro a ha b hb hab
    obtain ⟨_, _, e, _, hevent, hreq, rfl⟩ := ha
    obtain ⟨_, _, e', _, hevent', hreq', rfl⟩ := hb
    exact List.inj_on_of_nodup_map hbodies (mem_bodies_drainedNet hevent hreq)
      (mem_bodies_drainedNet hevent' hreq') hab

end Sample

/-- A confidential message with an attachment, and what others do before and after it. -/
theorem sent_is_drained_sample :
    Runs (@MailClient.send _ _ Sample.curve Sample.sha512 Sample.netCrypto Sample.aead
        Sample.poster _ Sample.parcel (fun _ => Sample.draw) 1) Sample.busyNet
        (@Envelope.messageId Sample.netCrypto Sample.letter) Sample.sentNet
      ∧ Runs (@MailClient.drainInbox _ (NodeId × NodeId) Sample.curve Sample.sha512
        Sample.netCrypto Sample.aead Sample.addressee _ Sample.mailbox.hex 0 []) Sample.sentNet
        ([⟨Sample.first, [], none⟩, ⟨Sample.letter, [1], some "a"⟩], 2) Sample.drainedNet
      ∧ (@Taken _ Sample.netCrypto Sample.iam Sample.mailbox 2 default
          (callsAt Sample.mailbox.hex Sample.drainedNet.past) Sample.recipient.hex
          (@Envelope.messageId Sample.netCrypto Sample.letter)
        ∨ ∃ m, [(⟨Sample.first, [], none⟩ : Message), ⟨Sample.letter, [1], some "a"⟩].filter
            (fun m => @Envelope.messageId Sample.netCrypto m.envelope
              = @Envelope.messageId Sample.netCrypto Sample.letter) = [m]
          ∧ Sample.parcel.ShownAs
            (@Identity.nodeId Sample.curve Sample.sha512 Sample.poster.identity) 1 m
          ∧ ∀ n₄ n₅ attachments, Sample.drainedNet.Extends n₄ →
            Runs (@MailClient.openAttachments _ Sample.curve Sample.sha512 Sample.netCrypto
              Sample.aead Sample.addressee m.envelope) n₄ attachments n₅ →
            Set.InjOn (@blobCid Sample.netCrypto) {bytes | .put bytes ∈ n₅.past} →
            attachments = [⟨"n", "t", [7]⟩]) := by
  refine ⟨Sample.runs_send_parcel, Sample.runs_drain_letter, ?_⟩
  have hto : Sample.parcel.to
      = (@Identity.nodeId Sample.curve Sample.sha512 Sample.addressee.identity).hex :=
    congrArg NodeId.hex Sample.ed25519PublicKey_recipientSeed.symm
  exact @sent_is_drained _ _ Sample.netCrypto Sample.iam Sample.curve Sample.sha512 Sample.aead
    Sample.mailbox 2 default _ Sample.poster Sample.addressee rfl rfl Sample.parcel hto
    (Or.inl rfl) Sample.busyNet _ _ _ (Sample.fresh_oneMailbox 2) (Sample.lookup_oneMailbox 2)
    _ _ _ Sample.runs_send_parcel (Network.Extends.refl _) _ _ _ Sample.runs_drain_letter
    Sample.collisionless_drainedNet

namespace Sample

/-! ### A ping -/

/-- One mailbox that has served nothing, and three turns in which nobody else does anything. -/
def quietNet : Network (NodeId × NodeId) := ⟨oneMailbox 1, [], .replicate 3 (turnAfter [])⟩

/-- The sender of `first`. -/
noncomputable def writer : MailClient (Network (NodeId × NodeId)) where
  identity := ⟨senderSeed, fun _ => first.sig⟩
  transport := @Network.handle _ crypto iam _ (@ed25519PublicKey curve sha512 senderSeed)

/-- Its recipient. -/
noncomputable def reader : MailClient (Network (NodeId × NodeId)) where
  identity := ⟨recipientSeed, fun _ => bytes 64 0⟩
  transport := @Network.handle _ crypto iam _ (@ed25519PublicKey curve sha512 recipientSeed)

/-- What `first` is composed of. -/
def firstPing : SendOptions (NodeId × NodeId) where
  «to» := recipient.hex
  subject := "a"
  body := []
  attachments := []
  inReplyTo := ""
  sealSubject := false
  postageReceipt := ""
  mailbox := some mailbox.hex
  grant := [(recipient, mailbox)]

/-- The network after the delivery of `first`. -/
def metNet : Network (NodeId × NodeId) :=
  ⟨quietNet.start, [(delivery first).event mailbox.hex], .replicate 2 (turnAfter [])⟩

theorem lookup_metNet :
    (@Network.shared _ crypto iam metNet).services.lookup mailbox.hex = some served := by
  have hshared : @Network.shared _ crypto iam metNet
      = (@Shared.step _ crypto iam quietNet.start ((delivery first).event mailbox.hex)).1 :=
    Machine.final_concat [] _
  rw [hshared]
  exact @lookup_of_answer _ crypto iam quietNet.start (delivery first) mailbox.hex fresh
    served (lookup_oneMailbox 1) (.delivered false) step_delivery

theorem answers_drain : @MailService.Answers _ _ crypto iam served
      (own (.drain recipient.hex 0 [])) (.drained [first] 1)
    ∧ @Envelope.verify crypto first = .ok () := by
  have hserved : served = (@MailService.step _ crypto iam fresh (delivery first)).1 := by
    rw [step_delivery]
  rw [hserved]
  decide +kernel

/-- The network after the recipient's drain. -/
def readNet : Network (NodeId × NodeId) :=
  ⟨quietNet.start, metNet.past ++ [(own (.drain recipient.hex 0 [])).event mailbox.hex],
    [turnAfter []]⟩

theorem runs_drain_first :
    Runs (@MailClient.drainInbox _ (NodeId × NodeId) curve sha512 crypto aead reader _ mailbox.hex 0
      []) metNet ([⟨first, [], none⟩], 1) readNet := by
  obtain ⟨hdrain, hverify⟩ := answers_drain
  have hme : @Identity.nodeId curve sha512 reader.identity = recipient :=
    ed25519PublicKey_recipientSeed
  have htransport : reader.transport = @Network.handle _ crypto iam _ recipient := by
    rw [← ed25519PublicKey_recipientSeed]
    rfl
  have htrip : Runs (@MailClient.roundTrip _ (NodeId × NodeId) reader _ mailbox.hex
      (.drain recipient.hex 0 [])) metNet (.drained [first] 1) readNet :=
    @runs_roundTrip_of_served _ _ _ crypto iam reader recipient htransport mailbox.hex
      (.drain recipient.hex 0 []) metNet _ _ rfl rfl served lookup_metNet (.drained [first] 1)
      hdrain
  have hend : Runs (@MailClient.composeMessages _ curve sha512 crypto aead reader []) readNet []
      readNet := runs_pure.mpr ⟨rfl, rfl⟩
  unfold MailClient.drainInbox
  rw [hme]
  refine runs_bind.mpr ⟨.drained [first] 1, readNet, htrip, ?_⟩
  refine runs_bind.mpr ⟨[⟨first, [], none⟩], readNet, ?_, rfl⟩
  exact @runs_composeMessages_cons _ reader curve sha512 crypto aead _ _ _ _ hverify _
    (@runs_openContent_bare _ reader curve sha512 crypto aead readNet _ rfl) _ _ hend

end Sample

/-! ## Receipts -/

section Network

variable {Cap : Type} [Bincode Cap] [Bincode.Canonical Cap] [Crypto] [Iam Cap] [Curve] [Sha512]
  {c : MailClient (Network Cap)} {me : NodeId} {n n' : Network Cap} {selfId : NodeId}
  {capacity : UInt64} {limits : Limits}

/-- What `sendReceipt` reports as deposited is pending at the mailbox, and verifies. -/
theorem pending_of_sendReceipt (hc : c.transport = Network.handle me) {mailbox forSender : String}
    (hhosts : n.Hosts mailbox selfId capacity limits) {mid : String} {kind : ReceiptKind}
    {grant : List Cap} {now : UInt64} {duplicate : Bool}
    (h : Runs (c.sendReceipt mailbox forSender mid kind grant now) n duplicate n') :
    n.Extends n' ∧ (Receipt.issue c.identity mid kind now).verify = .ok ()
      ∧ (serviceAfter selfId capacity limits (callsAt mailbox n'.past)).Pending forSender
        (Receipt.issue c.identity mid kind now).dedupKey := by
  obtain ⟨reply, n₁, htrip, hreply⟩ := runs_bind.mp h
  have hlater := ((keeps_transport hc n).roundTrip _ _).runs htrip (Network.Extends.refl n)
  obtain ⟨before, call, -, hreq, -, hcalls, hanswer⟩ := runs_roundTrip hc hhosts htrip
  cases reply with
  | receiptAccepted duplicate' =>
      obtain ⟨rfl, rfl⟩ := runs_pure.mp hreply
      have hpending := pending_of_receiptAccepted hreq hanswer
      rw [← hcalls] at hpending
      exact ⟨hlater, verify_of_receiptAccepted hreq hanswer, hpending⟩
  | _ => exact absurd hreply not_runs_throw

/-- What a collection returns is the box at the time, of which nothing is left. -/
theorem box_of_collectReceipts (hc : c.transport = Network.handle me) {mailbox : String}
    (hhosts : n.Hosts mailbox selfId capacity limits) {grant : List Cap} {receipts : List Receipt}
    (h : Runs (c.collectReceipts mailbox grant) n receipts n') :
    ∃ before call, callsAt mailbox n.past <+: before ∧ callsAt mailbox n'.past = before ++ [call]
      ∧ receipts = ((serviceAfter selfId capacity limits before).store.post
          c.identity.nodeId.hex).queue
      ∧ ((serviceAfter selfId capacity limits (callsAt mailbox n'.past)).store.post
          c.identity.nodeId.hex).queue = [] := by
  obtain ⟨reply, n₁, htrip, hreply⟩ := runs_bind.mp h
  obtain ⟨before, call, -, hreq, hprefix, hcalls, hanswer⟩ := runs_roundTrip hc hhosts htrip
  cases reply with
  | receipts collected =>
      obtain ⟨rfl, rfl⟩ := runs_pure.mp hreply
      obtain ⟨hadmits, hperform⟩ := MailService.ok_of_reply hanswer fun _ he => by cases he
      rw [hreq, MailService.perform] at hperform
      obtain rfl := MailReply.receipts.inj (Except.ok.inj hperform)
      refine ⟨before, call, hprefix, hcalls, ?_, ?_⟩
      · -- nothing in the box fails to verify
        refine List.filter_eq_self.mpr ?_
        intro r hr
        have hposted := posted_serviceAfter selfId capacity limits before c.identity.nodeId.hex
        exact decide_eq_true (hposted.verified r hr)
      · have hstore : ((serviceAfter selfId capacity limits before).step call).1.store
            = ((serviceAfter selfId capacity limits before).store.collectReceipts
                c.identity.nodeId.hex).1 := by
          rw [MailService.step_of_admits hadmits, hreq]
          rfl
        rw [hcalls, serviceAfter_concat, hstore, MailboxStore.post_collectReceipts, if_pos rfl]
        rfl
  | _ => exact absurd hreply not_runs_throw

/--
**A receipt arrives.** Let `sendReceipt` report a receipt as deposited, new or not, and let
anything happen then. The next collection that gets an answer returns exactly one receipt
with its key, which verifies and is of this recipient for this kind of this message, and
leaves nothing in the box. Or else a request in between took it, which collected it or
filled the box.
-/
theorem receipt_is_collected {s r : MailClient (Network Cap)} (hs : s.OnNetwork)
    (hr : r.OnNetwork) {n n₁ n₂ n₃ : Network Cap} {mailbox : String}
    (hhosts : n.Hosts mailbox selfId capacity limits) {mid : String} {kind : ReceiptKind}
    {grant grant' : List Cap} {now : UInt64} {duplicate : Bool}
    (hsent : Runs (r.sendReceipt mailbox s.identity.nodeId.hex mid kind grant now) n duplicate n₁)
    (hbetween : n₁.Extends n₂) {receipts : List Receipt}
    (hcollected : Runs (s.collectReceipts mailbox grant') n₂ receipts n₃) :
    (∃ between call rest, callsAt mailbox n₃.past
          = callsAt mailbox n₁.past ++ between ++ call :: rest ∧ rest ≠ []
        ∧ (serviceAfter selfId capacity limits (callsAt mailbox n₁.past ++ between)).TakesReceipt
          call s.identity.nodeId.hex (Receipt.issue r.identity mid kind now).dedupKey)
      ∨ (∃ p, receipts.filter (fun p =>
            p.dedupKey = (Receipt.issue r.identity mid kind now).dedupKey) = [p]
          ∧ p.verify = .ok () ∧ p.body.messageId = mid ∧ p.body.kind = kind
          ∧ p.body.by = r.identity.nodeId.hex)
        ∧ ((serviceAfter selfId capacity limits (callsAt mailbox n₃.past)).store.post
          s.identity.nodeId.hex).queue = [] := by
  obtain ⟨hextends, hverify, hpending⟩ := pending_of_sendReceipt hr hhosts hsent
  obtain ⟨before, last, hfrom, hcalls, hreceipts, hempty⟩ :=
    box_of_collectReceipts hs (hhosts.extends (hextends.trans hbetween)) hcollected
  obtain ⟨later, rfl⟩ : callsAt mailbox n₁.past <+: before := by
    obtain ⟨later, hlater⟩ := hbetween.callsAt mailbox
    exact (hlater ▸ List.prefix_append _ _).trans hfrom
  have hposted := posted_serviceAfter selfId capacity limits (callsAt mailbox n₁.past ++ later)
    s.identity.nodeId.hex
  rcases pending_or_taken hpending later with hthere | ⟨between, call, rest, rfl, htakes⟩
  · obtain ⟨p, hp, hkey⟩ := List.mem_map.mp hthere
    have hone := filter_key_eq hposted.sound.nodup hp
    rw [hkey, ← hreceipts] at hone
    have hpv := hposted.verified p hp
    obtain ⟨hmid, hkind, hby⟩ := (Receipt.dedupKey_iff hpv hverify).mp hkey
    exact Or.inr ⟨⟨p, hone, hpv, hmid, hkind, hby⟩, hempty⟩
  · refine Or.inl ⟨between, call, rest ++ [last], ?_, by simp, htakes⟩
    rw [hcalls]
    simp

end Network

namespace Sample

/-- The recipient of `first` on the network, which signs its acknowledgement. -/
noncomputable def acker : MailClient (Network (NodeId × NodeId)) where
  identity := ⟨recipientSeed, fun _ => delivered.sig⟩
  transport := @Network.handle _ receiptCrypto iam _ (@ed25519PublicKey curve sha512 recipientSeed)

/-- Its sender. -/
noncomputable def collector : MailClient (Network (NodeId × NodeId)) where
  identity := ⟨senderSeed, fun _ => bytes 64 0⟩
  transport := @Network.handle _ receiptCrypto iam _ (@ed25519PublicKey curve sha512 senderSeed)

theorem issue_acker : @Receipt.issue curve sha512 acker.identity delivered.body.messageId
    .delivered 1 = delivered := by
  show (⟨⟨_, (@ed25519PublicKey curve sha512 recipientSeed).hex, .delivered, 1⟩, _⟩ : Receipt)
    = delivered
  rw [ed25519PublicKey_recipientSeed]
  rfl

/-- The recipient's deposit of its acknowledgement, with a grant of the sender. -/
def deposit : Call (NodeId × NodeId) :=
  ⟨recipient, .putReceipt sender.hex delivered [(sender, mailbox)], 1, fun _ _ => false⟩

/-- The sender's collection. -/
def collection : Call (NodeId × NodeId) :=
  ⟨sender, .collectReceipts sender.hex [], 1, fun _ _ => false⟩

/-- The mailbox after the deposit. -/
def holding : MailService := (@MailService.step _ receiptCrypto iam fresh deposit).1

theorem answers_deposit :
    @MailService.Answers _ _ receiptCrypto iam fresh deposit (.receiptAccepted false) := by
  decide +kernel

/-- The network after the deposit. -/
def ackedNet : Network (NodeId × NodeId) :=
  ⟨quietNet.start, [deposit.event mailbox.hex], .replicate 2 (turnAfter [])⟩

/-- The network after the collection. -/
def collectedNet : Network (NodeId × NodeId) :=
  ⟨quietNet.start, ackedNet.past ++ [collection.event mailbox.hex], [turnAfter []]⟩

theorem lookup_ackedNet :
    (@Network.shared _ receiptCrypto iam ackedNet).services.lookup mailbox.hex = some holding := by
  obtain ⟨-, hanswer, -⟩ := answers_deposit
  have hshared : @Network.shared _ receiptCrypto iam ackedNet
      = (@Shared.step _ receiptCrypto iam quietNet.start (deposit.event mailbox.hex)).1 :=
    Machine.final_concat [] _
  rw [hshared]
  exact @lookup_of_answer _ receiptCrypto iam quietNet.start deposit mailbox.hex fresh holding
    (lookup_oneMailbox 1) (.receiptAccepted false) (Prod.ext rfl hanswer)

theorem answers_collection :
    @MailService.Answers _ _ receiptCrypto iam holding collection (.receipts [delivered])
      ∧ [delivered].filter (fun r => @Receipt.verify receiptCrypto r = .ok ()) = [delivered] := by
  unfold holding
  decide +kernel

theorem runs_sendReceipt_delivered :
    Runs (@MailClient.sendReceipt _ (NodeId × NodeId) curve sha512 acker _ mailbox.hex sender.hex
      delivered.body.messageId .delivered [(sender, mailbox)] 1) quietNet false ackedNet := by
  have htransport : acker.transport = @Network.handle _ receiptCrypto iam _ recipient := by
    rw [← ed25519PublicKey_recipientSeed]
    rfl
  unfold MailClient.sendReceipt
  rw [issue_acker]
  refine runs_bind.mpr ⟨.receiptAccepted false, ackedNet, ?_, rfl⟩
  exact @runs_roundTrip_of_served _ _ _ receiptCrypto iam acker recipient htransport mailbox.hex
    (.putReceipt sender.hex delivered [(sender, mailbox)]) quietNet _ _ rfl rfl fresh
    (lookup_oneMailbox 1) (.receiptAccepted false) answers_deposit

theorem runs_collectReceipts_delivered :
    Runs (@MailClient.collectReceipts _ (NodeId × NodeId) curve sha512 receiptCrypto collector _
      mailbox.hex []) ackedNet [delivered] collectedNet := by
  obtain ⟨hcollect, hverify⟩ := answers_collection
  have hme : @Identity.nodeId curve sha512 collector.identity = sender :=
    ed25519PublicKey_senderSeed
  have htransport : collector.transport = @Network.handle _ receiptCrypto iam _ sender := by
    rw [← ed25519PublicKey_senderSeed]
    rfl
  unfold MailClient.collectReceipts
  rw [hme]
  refine runs_bind.mpr ⟨.receipts [delivered], collectedNet, ?_, ?_⟩
  · exact @runs_roundTrip_of_served _ _ _ receiptCrypto iam collector sender htransport mailbox.hex
      (.collectReceipts sender.hex []) ackedNet _ _ rfl rfl holding lookup_ackedNet
      (.receipts [delivered]) hcollect
  · exact runs_pure.mpr ⟨hverify.symm, rfl⟩

end Sample

/-- The theorem for an acknowledgement that is deposited and collected at once. -/
theorem receipt_is_collected_sample :
    Runs (@MailClient.sendReceipt _ (NodeId × NodeId) Sample.curve Sample.sha512 Sample.acker _
        Sample.mailbox.hex
        (@Identity.nodeId Sample.curve Sample.sha512 Sample.collector.identity).hex
        Sample.delivered.body.messageId .delivered [(Sample.sender, Sample.mailbox)] 1)
        Sample.quietNet false Sample.ackedNet
      ∧ Runs (@MailClient.collectReceipts _ (NodeId × NodeId) Sample.curve Sample.sha512
        Sample.receiptCrypto Sample.collector _ Sample.mailbox.hex []) Sample.ackedNet
        [Sample.delivered] Sample.collectedNet
      ∧ ((∃ between call rest, callsAt Sample.mailbox.hex Sample.collectedNet.past
            = callsAt Sample.mailbox.hex Sample.ackedNet.past ++ between ++ call :: rest ∧ rest ≠ []
          ∧ @MailService.TakesReceipt _ Sample.receiptCrypto Sample.iam
            (@serviceAfter _ Sample.receiptCrypto Sample.iam Sample.mailbox 1 default
              (callsAt Sample.mailbox.hex Sample.ackedNet.past ++ between)) call
            (@Identity.nodeId Sample.curve Sample.sha512 Sample.collector.identity).hex
            (@Receipt.issue Sample.curve Sample.sha512 Sample.acker.identity
              Sample.delivered.body.messageId .delivered 1).dedupKey)
        ∨ ∃ p, [Sample.delivered].filter (fun p => p.dedupKey
            = (@Receipt.issue Sample.curve Sample.sha512 Sample.acker.identity
              Sample.delivered.body.messageId .delivered 1).dedupKey) = [p]) := by
  have hsender : Sample.sender.hex
      = (@Identity.nodeId Sample.curve Sample.sha512 Sample.collector.identity).hex :=
    congrArg NodeId.hex Sample.ed25519PublicKey_senderSeed.symm
  have hsent := Sample.runs_sendReceipt_delivered
  rw [hsender] at hsent
  refine ⟨hsent, Sample.runs_collectReceipts_delivered, ?_⟩
  refine (@receipt_is_collected _ _ _ Sample.receiptCrypto Sample.iam Sample.curve Sample.sha512
    Sample.mailbox 1 default Sample.collector Sample.acker rfl rfl Sample.quietNet _ _ _ _
    (Sample.lookup_oneMailbox 1) _ _ _ _ _ _ hsent (Network.Extends.refl _) _
    Sample.runs_collectReceipts_delivered).imp_right ?_
  intro h
  obtain ⟨⟨p, hone, -⟩, -⟩ := h
  exact ⟨p, hone⟩

end CeMail
