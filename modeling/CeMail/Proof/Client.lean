import CeMail.Model.Client
import CeMail.Proof.SealedBox
import CeMail.Proof.Wire

/-!
# What arrives

A message is composed on one side and opened on the other. Between the two lies a blob
store that gives back the bytes put under a CID; each blob is a sealed box that the
recipient opens to its plaintext; and the plaintext of the body blob is a raw body or a
structured one. A raw body that begins as a structured one does is taken for one.
-/

namespace CeMail

open Effect

section Client

variable {Net Cap : Type}

/-! ## The blob store -/

/--
What is assumed of a client's network: the bytes put under a CID are given back wherever
they are still held, and neither storing nor fetching loses what is held. A CID is the
hex form of a hash and never empty.
-/
structure BlobStore (holds : Net → String → List UInt8 → Prop) (t : Transport Net) : Prop where
  put : ∀ {net net' cid blob}, Runs (t.putBlob blob) net cid net' → holds net' cid blob ∧ cid ≠ ""
  get : ∀ {net cid blob}, holds net cid blob → ∃ net', Runs (t.getBlob cid) net blob net'
  keeps_put : ∀ {cid blob} bytes, Keeps (fun net => holds net cid blob) (t.putBlob bytes)
  keeps_get : ∀ {cid blob} name, Keeps (fun net => holds net cid blob) (t.getBlob name)

variable {holds : Net → String → List UInt8 → Prop}

/-- The states of the network that still hold what `net` held. -/
def Later (holds : Net → String → List UInt8 → Prop) (net net' : Net) : Prop :=
  ∀ cid blob, holds net cid blob → holds net' cid blob

theorem Later.refl (net : Net) : Later holds net net := fun _ _ h => h

theorem Later.trans {net net' net'' : Net} (h : Later holds net net')
    (h' : Later holds net' net'') : Later holds net net'' :=
  fun cid blob hheld => h' cid blob (h cid blob hheld)

theorem BlobStore.later_put {t : Transport Net} (ht : BlobStore holds t) {net net' : Net}
    {blob : List UInt8} {cid : String} (h : Runs (t.putBlob blob) net cid net') :
    Later holds net net' :=
  fun _ _ hheld => (ht.keeps_put blob).runs h hheld

theorem BlobStore.keeps_later {t : Transport Net} (ht : BlobStore holds t) (net : Net)
    (cid : String) : Keeps (Later holds net) (t.getBlob cid) :=
  fun net' hlater c blob hheld => ht.keeps_get cid net' (hlater c blob hheld)

/-! ## Two formats in one blob -/

instance : Bincode.Canonical BodyContent := by
  unfold instBincodeBodyContent
  refine Bincode.Canonical.via ?_
  intro y x h
  cases h
  rfl

/-- A body that begins with the encoding of a structured one. -/
def LooksStructured (body : List UInt8) : Prop := ∃ content : BodyContent, content.encode <+: body

theorem tryDecode_eq_some {body : List UInt8} (hlen : body.length < 2 ^ 64)
    {content : BodyContent} :
    BodyContent.tryDecode body = some content ↔ content.encode <+: body := by
  cases body with
  | nil => simp [BodyContent.tryDecode, BodyContent.encode]
  | cons first rest =>
      rw [BodyContent.tryDecode, BodyContent.encode, List.cons_prefix_cons]
      refine ⟨?_, ?_⟩
      · intro h
        split at h
        · rename_i hmagic
          obtain ⟨⟨_, more⟩, hdec, rfl⟩ := Option.map_eq_some_iff.mp h
          exact ⟨hmagic.symm, more, (Bincode.Canonical.exact hdec).symm⟩
        · cases h
      · intro h
        rcases h with ⟨rfl, more, rfl⟩
        have hfits : Bincode.Fits content := by
          refine Bincode.Canonical.fits content ?_
          rw [List.length_cons, List.length_append] at hlen
          omega
        rw [if_pos rfl, Bincode.dec_enc content hfits]
        rfl

/-- What a client sends is within the bounds of memory. -/
theorem length_body_lt {opts : SendOptions Cap} {l : Limits} (h : l.checkPayload opts = .ok ()) :
    opts.body.length < 2 ^ 64 :=
  Nat.lt_of_le_of_lt (Limits.checkSize_eq_ok.mp (Limits.bind_eq_ok.mp h).1)
    l.maxBodyBytes.toNat_lt

variable [Curve] [Sha512] [Crypto] [Aead]

/-! ## Sealed blobs -/

/-- Under the CID lies a box that the node with this seed opens to the plaintext. -/
structure Stored (holds : Net → String → List UInt8 → Prop) (seed : Bytes 32) (net : Net)
    (cid : String) (plaintext : List UInt8) : Prop where
  cid_ne : cid ≠ ""
  opens : ∃ blob, holds net cid blob
    ∧ (decodeSealed blob >>= SealedBody.open seed) = .ok plaintext

theorem Stored.later {seed : Bytes 32} {net net' : Net} {cid : String} {plaintext : List UInt8}
    (h : Stored holds seed net cid plaintext) (hlater : Later holds net net') :
    Stored holds seed net' cid plaintext := by
  obtain ⟨hne, blob, hheld, hopen⟩ := h
  exact ⟨hne, blob, hlater cid blob hheld, hopen⟩

variable {c : MailClient Net} {seed : Bytes 32}

/-- **What is put for a node is there for it to open.** -/
theorem stored_putSealed (hc : BlobStore holds c.transport) {plaintext : List UInt8} {draw : Draw}
    {net net' : Net} {cid : String}
    (h : Runs (c.putSealed (ed25519PublicKey seed) plaintext draw) net cid net') :
    Stored holds seed net' cid plaintext ∧ Later holds net net'
      ∧ plaintext.length < 2 ^ 64 := by
  obtain ⟨s, net₁, hlift, hput⟩ := runs_bind.mp h
  obtain ⟨hseal, rfl⟩ := runs_lift.mp hlift
  obtain ⟨hheld, hne⟩ := hc.put hput
  cases henc : Aead.encrypt (openKey seed (ephemeralPublic draw.1)) draw.2 plaintext with
  | none =>
      rw [seal_of_encrypt_eq_none henc] at hseal
      cases hseal
  | some ciphertext =>
      rw [seal_of_encrypt henc] at hseal
      obtain rfl := Except.ok.inj hseal
      have hlen := Aead.length_encrypt henc
      exact ⟨⟨hne, _, hheld, decode_open_of_encrypt henc⟩, hc.later_put hput,
        Nat.lt_of_le_of_lt hlen.1 hlen.2⟩

theorem runs_putSealed {plaintext ciphertext : List UInt8} {draw : Draw}
    (henc : Aead.encrypt (openKey seed (ephemeralPublic draw.1)) draw.2 plaintext
      = some ciphertext) {net net' : Net} {cid : String}
    (hput : Runs (c.transport.putBlob
      (encodeSealed ⟨(ephemeralPublic draw.1).val, draw.2.val, ciphertext⟩)) net cid net') :
    Runs (c.putSealed (ed25519PublicKey seed) plaintext draw) net cid net' :=
  runs_bind.mpr ⟨_, net, runs_lift.mpr ⟨seal_of_encrypt henc, rfl⟩, hput⟩

/-- A blob that is got and opens is its plaintext. -/
theorem runs_getSealed {cid : String} {blob plaintext : List UInt8} {net net' : Net}
    (hget : Runs (c.transport.getBlob cid) net blob net')
    (hopen : (decodeSealed blob >>= SealedBody.open c.identity.secretBytes) = .ok plaintext) :
    Runs (c.getSealed cid) net plaintext net' := by
  refine runs_bind.mpr ⟨blob, net', hget, ?_⟩
  cases hdec : decodeSealed blob with
  | error e =>
      rw [hdec] at hopen
      cases hopen
  | ok s =>
      rw [hdec] at hopen
      exact runs_bind.mpr ⟨s, net', runs_lift.mpr ⟨rfl, rfl⟩, runs_lift.mpr ⟨hopen, rfl⟩⟩

/-- What is stored for a client's node, the client gets. -/
theorem ensures_getSealed (hc : BlobStore holds c.transport) {net : Net} {cid : String}
    {plaintext : List UInt8} (h : Stored holds c.identity.secretBytes net cid plaintext) :
    Ensures (Later holds net) (c.getSealed cid) (· = plaintext) := by
  obtain ⟨-, blob, hheld, hopen⟩ := h
  have hget : Ensures (Later holds net) (c.transport.getBlob cid) (· = blob) := by
    intro net' hlater
    obtain ⟨net'', hrun⟩ := hc.get (hlater cid blob hheld)
    exact ⟨blob, net'', hrun, (hc.keeps_later net cid).runs hrun hlater, rfl⟩
  refine hget.bind ?_
  intro blob heq
  subst heq
  cases hdec : decodeSealed blob with
  | error e =>
      rw [hdec] at hopen
      cases hopen
  | ok s =>
      rw [hdec] at hopen
      refine (ensures_lift rfl rfl).bind ?_
      intro _ heq1
      subst heq1
      exact ensures_lift hopen rfl

/-! ## Sending -/

/-- An attachment and the CID it was stored under. -/
structure StoredAttachment (holds : Net → String → List UInt8 → Prop) (seed : Bytes 32) (net : Net)
    (a : Attachment) (cid : String) : Prop where
  stored : Stored holds seed net cid a.encode
  decodes : Attachment.decode a.encode = .ok a

/-- One CID for each attachment, in order. -/
theorem forall₂_storeAttachments (hc : BlobStore holds c.transport) {draws : Nat → Draw} {i : Nat}
    {attachments : List Attachment} {net net' : Net} {cids : List String}
    (h : Runs (c.storeAttachments (ed25519PublicKey seed) draws i attachments) net cids net') :
    List.Forall₂ (StoredAttachment holds seed net') attachments cids ∧ Later holds net net' := by
  induction attachments generalizing i net cids with
  | nil =>
      obtain ⟨rfl, rfl⟩ := runs_pure.mp h
      exact ⟨List.Forall₂.nil, Later.refl net'⟩
  | cons a rest ih =>
      obtain ⟨cid, net₁, hput, htail⟩ := runs_bind.mp h
      obtain ⟨cids', net₂, hrest, hpure⟩ := runs_bind.mp htail
      obtain ⟨rfl, rfl⟩ := runs_pure.mp hpure
      obtain ⟨hstored, hlater, hlen⟩ := stored_putSealed hc hput
      obtain ⟨hall, hlater'⟩ := ih hrest
      have hdec : Attachment.decode a.encode = .ok a := by
        rw [Attachment.decode, Bincode.deserialize, Attachment.encode,
          Bincode.dec_enc_self (Bincode.Canonical.fits a hlen)]
      exact ⟨.cons ⟨hstored.later hlater', hdec⟩ hall, hlater.trans hlater'⟩

/-- The runs of `compose` are those of its two loops, within the payload bounds. -/
theorem runs_compose {opts : SendOptions Cap} {recipient : NodeId}
    (hto : parseNodeId opts.to = .ok recipient) {draws : Nat → Draw} {now : UInt64}
    {net net' : Net} {env : Envelope} :
    Runs (c.compose opts draws now) net env net' ↔
      c.limits.checkPayload opts = .ok () ∧ ∃ bodyCid subject net₁ attachmentCids,
        Runs (c.storeBody recipient opts (draws 0)) net (bodyCid, subject) net₁
        ∧ Runs (c.storeAttachments recipient draws 1 opts.attachments) net₁ attachmentCids net'
        ∧ env = .seal c.identity ⟨"", opts.to, subject, bodyCid, attachmentCids, opts.inReplyTo,
          now, opts.postageReceipt⟩ := by
  unfold MailClient.compose
  refine ⟨?_, ?_⟩
  · intro h
    obtain ⟨recipient', net₁, hlift, h₁⟩ := runs_bind.mp h
    obtain ⟨hparse, rfl⟩ := runs_lift.mp hlift
    obtain rfl := Except.ok.inj (hto.symm.trans hparse)
    obtain ⟨_, net₂, hlift', h₂⟩ := runs_bind.mp h₁
    obtain ⟨hcheck, rfl⟩ := runs_lift.mp hlift'
    obtain ⟨⟨bodyCid, subject⟩, net₃, hbody, h₃⟩ := runs_bind.mp h₂
    obtain ⟨cids, net₄, hcids, hpure⟩ := runs_bind.mp h₃
    obtain ⟨rfl, rfl⟩ := runs_pure.mp hpure
    exact ⟨hcheck, bodyCid, subject, net₃, cids, hbody, hcids, rfl⟩
  · intro h
    rcases h with ⟨hcheck, bodyCid, subject, net₁, cids, hbody, hcids, rfl⟩
    refine runs_bind.mpr ⟨recipient, net, runs_lift.mpr ⟨hto, rfl⟩, ?_⟩
    refine runs_bind.mpr ⟨(), net, runs_lift.mpr ⟨hcheck, rfl⟩, ?_⟩
    refine runs_bind.mpr ⟨(bodyCid, subject), net₁, hbody, ?_⟩
    exact runs_bind.mpr ⟨cids, net', hcids, runs_pure.mpr ⟨rfl, rfl⟩⟩

/-- What an envelope carries, from the run that composed it. -/
theorem exists_of_compose {opts : SendOptions Cap} {recipient : NodeId}
    (hto : parseNodeId opts.to = .ok recipient) {draws : Nat → Draw} {now : UInt64}
    {net net' : Net} {env : Envelope} (h : Runs (c.compose opts draws now) net env net') :
    c.limits.checkPayload opts = .ok () ∧ ∃ net₁,
      Runs (c.storeBody recipient opts (draws 0)) net (env.body.bodyCid, env.body.subject) net₁
        ∧ Runs (c.storeAttachments recipient draws 1 opts.attachments) net₁
          env.body.attachmentCids net' := by
  obtain ⟨hcheck, _, _, net₁, _, hbody, hcids, rfl⟩ := (runs_compose hto).mp h
  exact ⟨hcheck, net₁, hbody, hcids⟩

/-! ## Opening -/

theorem keeps_getSealed (hc : BlobStore holds c.transport) (net : Net) (cid : String) :
    Keeps (Later holds net) (c.getSealed cid) :=
  (hc.keeps_later net cid).bind fun _ => (keeps_lift _).bind fun _ => keeps_lift _

theorem keeps_openContent (hc : BlobStore holds c.transport) (net : Net) (env : Envelope) :
    Keeps (Later holds net) (c.openContent env) := by
  unfold MailClient.openContent
  split
  · exact keeps_pure _
  · refine (keeps_getSealed hc net _).bind fun plaintext => ?_
    split <;> exact keeps_pure _

variable {net : Net} {env : Envelope} {body : List UInt8} {sealedSubject : Option String}

theorem ensures_openContent (hc : BlobStore holds c.transport) {plaintext : List UInt8}
    (h : Stored holds c.identity.secretBytes net env.body.bodyCid plaintext) :
    Ensures (Later holds net) (c.openContent env) (· = match BodyContent.tryDecode plaintext with
      | some content => (content.body, some content.subject)
      | none => (plaintext, none)) := by
  unfold MailClient.openContent
  rw [if_neg h.cid_ne]
  refine (ensures_getSealed hc h).bind ?_
  intro plaintext heq
  subst heq
  cases BodyContent.tryDecode plaintext with
  | some content => exact ensures_pure rfl
  | none => exact ensures_pure rfl

/-- A message is in every batch its envelope is in, whatever becomes of the others. -/
theorem ensures_composeMessages (hc : BlobStore holds c.transport)
    (hopen : Ensures (Later holds net) (c.openContent env) (· = (body, sealedSubject)))
    (hverify : env.verify = .ok ()) {envs : List Envelope} (hmem : env ∈ envs) :
    Ensures (Later holds net) (c.composeMessages envs) (⟨env, body, sealedSubject⟩ ∈ ·) := by
  have hany : ∀ envs, Ensures (Later holds net) (c.composeMessages envs) fun _ => True := by
    intro envs
    induction envs with
    | nil => exact ensures_pure trivial
    | cons env envs ih =>
        unfold MailClient.composeMessages
        split
        · refine ((keeps_openContent hc net env).orElse _).bind fun _ _ => ?_
          exact ih.bind fun _ _ => ensures_pure trivial
        · exact ih
  induction envs with
  | nil => cases hmem
  | cons head envs ih =>
      unfold MailClient.composeMessages
      rcases List.mem_cons.mp hmem with rfl | hmem
      · rw [if_pos hverify]
        refine (hopen.orElse _).bind ?_
        intro _ heq
        subst heq
        exact (hany envs).bind fun _ _ => ensures_pure List.mem_cons_self
      · split
        · refine ((keeps_openContent hc net head).orElse _).bind fun _ _ => ?_
          exact (ih hmem).bind fun _ h => ensures_pure (List.mem_cons_of_mem _ h)
        · exact ih hmem

/--
The envelope is opened to this body, sealed subject and subject, in every way there is of
opening it and whenever that may be.
-/
structure Arrives (holds : Net → String → List UInt8 → Prop) (c : MailClient Net) (net : Net)
    (env : Envelope) (body : List UInt8) (sealedSubject : Option String) (subject : String) :
    Prop where
  opensContent : Ensures (Later holds net) (c.openContent env) (· = (body, sealedSubject))
  opensBody : Ensures (Later holds net) (c.openBody env) (· = body)
  opensMessage : Ensures (Later holds net) (c.openMessage env) (· = ⟨env, body, sealedSubject⟩)
  drained : env.verify = .ok () → ∀ envs, env ∈ envs →
    Ensures (Later holds net) (c.composeMessages envs) (⟨env, body, sealedSubject⟩ ∈ ·)
  shows : (Message.mk env body sealedSubject).subject = subject

/-- All the ways of opening an envelope go through `open_content`. -/
theorem arrives_of_openContent (hc : BlobStore holds c.transport)
    (hopen : Ensures (Later holds net) (c.openContent env) (· = (body, sealedSubject))) :
    Arrives holds c net env body sealedSubject (sealedSubject.getD env.body.subject) where
  opensContent := hopen
  opensBody := hopen.bind fun _ h => ensures_pure (h ▸ rfl)
  opensMessage := hopen.bind fun _ h => h ▸ ensures_pure rfl
  drained hverify _ hmem := ensures_composeMessages hc hopen hverify hmem
  shows := rfl

/-! ## Opening what was sent -/

variable {sender recipient : MailClient Net} {opts : SendOptions Cap} {draws : Nat → Draw}
  {now : UInt64} {net' : Net}

/-- What an unsealed envelope is opened to. -/
theorem openContent_of_raw (hsender : BlobStore holds sender.transport)
    (hrecipient : BlobStore holds recipient.transport)
    (hto : parseNodeId opts.to = .ok recipient.identity.nodeId) (hraw : opts.sealSubject = false)
    (hsent : Runs (sender.compose opts draws now) net env net') :
    env.body.subject = opts.subject
      ∧ Ensures (Later holds net') (recipient.openContent env)
        (· = match BodyContent.tryDecode opts.body with
          | some content => (content.body, some content.subject)
          | none => (opts.body, none)) := by
  obtain ⟨-, net₁, hbody, hcids⟩ := exists_of_compose hto hsent
  unfold MailClient.storeBody at hbody
  rw [if_neg (by rw [hraw]; decide)] at hbody
  obtain ⟨cid, net₂, hstore, hpure⟩ := runs_bind.mp hbody
  obtain ⟨hpair, rfl⟩ := runs_pure.mp hpure
  obtain ⟨rfl, hsubject⟩ := Prod.mk.inj hpair
  refine ⟨hsubject, ?_⟩
  unfold MailClient.sealAndStore at hstore
  split at hstore
  · rename_i hempty
    -- no blob is stored, and none is fetched
    obtain ⟨hcid, rfl⟩ := runs_pure.mp hstore
    unfold MailClient.openContent
    rw [hempty, if_pos hcid]
    exact ensures_pure rfl
  · obtain ⟨hstored, -, -⟩ := stored_putSealed hsender hstore
    obtain ⟨-, hlater⟩ := forall₂_storeAttachments hsender hcids
    exact ensures_openContent hrecipient (hstored.later hlater)

/-- A body that looks structured is opened to another one. -/
theorem not_arrives_of_looksStructured (hsender : BlobStore holds sender.transport)
    (hrecipient : BlobStore holds recipient.transport)
    (hto : parseNodeId opts.to = .ok recipient.identity.nodeId) (hraw : opts.sealSubject = false)
    (hsent : Runs (sender.compose opts draws now) net env net')
    (hlooks : LooksStructured opts.body) :
    ¬Arrives holds recipient net' env opts.body none opts.subject := by
  obtain ⟨content, hstart⟩ := hlooks
  have hlen := length_body_lt ((runs_compose hto).mp hsent).1
  obtain ⟨-, hopen⟩ := openContent_of_raw hsender hrecipient hto hraw hsent
  rw [(tryDecode_eq_some hlen).mpr hstart] at hopen
  intro harrives
  obtain ⟨_, _, hrun, -, hread⟩ := hopen net' (Later.refl net')
  rw [harrives.opensContent.runs (Later.refl net') hrun] at hread
  cases congrArg Prod.snd hread

theorem ensures_openAttachment (hrecipient : BlobStore holds recipient.transport) {i : Nat}
    {a : Attachment} {cid : String} (hcid : env.body.attachmentCids[i]? = some cid)
    (h : StoredAttachment holds recipient.identity.secretBytes net a cid) :
    Ensures (Later holds net) (recipient.openAttachment env i) (· = a) := by
  unfold MailClient.openAttachment
  rw [hcid]
  dsimp only
  rw [if_neg h.stored.cid_ne]
  refine (ensures_getSealed hrecipient h.stored).bind ?_
  intro _ heq
  subst heq
  exact ensures_lift h.decodes rfl

/-- The loop over the attachments opens what the loop over them stored. -/
theorem ensures_openAttachmentsFrom (hrecipient : BlobStore holds recipient.transport) {i : Nat}
    {attachments : List Attachment} {cids : List String}
    (hcids : env.body.attachmentCids.drop i = cids)
    (h : List.Forall₂ (StoredAttachment holds recipient.identity.secretBytes net)
      attachments cids) :
    Ensures (Later holds net) (recipient.openAttachmentsFrom env i cids.length)
      (· = attachments) := by
  induction h generalizing i with
  | nil => exact ensures_pure rfl
  | cons hfirst _ ih =>
      rename_i a cid attachments cids hrest
      have hget : env.body.attachmentCids[i]? = some cid := by
        rw [← List.head?_drop, hcids, List.head?_cons]
      have hdrop : env.body.attachmentCids.drop (i + 1) = cids := by
        rw [← List.tail_drop, hcids, List.tail_cons]
      refine (ensures_openAttachment hrecipient hget hfirst).bind ?_
      intro _ heq
      subst heq
      refine (ih hdrop).bind ?_
      intro _ heq1
      subst heq1
      exact ensures_pure rfl

end Client

/-! ## A sample -/

namespace Sample

/-- The content addresses of the boxes. No other blob has an address as short. -/
def cids : Equiv.Perm String := exchange <|
  (boxes.map fun box => hexEncode (0 :: encodeSealed ⟨ephemeral.val, draw.2.val, box.2⟩)).zip [
    "00483c040be2cbd3e6c6269a8bad5ccf3e8d7596800b1c22150b02bf9e56a32e",
    "6f1bced94178892888097e921aed229728ac1d3db291619860460e1a86fff753",
    "fe237176b4000684f2996411d68d81061f3468056748ac54163f66d4a50f57c9"]

def cid (blob : List UInt8) : String := cids (hexEncode (0 :: blob))

theorem cid_inj {a b : List UInt8} (h : cid a = cid b) : a = b :=
  List.tail_eq_of_cons_eq (hexEncode_inj (cids.injective h))

/-- A blob store, and a node that accepts whatever is delivered to it. -/
def transport : Transport (List (List UInt8)) where
  putBlob blob := ExceptT.mk fun net => (.ok (cid blob), blob :: net)
  getBlob name := ExceptT.mk fun net =>
    match net.find? fun blob => cid blob = name with
    | some blob => (.ok blob, net)
    | none => (.error s!"blob {name} not found", net)
  request _ _ _ := ExceptT.mk fun net => (.ok (MailReply.delivered false).encode, net)

/-- The blob is in the store, at its address. -/
def held (net : List (List UInt8)) (name : String) (blob : List UInt8) : Prop :=
  blob ∈ net ∧ cid blob = name

theorem blobStore : BlobStore held transport where
  put {net net' name blob} h := by
    have hrun : ((.ok (cid blob) : Except String String), blob :: net) = (.ok name, net') := h
    obtain ⟨hname, rfl⟩ := Prod.mk.inj hrun
    obtain rfl := Except.ok.inj hname
    refine ⟨⟨List.mem_cons_self, rfl⟩, ?_⟩
    intro hempty
    have hcids : cids "" = "" := by decide +kernel
    have hdigits : hexEncode (0 :: blob) = hexEncode [] :=
      cids.injective (hempty.trans hcids.symm)
    cases hexEncode_inj hdigits
  get {net name blob} h := by
    obtain ⟨hmem, rfl⟩ := h
    refine ⟨net, ?_⟩
    cases hfind : net.find? fun b => cid b = cid blob with
    | none => exact absurd (decide_eq_true rfl) (List.find?_eq_none.mp hfind blob hmem)
    | some b =>
        have hcid : cid b = cid blob := by simpa using List.find?_some hfind
        have hb : b = blob := cid_inj hcid
        show (match net.find? fun b => cid b = cid blob with
          | some blob => ((.ok blob : Except String (List UInt8)), net)
          | none => (.error _, net)) = _
        rw [hfind, hb]
  keeps_put {name blob} bytes := by
    intro net h
    rcases h with ⟨hmem, hcid⟩
    exact ⟨List.mem_cons_of_mem bytes hmem, hcid⟩
  keeps_get {name blob} other := by
    intro net hheld
    show held (match net.find? fun b => cid b = other with
      | some blob => ((.ok blob : Except String (List UInt8)), net)
      | none => (.error _, net)).2 name blob
    split <;> exact hheld

/-- A body with the form of a structured one: no subject, no bytes. -/
def lookalike : SendOptions (NodeId × NodeId) where
  «to» := recipient.hex
  subject := "a"
  body := 0xC5 :: .replicate 16 0
  attachments := []
  inReplyTo := ""
  sealSubject := false
  postageReceipt := ""
  mailbox := none
  grant := []

/-- A confidential message with an attachment. -/
def confidential : SendOptions (NodeId × NodeId) :=
  { lookalike with body := [1], attachments := [⟨"n", "t", [7]⟩], sealSubject := true }

/-- The boxes of its body and of its attachment, and what the body is decoded to. -/
theorem boxes_confidential :
    aead.encrypt agreedKey draw.2 (BodyContent.encode ⟨"a", [1]⟩)
        = some (boxes.getD 1 ([], [])).2
      ∧ aead.encrypt agreedKey draw.2 (Attachment.encode ⟨"n", "t", [7]⟩)
        = some (boxes.getD 2 ([], [])).2
      ∧ BodyContent.tryDecode (BodyContent.encode ⟨"a", [1]⟩) = some ⟨"a", [1]⟩ := by
  decide +kernel

/-- The envelopes of the two messages, as signed by `sender`. -/
def signed : List (List UInt8 × Signature) :=
  let mail (subject bodyCid : String) (attachmentCids : List String) : EnvelopeBody :=
    ⟨sender.hex, recipient.hex, subject, bodyCid, attachmentCids, "", 1, ""⟩
  [(envelopeSigningBytes (mail "a"
      "00483c040be2cbd3e6c6269a8bad5ccf3e8d7596800b1c22150b02bf9e56a32e" []),
    bytes 64 (0x9de2d134d191760d8dafe2efc1af694576a989bc03f35a482ec1d0553a2c39a8 * 2 ^ 256
      + 0x514eefcef2f1cba859652760c7d98b9fb84d2cc154331eb0c5cfcf31b5d5c20e)),
  (envelopeSigningBytes (mail "(encrypted subject)"
      "6f1bced94178892888097e921aed229728ac1d3db291619860460e1a86fff753"
      ["fe237176b4000684f2996411d68d81061f3468056748ac54163f66d4a50f57c9"]),
    bytes 64 (0x74735ad46a56c6ead6811306cfe19e5cf11522ebd7fcbebbb0a1a93a87e5b333 * 2 ^ 256
      + 0x290ee2311d750c6fff94fec7654b5f39976073d2a968f7c67432af5d4b129809))]

@[reducible] def mailCrypto : Crypto where
  verify id bs sig := id = sender && signed.contains (bs, sig)
  sha256 := boxCrypto.sha256

/-- The two clients. -/
def alice : MailClient (List (List UInt8)) where
  identity := ⟨senderSeed, fun bs => (signed.lookup bs).getD (bytes 64 0)⟩
  transport := transport

def bob : MailClient (List (List UInt8)) where
  identity := ⟨recipientSeed, fun _ => bytes 64 0⟩
  transport := transport

theorem parseNodeId_recipient :
    parseNodeId recipient.hex = .ok (@Identity.nodeId curve sha512 bob.identity) := by
  rw [parseNodeId_hex]
  exact congrArg Except.ok ed25519PublicKey_recipientSeed.symm

/-- Whatever is not too long can be sealed and stored, where blobs are stored as above. -/
theorem exists_runs_putSealed (c : MailClient (List (List UInt8)))
    (hput : c.transport.putBlob = transport.putBlob) (plaintext : List UInt8)
    (h : plaintext.length ≤ 2 ^ 38 - 64) (net : List (List UInt8)) :
    ∃ cid blob, Runs (@MailClient.putSealed _ curve mailCrypto aead c
      (@Identity.nodeId curve sha512 bob.identity) plaintext draw) net cid (blob :: net) :=
  ⟨_, _, @runs_putSealed _ curve sha512 mailCrypto aead c recipientSeed plaintext _ draw
    (if_pos h) net _ _ (by rw [hput]; rfl)⟩

theorem exists_runs_lookalike : ∃ env net',
    Runs (@MailClient.compose _ _ curve sha512 mailCrypto aead alice lookalike (fun _ => draw) 1)
      [] env net' := by
  obtain ⟨cid, blob, hput⟩ := exists_runs_putSealed alice rfl lookalike.body (by decide) []
  refine ⟨_, [blob], (@runs_compose _ _ curve sha512 mailCrypto aead alice lookalike _
    parseNodeId_recipient _ _ _ _ _).mpr ⟨by decide, cid, "a", [blob], [], ?_, rfl, rfl⟩⟩
  exact runs_bind.mpr ⟨cid, [blob], hput, rfl⟩

theorem exists_runs_confidential : ∃ env net',
    Runs (@MailClient.compose _ _ curve sha512 mailCrypto aead alice confidential (fun _ => draw) 1)
      [] env net' := by
  obtain ⟨cid, blob, hput⟩ :=
    exists_runs_putSealed alice rfl (BodyContent.encode ⟨"a", [1]⟩) (by decide) []
  obtain ⟨cid', blob', hput'⟩ :=
    exists_runs_putSealed alice rfl (Attachment.encode ⟨"n", "t", [7]⟩) (by decide) [blob]
  refine ⟨_, [blob', blob], (@runs_compose _ _ curve sha512 mailCrypto aead alice confidential _
    parseNodeId_recipient _ _ _ _ _).mpr
      ⟨by decide, cid, redactedSubject, [blob], [cid'], ?_, ?_, rfl⟩⟩
  · exact runs_bind.mpr ⟨cid, [blob], hput, rfl⟩
  · exact runs_bind.mpr ⟨cid', [blob', blob], hput', rfl⟩

end Sample

/-! ## A raw body -/

section Client

variable {Net Cap : Type} {holds : Net → String → List UInt8 → Prop} [Curve] [Sha512] [Crypto]
  [Aead] {sender recipient : MailClient Net} {opts : SendOptions Cap} {draws : Nat → Draw}
  {now : UInt64} {net net' : Net} {env : Envelope}

/--
**An unsealed body arrives as it was sent exactly when it does not look structured.**
Whatever the network does with what it holds, and in whatever way the envelope is opened.
-/
theorem arrives_raw_iff (hsender : BlobStore holds sender.transport)
    (hrecipient : BlobStore holds recipient.transport)
    (hto : parseNodeId opts.to = .ok recipient.identity.nodeId) (hraw : opts.sealSubject = false)
    (hsent : Runs (sender.compose opts draws now) net env net') :
    Arrives holds recipient net' env opts.body none opts.subject ↔ ¬LooksStructured opts.body := by
  refine ⟨?_, ?_⟩
  · intro harrives hlooks
    exact not_arrives_of_looksStructured hsender hrecipient hto hraw hsent hlooks harrives
  · intro hlooks
    have hlen := length_body_lt ((runs_compose hto).mp hsent).1
    obtain ⟨hsubject, hopen⟩ := openContent_of_raw hsender hrecipient hto hraw hsent
    have hdec : BodyContent.tryDecode opts.body = none := by
      refine Option.eq_none_iff_forall_ne_some.mpr ?_
      intro content hcontent
      exact hlooks ⟨content, (tryDecode_eq_some hlen).mp hcontent⟩
    rw [hdec] at hopen
    rw [← hsubject]
    exact arrives_of_openContent hrecipient hopen

end Client

/-- The theorem at a body that looks structured. -/
theorem arrives_raw_iff_sample : ∃ env net',
    Runs (@MailClient.compose _ _ Sample.curve Sample.sha512 Sample.mailCrypto Sample.aead
        Sample.alice Sample.lookalike (fun _ => Sample.draw) 1) [] env net'
      ∧ (@Arrives _ Sample.curve Sample.sha512 Sample.mailCrypto Sample.aead Sample.held Sample.bob
          net' env Sample.lookalike.body none Sample.lookalike.subject
        ↔ ¬LooksStructured Sample.lookalike.body) := by
  obtain ⟨env, net', hsent⟩ := Sample.exists_runs_lookalike
  exact ⟨env, net', hsent, @arrives_raw_iff _ _ _ Sample.curve Sample.sha512 Sample.mailCrypto
    Sample.aead Sample.alice Sample.bob _ _ _ _ _ _ Sample.blobStore Sample.blobStore
    Sample.parseNodeId_recipient rfl hsent⟩

/-- That body does not arrive: what does is an empty one, with an empty subject. -/
theorem lookalike_not_arrives : ∃ env net',
    Runs (@MailClient.compose _ _ Sample.curve Sample.sha512 Sample.mailCrypto Sample.aead
        Sample.alice Sample.lookalike (fun _ => Sample.draw) 1) [] env net'
      ∧ @Effect.Ensures _ _ _ (Later Sample.held net') (@MailClient.openContent _ Sample.curve
          Sample.sha512 Sample.mailCrypto Sample.aead Sample.bob env) (· = ([], some ""))
      ∧ ¬@Arrives _ Sample.curve Sample.sha512 Sample.mailCrypto Sample.aead Sample.held Sample.bob
          net' env Sample.lookalike.body none Sample.lookalike.subject := by
  obtain ⟨env, net', hsent⟩ := Sample.exists_runs_lookalike
  have hlooks : LooksStructured Sample.lookalike.body := ⟨⟨"", []⟩, by decide +kernel⟩
  have hdec : BodyContent.tryDecode Sample.lookalike.body = some ⟨"", []⟩ := by decide +kernel
  have hopen := (@openContent_of_raw _ _ _ Sample.curve Sample.sha512 Sample.mailCrypto
    Sample.aead _ _ Sample.alice Sample.bob Sample.lookalike _ _ _ Sample.blobStore
    Sample.blobStore Sample.parseNodeId_recipient rfl hsent).2
  rw [hdec] at hopen
  exact ⟨env, net', hsent, hopen, @not_arrives_of_looksStructured _ _ _ Sample.curve Sample.sha512
    Sample.mailCrypto Sample.aead _ _ Sample.alice Sample.bob _ _ _ _ Sample.blobStore
    Sample.blobStore Sample.parseNodeId_recipient rfl hsent hlooks⟩

/-! ## A sealed subject -/

section Client

variable {Net Cap : Type} {holds : Net → String → List UInt8 → Prop} [Curve] [Sha512] [Crypto]
  [Aead] {sender recipient : MailClient Net} {opts : SendOptions Cap} {draws : Nat → Draw}
  {now : UInt64} {net net' : Net} {env : Envelope}

/-- The envelope hides its subject, and all that was sealed arrives. -/
structure ArrivesSealed (holds : Net → String → List UInt8 → Prop) (recipient : MailClient Net)
    (net : Net) (env : Envelope) (opts : SendOptions Cap) : Prop where
  redacted : env.body.subject = redactedSubject
  arrives : Arrives holds recipient net env opts.body (some opts.subject) opts.subject
  length_cids : env.body.attachmentCids.length = opts.attachments.length
  attachment : ∀ i a, opts.attachments[i]? = some a →
    Ensures (Later holds net) (recipient.openAttachment env i) (· = a)
  outOfRange : ∀ i, opts.attachments.length ≤ i →
    recipient.openAttachment env i = throw s!"attachment index {i} out of range"
  attachments : Ensures (Later holds net) (recipient.openAttachments env) (· = opts.attachments)

/-- **Sealed-subject mail and attachments round-trip**, all of them and in order. -/
theorem arrives_sealed (hsender : BlobStore holds sender.transport)
    (hrecipient : BlobStore holds recipient.transport)
    (hto : parseNodeId opts.to = .ok recipient.identity.nodeId) (hsealed : opts.sealSubject = true)
    (hsent : Runs (sender.compose opts draws now) net env net') :
    ArrivesSealed holds recipient net' env opts := by
  obtain ⟨-, net₁, hbody, hcids⟩ := exists_of_compose hto hsent
  unfold MailClient.storeBody at hbody
  rw [if_pos hsealed] at hbody
  obtain ⟨cid, net₂, hput, hpure⟩ := runs_bind.mp hbody
  obtain ⟨hpair, rfl⟩ := runs_pure.mp hpure
  obtain ⟨rfl, hsubject⟩ := Prod.mk.inj hpair
  obtain ⟨hstored, -, hlen⟩ := stored_putSealed hsender hput
  obtain ⟨hall, hlater⟩ := forall₂_storeAttachments hsender hcids
  have hopen := ensures_openContent hrecipient (hstored.later hlater)
  rw [(tryDecode_eq_some hlen).mpr (List.prefix_refl _)] at hopen
  refine ⟨hsubject, arrives_of_openContent hrecipient hopen, hall.length_eq.symm, ?_, ?_, ?_⟩
  · intro i a ha
    obtain ⟨hi, rfl⟩ := List.getElem?_eq_some_iff.mp ha
    have hi' : i < env.body.attachmentCids.length := hall.length_eq ▸ hi
    exact ensures_openAttachment hrecipient (List.getElem?_eq_getElem hi')
      (List.forall₂_iff_get.mp hall |>.2 i hi hi')
  · intro i hi
    unfold MailClient.openAttachment
    rw [List.getElem?_eq_none (hall.length_eq ▸ hi)]
  · exact ensures_openAttachmentsFrom hrecipient List.drop_zero hall

end Client

/-- A confidential message with one attachment. -/
theorem arrives_sealed_sample : ∃ env net',
    Runs (@MailClient.compose _ _ Sample.curve Sample.sha512 Sample.mailCrypto Sample.aead
        Sample.alice Sample.confidential (fun _ => Sample.draw) 1) [] env net'
      ∧ @ArrivesSealed _ _ Sample.curve Sample.sha512 Sample.mailCrypto Sample.aead Sample.held
          Sample.bob net' env Sample.confidential := by
  obtain ⟨env, net', hsent⟩ := Sample.exists_runs_confidential
  exact ⟨env, net', hsent, @arrives_sealed _ _ _ Sample.curve Sample.sha512 Sample.mailCrypto
    Sample.aead Sample.alice Sample.bob _ _ _ _ _ _ Sample.blobStore Sample.blobStore
    Sample.parseNodeId_recipient rfl hsent⟩

end CeMail
