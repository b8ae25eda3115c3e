import CeMail.Lib.KeyExchange
import CeMail.Model.SealedBox
import CeMail.Proof.StoreRun

/-!
# Sealing and opening

The two sides of a sealed box multiply differently: the sender turns the recipient's
Edwards key into its Montgomery form, while the recipient multiplies the ephemeral key by
a scalar it has expanded from its seed and reduced. Both come to the same coordinate since
everything in sight is a multiple of the base point, and from there on the two derivations
have the same input.
-/

namespace CeMail

section SealedBox

variable [Curve] [Sha512]

/-- The X25519 key of a node is its own secret times the base point. -/
theorem x25519PublicFromNodeId_ed25519PublicKey (seed : Bytes 32) :
    x25519PublicFromNodeId (ed25519PublicKey seed) = .ok (Curve.toMontgomery
      (Bincode.ofLE (x25519SecretFromEd25519 seed).val • Curve.basepoint)) := by
  rw [x25519PublicFromNodeId, ed25519PublicKey, Curve.decompress_compress]

/-- One shared secret, from either side. -/
theorem ecdh_eq (seed random : Bytes 32) :
    ecdh (clamp random) (Curve.toMontgomery
        (Bincode.ofLE (x25519SecretFromEd25519 seed).val • Curve.basepoint))
      = ecdh (x25519SecretFromEd25519 seed) (ephemeralPublic random) :=
  KeyExchange.shared_eq Curve.mulMontgomery_toMontgomery Curve.order_nsmul _ _

variable [Crypto]

/-- Both sides derive one key. -/
theorem sealKey_eq_openKey (seed random : Bytes 32) :
    sealKey (Curve.toMontgomery
        (Bincode.ofLE (x25519SecretFromEd25519 seed).val • Curve.basepoint)) random
      = openKey seed (ephemeralPublic random) := by
  rw [sealKey, ecdh_eq]
  rfl

variable [Aead] {seed random : Bytes 32} {nonce : Bytes 12} {m c : List UInt8}

/-- A box, as sealed with the key its recipient derives. -/
theorem seal_of_encrypt
    (h : Aead.encrypt (openKey seed (ephemeralPublic random)) nonce m = some c) :
    SealedBody.seal (ed25519PublicKey seed) m random nonce
      = .ok ⟨(ephemeralPublic random).val, nonce.val, c⟩ := by
  rw [SealedBody.seal, x25519PublicFromNodeId_ed25519PublicKey]
  rw [← sealKey_eq_openKey] at h
  simp only [bind, Except.bind, h]

/-- There is no box only where the AEAD gives no ciphertext. -/
theorem seal_of_encrypt_eq_none
    (h : Aead.encrypt (openKey seed (ephemeralPublic random)) nonce m = none) :
    SealedBody.seal (ed25519PublicKey seed) m random nonce = .error "AEAD seal failed" := by
  rw [SealedBody.seal, x25519PublicFromNodeId_ed25519PublicKey]
  rw [← sealKey_eq_openKey] at h
  simp only [bind, Except.bind, h]

omit [Curve] [Sha512] [Crypto] in
/-- A box that was sealed has all its lengths in bounds. -/
theorem fits_of_encrypt {key epk : Bytes 32} (h : Aead.encrypt key nonce m = some c) :
    Bincode.Fits (⟨epk.val, nonce.val, c⟩ : SealedBody) := by
  have hbytes : ∀ {bs : List UInt8}, bs.length < 2 ^ 64 → Bincode.Fits bs := by
    intro bs hlen
    exact ⟨hlen, fun _ _ => trivial⟩
  refine ⟨hbytes ?_, hbytes ?_, hbytes (Aead.length_encrypt h).2⟩
  · rw [epk.property]
    decide
  · rw [nonce.property]
    decide

/-- The recipient's key undoes the encryption. -/
theorem open_of_encrypt
    (h : Aead.encrypt (openKey seed (ephemeralPublic random)) nonce m = some c) :
    SealedBody.open seed ⟨(ephemeralPublic random).val, nonce.val, c⟩ = .ok m := by
  rw [SealedBody.open, dif_pos (ephemeralPublic random).property, dif_pos nonce.property]
  simp only [Subtype.coe_eta, Aead.decrypt_encrypt h]

/-- **The recipient opens what was sealed to it**, out of the bytes that travelled. -/
theorem decode_open_of_encrypt
    (h : Aead.encrypt (openKey seed (ephemeralPublic random)) nonce m = some c) :
    (decodeSealed (encodeSealed ⟨(ephemeralPublic random).val, nonce.val, c⟩)
      >>= SealedBody.open seed) = .ok m := by
  have hdec : decodeSealed (encodeSealed ⟨(ephemeralPublic random).val, nonce.val, c⟩)
      = .ok ⟨(ephemeralPublic random).val, nonce.val, c⟩ := by
    rw [decodeSealed, Bincode.deserialize, encodeSealed,
      Bincode.dec_enc_self (fits_of_encrypt h)]
  rw [hdec]
  exact open_of_encrypt h

variable (seed random nonce m)

/--
**Sender and recipient of a sealed box agree.** Whatever the seed and the random bytes
are, both derive one key, and a plaintext comes back out of the bytes of its box; none is
made only where the AEAD refuses the plaintext.
-/
theorem sealedBox_agrees :
    (∃ pk, x25519PublicFromNodeId (ed25519PublicKey seed) = .ok pk
        ∧ sealKey pk random = openKey seed (ephemeralPublic random))
      ∧ (do
          let s ← SealedBody.seal (ed25519PublicKey seed) m random nonce
          let s ← decodeSealed (encodeSealed s)
          SealedBody.open seed s)
        = match Aead.encrypt (openKey seed (ephemeralPublic random)) nonce m with
          | some _ => .ok m
          | none => .error "AEAD seal failed" := by
  refine ⟨⟨_, x25519PublicFromNodeId_ed25519PublicKey seed, sealKey_eq_openKey seed random⟩, ?_⟩
  cases hc : Aead.encrypt (openKey seed (ephemeralPublic random)) nonce m with
  | some c =>
      have hopen := decode_open_of_encrypt hc
      simp only [bind, Except.bind] at hopen
      simp only [seal_of_encrypt hc, bind, Except.bind, hopen]
  | none =>
      simp only [seal_of_encrypt_eq_none hc, bind, Except.bind]

end SealedBox

/-! ## A sample -/

namespace Sample

/-- Moves some values to others, and those out of their way. -/
def exchange {α : Type} [DecidableEq α] (pairs : List (α × α)) : Equiv.Perm α :=
  (pairs.map fun p => Equiv.swap p.1 p.2).prod

theorem length_exchange {α : Type} [DecidableEq α] {pairs : List (List α × List α)}
    (h : ∀ p ∈ pairs, p.1.length = p.2.length) (x : List α) :
    (exchange pairs x).length = x.length := by
  induction pairs generalizing x with
  | nil => rfl
  | cons p pairs ih =>
      obtain ⟨hp, hpairs⟩ := List.forall_mem_cons.mp h
      have hrest := ih hpairs x
      show (Equiv.swap p.1 p.2 (exchange pairs x)).length = x.length
      rw [Equiv.swap_apply_def]
      split
      · rename_i heq
        rw [← hp, ← heq, hrest]
      · split
        · rename_i heq
          rw [hp, ← heq, hrest]
        · exact hrest

/-- The order of the base point. -/
def order : Nat := 2 ^ 252 + 27742317777372353535851937790883648493

instance : NeZero order := ⟨by decide⟩

theorem bytes_inj {v w : Nat} (hv : v < 2 ^ 256) (hw : w < 2 ^ 256) (h : bytes 32 v = bytes 32 w) :
    v = w := by
  have hle : Bincode.leBytes 32 v = Bincode.leBytes 32 w :=
    List.reverse_injective (congrArg Subtype.val h)
  have hnum := congrArg Bincode.ofLE hle
  rwa [Bincode.ofLE_leBytes 32 v hv, Bincode.ofLE_leBytes 32 w hw] at hnum

theorem val_lt (p : ZMod order) : p.val < 2 ^ 256 :=
  Nat.lt_trans (ZMod.val_lt p) (by decide)

/-- The seeds of `sender` and `recipient`, and what a sender draws. -/
def senderSeed : Bytes 32 := ⟨.replicate 32 1, by decide⟩

def recipientSeed : Bytes 32 := ⟨.replicate 32 2, by decide⟩

def draw : Bytes 32 × Bytes 12 := (⟨.replicate 32 3, by decide⟩, ⟨.replicate 12 4, by decide⟩)

/-- SHA-512 of the two seeds. -/
@[reducible] def sha512 : Sha512 where
  sha512 bs :=
    if bs = senderSeed.val then bytes 64 <|
      0x5ce86efb75fa4e2c410f46e16de9f6acae1a1703528651b69bc176c088bef3ee * 2 ^ 256 +
      0xb17a2a2cf3d4a41a8e4e18cc45c8656d558eceddb0adb46bfa088a5f53bed252
    else if bs = recipientSeed.val then bytes 64 <|
      0xaa3c626bc9c38c8c201878ebb1d5b0b50ac40e8986c78793db1d4ef369fca1ce * 2 ^ 256 +
      0x67bdb50c138aad8fe3e6539e54f54e10f9a32399529a732be3d2243b867f6acc
    else bytes 64 0

/-- The public keys of the two seeds, by their discrete logarithms. -/
def edwards : Equiv.Perm (Bytes 32) := exchange [
  (bytes 32 0xef3be88c076c19bb651865203171aae2fbd0e360f78623b1be0a7d7cdabf0ca, sender),
  (bytes 32 0xea1fc69f34e1ddb9387c786890ec40a6234ee375f99a4c72c43375ff78aecf4, recipient)]

/-- The ephemeral key of that draw, and the secret it makes with the recipient. -/
def ephemeral : Bytes 32 :=
  bytes 32 0x5dfedd3b6bd47f6fa28ee15d969d5bb0ea53774d488bdaf9df1c6e0124b3ef22

def shared : Bytes 32 :=
  bytes 32 0xa0b1cfdbfb8263f16948ac77aaba7e4381fa6d1ba1e2b93d2b5db56dece4ae5d

/--
The u-coordinates of the recipient's key, of the ephemeral key and of the secret they
share, by the smaller of two opposite logarithms.
-/
def montgomery : Equiv.Perm (Bytes 32) := exchange [
  (bytes 32 0x15e03960cb1e2246c78387976f13bf5b2aa0ba7435df80f2bcf2bba656ae6f9,
    bytes 32 0x60346e7c911a5f6ba154129174cafe75b294ac3bbd5549632f48cec6266f8410),
  (bytes 32 0x3030303030303030303030303030302af871b8877248fa9a2b976998f2bb34c, ephemeral),
  (bytes 32 0x6308a68fe22f831c6c29c88a261eaa7050dd6db707d14cb488dcba1d1847103, shared)]

/-- A u-coordinate does not tell a point from its opposite. -/
def coordinate (p : ZMod order) : Bytes 32 := montgomery (bytes 32 (min p.val (-p).val))

theorem coordinate_eq_iff (p q : ZMod order) : coordinate p = coordinate q ↔ q = p ∨ q = -p := by
  unfold coordinate
  rw [montgomery.injective.eq_iff]
  refine ⟨?_, ?_⟩
  · intro h
    have hmin := bytes_inj (Nat.lt_of_le_of_lt (Nat.min_le_left _ _) (val_lt p))
      (Nat.lt_of_le_of_lt (Nat.min_le_left _ _) (val_lt q)) h
    have hval : q.val = p.val ∨ q.val = (-p).val ∨ (-q).val = p.val ∨ (-q).val = (-p).val := by
      omega
    rcases hval with h | h | h | h
    · exact Or.inl (ZMod.val_injective order h)
    · exact Or.inr (ZMod.val_injective order h)
    · exact Or.inr (neg_eq_iff_eq_neg.mp (ZMod.val_injective order h))
    · exact Or.inl (neg_injective (ZMod.val_injective order h))
  · intro h
    rcases h with rfl | rfl
    · rfl
    · rw [neg_neg, min_comm]

/-- The multiples of the base point, as numbers modulo its order. -/
@[reducible] noncomputable def curve : Curve where
  Point := ZMod order
  basepoint := (1 : ZMod order)
  order := order
  order_nsmul := (nsmul_one order).trans (ZMod.natCast_self order)
  compress p := edwards (bytes 32 (ZMod.val p))
  decompress b := some (Bincode.ofLE (edwards.symm b).val.reverse : ZMod order)
  decompress_compress p := by
    rw [Equiv.symm_apply_apply, bytes, List.reverse_reverse, Bincode.ofLE_leBytes 32 _ (val_lt p),
      ZMod.natCast_zmod_val]
  toMontgomery := coordinate
  mulMontgomery := (KeyExchange.exists_mul_of_up_to_sign coordinate_eq_iff).choose
  mulMontgomery_toMontgomery :=
    (KeyExchange.exists_mul_of_up_to_sign coordinate_eq_iff).choose_spec

theorem val_nsmul (n : Nat) : ZMod.val (n • (1 : ZMod order)) = n % order := by
  rw [nsmul_one, ZMod.val_natCast]

theorem ed25519PublicKey_senderSeed : @ed25519PublicKey curve sha512 senderSeed = sender := by
  show edwards (bytes 32 (ZMod.val (_ • (1 : ZMod order)))) = sender
  rw [val_nsmul]
  decide +kernel

theorem ed25519PublicKey_recipientSeed :
    @ed25519PublicKey curve sha512 recipientSeed = recipient := by
  show edwards (bytes 32 (ZMod.val (_ • (1 : ZMod order)))) = recipient
  rw [val_nsmul]
  decide +kernel

theorem coordinate_nsmul (n : Nat) : coordinate (n • (1 : ZMod order))
    = montgomery (bytes 32 (min (n % order) ((order - n % order) % order))) := by
  rw [coordinate, ZMod.neg_val', val_nsmul]

/-- The ephemeral key of the draw, and what the recipient shares with it. -/
theorem agreement_draw : @ephemeralPublic curve draw.1 = ephemeral
    ∧ @ecdh curve (@x25519SecretFromEd25519 sha512 recipientSeed) ephemeral = shared := by
  have hephemeral : @ephemeralPublic curve draw.1 = ephemeral := by
    unfold ephemeralPublic mulBase
    show coordinate (_ • (1 : ZMod order)) = ephemeral
    rw [coordinate_nsmul]
    decide +kernel
  refine ⟨hephemeral, ?_⟩
  rw [← hephemeral]
  unfold ecdh ephemeralPublic mulBase
  rw [@Curve.mulMontgomery_toMontgomery curve, ← mul_nsmul']
  show coordinate (_ • (1 : ZMod order)) = shared
  rw [coordinate_nsmul]
  decide +kernel

/-- Three plaintexts, with room for a tag, and their ciphertexts under the agreed key. -/
def boxes : List (List UInt8 × List UInt8) := [
  ((bytes 17 0xc500000000000000000000000000000000).val ++ .replicate 16 0,
    (bytes 33 0xb76261d759a1aa0aab7cc2e13d52f5117e2dceaf0a6e950a1ceadb73cfe717eb2f).val),
  ((bytes 19 0xc5010000000000000061010000000000000001).val ++ .replicate 16 0,
    (bytes 35 0xb76361d759a1aa0aab1dc3e13d52f5117ecbb5b8465c687a5025159ca9c83337143059).val),
  ((bytes 27 0x01000000000000006e010000000000000074010000000000000007).val ++ .replicate 16 0,
    (bytes 43 (0x736261d759a1aa0ac57dc2e13d52f5117ebfb5b3b05d * 2 ^ 168
      + 0x75f80da1d093f653e47b247a85df7642c27cf44649)).val)]

/-- The key the two agree on. -/
def agreedKey : Bytes 32 :=
  bytes 32 0x94cf614a79c5db1a8f81068249b416f73aeb8e0cb344786e6db4a532fbbf57c9

/-- SHA-256 where that key is derived, besides. -/
@[reducible] def boxCrypto : Crypto where
  verify := crypto.verify
  sha256 bs :=
    if bs = kdfDomain ++ shared.val ++ ephemeral.val then agreedKey else crypto.sha256 bs

/-- The encryption of what has room for a tag. -/
def cipher (key : Bytes 32) (nonce : Bytes 12) : Equiv.Perm (List UInt8) :=
  if key = agreedKey ∧ nonce = draw.2 then exchange boxes else 1

theorem length_cipher (key : Bytes 32) (nonce : Bytes 12) (x : List UInt8) :
    (cipher key nonce x).length = x.length := by
  unfold cipher
  split
  · exact length_exchange (by decide) x
  · rfl

/-- The AEAD on these boxes. It takes no more than 2^38 - 64 bytes. -/
@[reducible] def aead : Aead where
  encrypt key nonce m :=
    if m.length ≤ 2 ^ 38 - 64 then some (cipher key nonce (m ++ .replicate 16 0)) else none
  decrypt key nonce c := some (((cipher key nonce).symm c).take (c.length - 16))
  decrypt_encrypt h := by
    obtain ⟨-, hc⟩ := Option.ite_none_right_eq_some.mp h
    obtain rfl := Option.some.inj hc
    rw [Equiv.symm_apply_apply, length_cipher, List.length_append, List.length_replicate,
      Nat.add_sub_cancel, List.take_left]
  length_encrypt h := by
    obtain ⟨hlen, hc⟩ := Option.ite_none_right_eq_some.mp h
    obtain rfl := Option.some.inj hc
    rw [length_cipher, List.length_append, List.length_replicate]
    omega

end Sample

/-- A sealed body and what its recipient makes of it. -/
theorem sealedBox_agrees_sample :
    (do
      let s ← @SealedBody.seal Sample.curve Sample.boxCrypto Sample.aead Sample.recipient
        (0xC5 :: .replicate 16 0) Sample.draw.1 Sample.draw.2
      let s ← decodeSealed (encodeSealed s)
      @SealedBody.open Sample.curve Sample.boxCrypto Sample.aead Sample.sha512
        Sample.recipientSeed s) = .ok (0xC5 :: .replicate 16 0) := by
  rw [← Sample.ed25519PublicKey_recipientSeed]
  exact (@sealedBox_agrees Sample.curve Sample.sha512 Sample.boxCrypto Sample.aead
    Sample.recipientSeed Sample.draw.1 Sample.draw.2 (0xC5 :: .replicate 16 0)).2

end CeMail
