import CeMail.Model.Envelope

/-!
# Sealed bodies

End-to-end encryption to a node known by its id alone. The id is an Ed25519 public key,
whose Montgomery form is an X25519 public key; the matching secret comes from the node's
seed the way Ed25519 itself expands it. A sender makes an ephemeral key pair, derives a
symmetric key from the shared secret and sends the ephemeral public key along.

The curve, the AEAD and SHA-512 come from other crates. They are the parameters below,
with what the construction relies on as their laws. Random bytes are arguments.
-/

namespace CeMail

/--
What `curve25519_dalek` supplies: the Edwards curve as a group, its base point, and the
Montgomery form of a point, which keeps the point only up to sign.
-/
class Curve where
  /-- `EdwardsPoint` -/
  Point : Type
  [group : AddCommGroup Point]
  /-- `constants::ED25519_BASEPOINT_POINT` -/
  basepoint : Point
  /-- The order of the base point, by which a `Scalar` is reduced. -/
  order : Nat
  order_nsmul : order • basepoint = 0
  /-- `EdwardsPoint::compress` -/
  compress : Point → Bytes 32
  /-- `CompressedEdwardsY::decompress` -/
  decompress : Bytes 32 → Option Point
  decompress_compress : ∀ p, decompress (compress p) = some p
  /-- `EdwardsPoint::to_montgomery`, as the bytes of its u-coordinate. -/
  toMontgomery : Point → Bytes 32
  /-- `Scalar * MontgomeryPoint` -/
  mulMontgomery : Nat → Bytes 32 → Bytes 32
  mulMontgomery_toMontgomery : ∀ n p, mulMontgomery n (toMontgomery p) = toMontgomery (n • p)

attribute [reducible, instance] Curve.group

/-- What `chacha20poly1305` supplies. A plaintext can be too long to encrypt. -/
class Aead where
  /-- `ChaCha20Poly1305::encrypt` -/
  encrypt : Bytes 32 → Bytes 12 → List UInt8 → Option (List UInt8)
  /-- `ChaCha20Poly1305::decrypt` -/
  decrypt : Bytes 32 → Bytes 12 → List UInt8 → Option (List UInt8)
  decrypt_encrypt : ∀ {key nonce plaintext ciphertext},
    encrypt key nonce plaintext = some ciphertext → decrypt key nonce ciphertext = some plaintext
  /-- The ciphertext, with its tag, is held in memory. -/
  length_encrypt : ∀ {key nonce plaintext ciphertext},
    encrypt key nonce plaintext = some ciphertext →
      plaintext.length ≤ ciphertext.length ∧ ciphertext.length < 2 ^ 64

/-- `Sha512::digest` -/
class Sha512 where
  sha512 : List UInt8 → Bytes 64

/-- Domain tag of the key derivation. -/
def kdfDomain : List UInt8 := "ce-mail-sealed-box-v1".toUTF8.data.toList

/-- A sealed message body. -/
structure SealedBody where
  /-- Ephemeral sender X25519 public key. -/
  epk : List UInt8
  nonce : List UInt8
  /-- AEAD ciphertext and tag. -/
  ciphertext : List UInt8
deriving DecidableEq

instance : Bincode SealedBody :=
  Bincode.via (fun s => (s.epk, s.nonce, s.ciphertext)) (fun (e, n, c) => some ⟨e, n, c⟩)
    (fun _ => rfl)

/-! ## Keys -/

/-- The X25519 clamp of 32 bytes. -/
def clamp (s : Bytes 32) : Bytes 32 :=
  ⟨(s.val.modify 0 (· &&& 248)).modify 31 fun b => (b &&& 127) ||| 64, by simp [s.property]⟩

/-- Derive the X25519 secret scalar from an Ed25519 seed. -/
def x25519SecretFromEd25519 [Sha512] (edSecret : Bytes 32) : Bytes 32 :=
  clamp ⟨(Sha512.sha512 edSecret.val).val.take 32, by simp [(Sha512.sha512 edSecret.val).property]⟩

section Curve

variable [Curve]

/-- `Scalar::from_bytes_mod_order` -/
def scalarFromBytes (s : Bytes 32) : Nat := Bincode.ofLE s.val % Curve.order

/-- `MontgomeryPoint::mul_base` -/
def mulBase (scalar : Nat) : Bytes 32 := Curve.toMontgomery (scalar • Curve.basepoint)

/-- The Ed25519 public key of a seed, which `ce_identity` uses as the node's id. -/
def ed25519PublicKey [Sha512] (seed : Bytes 32) : NodeId :=
  Curve.compress (Bincode.ofLE (x25519SecretFromEd25519 seed).val • Curve.basepoint)

/-- The X25519 public key of a node. -/
def x25519PublicFromNodeId (nodeId : NodeId) : Except String (Bytes 32) :=
  match Curve.decompress nodeId with
  | some point => .ok (Curve.toMontgomery point)
  | none => .error "node id is not a valid Ed25519 public key"

/-- Scalar times point. -/
def ecdh (secret «public» : Bytes 32) : Bytes 32 :=
  Curve.mulMontgomery (scalarFromBytes secret) «public»

variable [Crypto]

/-- Derive the symmetric key from the shared secret and the ephemeral public key. -/
def kdf (shared epk : Bytes 32) : Bytes 32 :=
  Crypto.sha256 (kdfDomain ++ shared.val ++ epk.val)

/-- The ephemeral public key of some random bytes. -/
def ephemeralPublic (random : Bytes 32) : Bytes 32 := mulBase (scalarFromBytes (clamp random))

/-- The key a sender encrypts with. -/
def sealKey (recipientPk random : Bytes 32) : Bytes 32 :=
  kdf (ecdh (clamp random) recipientPk) (ephemeralPublic random)

/-- The key a recipient decrypts with. -/
def openKey [Sha512] (edSecret epk : Bytes 32) : Bytes 32 :=
  kdf (ecdh (x25519SecretFromEd25519 edSecret) epk) epk

namespace SealedBody

variable [Aead]

/-- Seal `plaintext` to a node, with the random bytes of an ephemeral secret and a nonce. -/
def «seal» (recipientNodeId : NodeId) (plaintext : List UInt8) (random : Bytes 32)
    (nonce : Bytes 12) : Except String SealedBody := do
  let recipientPk ← x25519PublicFromNodeId recipientNodeId
  match Aead.encrypt (sealKey recipientPk random) nonce plaintext with
  | some ciphertext => .ok ⟨(ephemeralPublic random).val, nonce.val, ciphertext⟩
  | none => .error "AEAD seal failed"

/-- Open a sealed body with the recipient's seed. -/
def «open» [Sha512] (edSecret : Bytes 32) (s : SealedBody) : Except String (List UInt8) :=
  if hepk : s.epk.length = 32 then
    if hnonce : s.nonce.length = 12 then
      match Aead.decrypt (openKey edSecret ⟨s.epk, hepk⟩) ⟨s.nonce, hnonce⟩ s.ciphertext with
      | some plaintext => .ok plaintext
      | none => .error "AEAD open failed: wrong recipient or tampered ciphertext"
    else .error "sealed body has malformed nonce"
  else .error "sealed body has malformed ephemeral key"

end SealedBody

end Curve

/-! ## As a blob -/

/-- Serialize a sealed body. -/
def encodeSealed (s : SealedBody) : List UInt8 := Bincode.enc s

/-- Deserialize a sealed body. -/
def decodeSealed (bytes : List UInt8) : Except String SealedBody :=
  Bincode.deserialize "malformed sealed body: " bytes

end CeMail
