import Taunicorn.Security.Wire

/-!
# Cryptographic primitives

The primitives come from other packages and are parameters here. `Crypto` lists what the secure
layer calls, with the sizes its types promise; a development about the secure layer never looks
inside them and names what it relies on as a hypothesis.

`Event` is the record of those calls. The programs of the secure layer note an event at every
call whose arguments a security property talks about, so that the property can be stated about
what was signed, sealed or opened rather than about the bytes on the wire.
-/

namespace Taunicorn

namespace Security

/-- The functions the secure layer calls in other packages. -/
structure Crypto where
  /-- `SigningKey::from_bytes(key).verifying_key().to_bytes()`. -/
  verifyingKey : Bytes ed25519PrivateKeySize → Bytes ed25519PublicKeySize
  /-- `SigningKey::sign`. -/
  sign : Bytes ed25519PrivateKeySize → List UInt8 → Bytes ed25519SignatureSize
  /-- `VerifyingKey::from_bytes`: no error, if it accepts the key. -/
  keyDecodes : Bytes ed25519PublicKeySize → Except Error Unit
  /-- `Signature::try_from` accepts the signature. -/
  signatureDecodes : Bytes ed25519SignatureSize → Bool
  /-- `VerifyingKey::verify` accepts the signature. -/
  verify : Bytes ed25519PublicKeySize → List UInt8 → Bytes ed25519SignatureSize → Bool
  /-- The X25519 public key of a secret. -/
  x25519Public : Bytes 32 → Bytes x25519PublicKeySize
  /-- `EphemeralSecret::diffie_hellman`. -/
  diffieHellman : Bytes 32 → Bytes x25519PublicKeySize → Bytes x25519SharedSecretSize
  /-- `SharedSecret::was_contributory`. -/
  wasContributory : Bytes x25519SharedSecretSize → Bool
  /-- SHA-256. -/
  sha256 : List UInt8 → Bytes transcriptHashSize
  /-- HKDF-SHA256 with a salt, a secret and an info string. Expansion fails only for outputs of
  more than 8160 bytes, so it is total at this length. -/
  hkdf : Bytes transcriptHashSize → Bytes x25519SharedSecretSize → List UInt8 →
    Bytes hkdfOutputSize
  /-- ChaCha20-Poly1305 encryption under key, nonce and associated data. -/
  encrypt : Bytes aeadKeySize → Bytes aeadNonceSize → List UInt8 → List UInt8 →
    Option (List UInt8)
  /-- ChaCha20-Poly1305 decryption under key, nonce and associated data. -/
  decrypt : Bytes aeadKeySize → Bytes aeadNonceSize → List UInt8 → List UInt8 →
    Option (List UInt8)

/-- What the `aead` crate documents of ChaCha20-Poly1305: every message of at most the frame
limit can be encrypted, the tag adds 16 bytes, and decryption under equal parameters undoes it. -/
structure Crypto.AeadCorrect (cr : Crypto) : Prop where
  encrypt_isSome : ∀ key nonce aad plaintext, plaintext.length ≤ maxFrameSize →
    (cr.encrypt key nonce aad plaintext).isSome
  length_encrypt : ∀ key nonce aad plaintext ciphertext,
    cr.encrypt key nonce aad plaintext = some ciphertext →
      ciphertext.length = plaintext.length + aeadTagSize
  decrypt_encrypt : ∀ key nonce aad plaintext ciphertext,
    cr.encrypt key nonce aad plaintext = some ciphertext →
      cr.decrypt key nonce aad ciphertext = some plaintext

/-- What the `ed25519-dalek` crate documents of a key and its own signatures. -/
structure Crypto.SignCorrect (cr : Crypto) : Prop where
  keyDecodes_verifyingKey : ∀ key, cr.keyDecodes (cr.verifyingKey key) = .ok ()
  signatureDecodes_sign : ∀ key message, cr.signatureDecodes (cr.sign key message) = true
  verify_sign : ∀ key message,
    cr.verify (cr.verifyingKey key) message (cr.sign key message) = true

/-! ### An instance without secrets -/

/-- The authentication tag of `Crypto.transparent`. -/
def transparentTag (key : Bytes aeadKeySize) (nonce : Bytes aeadNonceSize) : Bytes aeadTagSize :=
  ⟨nonce.val ++ key.val.take 4, by
    rw [List.length_append, List.length_take, Bytes.length, Bytes.length]; rfl⟩

/-- Primitives with the right sizes and equations and no strength at all. They let the programs
of the secure layer be evaluated. -/
def Crypto.transparent : Crypto where
  verifyingKey key := key
  sign key _ := ⟨key.val ++ key.val, by rw [List.length_append, Bytes.length]; rfl⟩
  keyDecodes _ := .ok ()
  signatureDecodes _ := true
  verify key _ signature := signature.val = key.val ++ key.val
  x25519Public secret := secret
  diffieHellman secret peer := ⟨List.zipWith (· + ·) secret.val peer.val, by simp⟩
  wasContributory secret := secret.val.any (· ≠ 0)
  sha256 bytes := ⟨(bytes.reverse ++ List.replicate 32 0).take 32, by simp⟩
  hkdf salt secret _ := ⟨secret.val ++ salt.val ++ List.replicate 8 0, by
    rw [List.length_append, List.length_append, Bytes.length, Bytes.length]; rfl⟩
  encrypt key nonce _ plaintext := some (plaintext ++ (transparentTag key nonce).val)
  decrypt key nonce _ ciphertext :=
    if ciphertext.drop (ciphertext.length - aeadTagSize) = (transparentTag key nonce).val then
      some (ciphertext.take (ciphertext.length - aeadTagSize))
    else none

theorem Crypto.transparent_signCorrect : Crypto.transparent.SignCorrect where
  keyDecodes_verifyingKey _ := rfl
  signatureDecodes_sign _ _ := rfl
  verify_sign _ _ := decide_eq_true rfl

theorem Crypto.transparent_aeadCorrect : Crypto.transparent.AeadCorrect where
  encrypt_isSome _ _ _ _ _ := rfl
  length_encrypt key nonce aad plaintext ciphertext h := by
    rw [← Option.some.inj (h : some _ = some _), List.length_append, Bytes.length]
  decrypt_encrypt key nonce aad plaintext ciphertext h := by
    have hlen : (plaintext ++ (transparentTag key nonce).val).length - aeadTagSize
        = plaintext.length := by
      rw [List.length_append, Bytes.length, Nat.add_sub_cancel]
    rw [← Option.some.inj (h : some _ = some _)]
    simp only [transparent, hlen, List.drop_left, List.take_left, if_true]

/-! ### Key material -/

/-- The traffic keys and nonce prefixes of one session. -/
structure KeyMaterial where
  clientToServerKey : Bytes aeadKeySize
  clientToServerNoncePrefix : Bytes noncePrefixSize
  serverToClientKey : Bytes aeadKeySize
  serverToClientNoncePrefix : Bytes noncePrefixSize
  deriving DecidableEq

/-- The values the two ends of a handshake have to agree on. -/
structure Session where
  clientEphemeral : Bytes x25519PublicKeySize
  clientIdentity : Bytes ed25519PublicKeySize
  clientNonce : Bytes handshakeNonceSize
  serverEphemeral : Bytes x25519PublicKeySize
  serverIdentity : Bytes ed25519PublicKeySize
  serverNonce : Bytes handshakeNonceSize
  sharedSecret : Bytes x25519SharedSecretSize
  transcriptHash : Bytes transcriptHashSize
  keys : KeyMaterial
  deriving DecidableEq

/-- The two ends of a connection. -/
inductive Role where
  | client
  | server
  deriving DecidableEq, Repr

/-- The other end. -/
def Role.other : Role → Role
  | .client => .server
  | .server => .client

/-- The identity of one end. -/
def Session.identity (s : Session) : Role → Bytes ed25519PublicKeySize
  | .client => s.clientIdentity
  | .server => s.serverIdentity

/-- The ephemeral key of one end. -/
def Session.ephemeral (s : Session) : Role → Bytes x25519PublicKeySize
  | .client => s.clientEphemeral
  | .server => s.serverEphemeral

/-- The handshake nonce of one end. -/
def Session.nonce (s : Session) : Role → Bytes handshakeNonceSize
  | .client => s.clientNonce
  | .server => s.serverNonce

/-! ### Events -/

/-- A call of a primitive, with its answer. -/
inductive Event where
  /-- The holder of `identity` signed `message`. -/
  | sign (identity : Bytes ed25519PublicKeySize) (message : List UInt8)
  /-- A signature was checked, and verified. -/
  | verified (identity : Bytes ed25519PublicKeySize) (message : List UInt8)
      (signature : Bytes ed25519SignatureSize)
  /-- A handshake derived its key material. -/
  | derive (session : Session)
  | encrypt (key : Bytes aeadKeySize) (nonce : Bytes aeadNonceSize) (aad plaintext : List UInt8)
      (ciphertext : Option (List UInt8))
  | decrypt (key : Bytes aeadKeySize) (nonce : Bytes aeadNonceSize) (aad ciphertext : List UInt8)
      (plaintext : Option (List UInt8))
  deriving DecidableEq

end Security

end Taunicorn
