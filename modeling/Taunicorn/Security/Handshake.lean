import Taunicorn.Security.SecureConnection

/-!
# The handshake

`SecureConnection::client` and `SecureConnection::server`, as programs over the connection they
are given.

The values the source draws at random are arguments: the ephemeral X25519 secret, and the answer
of the operating system to the request for a nonce. `create_cipher` cannot fail on an array of the
key size, and a cipher is represented by its key.

Both ends end with one encrypted message in each direction, so a program that returns leaves both
counters at 1.

## Main results

* `deriveKeyMaterial_eq` — the key schedule never fails
* `deriveKeyMaterial_inj` — and its output determines the key material and back
-/

namespace Taunicorn

namespace Security

open StreamProg

/-- What one call of `client` or `server` is given and draws at random. -/
structure Params where
  identityPrivateKey : Bytes ed25519PrivateKeySize
  /-- The pinned identity of the peer. -/
  peerIdentityPublicKey : Bytes ed25519PublicKeySize
  ephemeralPrivate : Bytes 32
  /-- The operating system's random bytes, or its error. -/
  osRandom : Except String (Bytes handshakeNonceSize)

/-- `random_handshake_nonce`. -/
def randomHandshakeNonce :
    Except String (Bytes handshakeNonceSize) → Except Error (Bytes handshakeNonceSize)
  | .ok nonce => .ok nonce
  | .error error => .error (.msg s!"failed to obtain handshake randomness: {error}")

/-! ### Key schedule -/

/-- `derive_key_material`. -/
def deriveKeyMaterial (cr : Crypto) (sharedSecret : Bytes x25519SharedSecretSize)
    (transcriptHash : Bytes transcriptHashSize) : Except Error KeyMaterial := do
  let output := (cr.hkdf transcriptHash sharedSecret (ascii "taunicorn-e2ee-v2/session-keys")).val
  let (clientToServerKey, offset) ← takeArray aeadKeySize output 0
  let (serverToClientKey, offset) ← takeArray aeadKeySize output offset
  let (clientToServerNoncePrefix, offset) ← takeArray noncePrefixSize output offset
  let (serverToClientNoncePrefix, _) ← takeArray noncePrefixSize output offset
  return { clientToServerKey := clientToServerKey,
           clientToServerNoncePrefix := clientToServerNoncePrefix,
           serverToClientKey := serverToClientKey,
           serverToClientNoncePrefix := serverToClientNoncePrefix }

/-- `handshake_transcript_hash`. -/
def handshakeTranscriptHash (cr : Crypto) (clientEphemeralPublic : Bytes x25519PublicKeySize)
    (clientIdentityPublic : Bytes ed25519PublicKeySize) (clientNonce : Bytes handshakeNonceSize)
    (serverEphemeralPublic : Bytes x25519PublicKeySize)
    (serverIdentityPublic : Bytes ed25519PublicKeySize) (serverNonce : Bytes handshakeNonceSize) :
    Bytes transcriptHashSize :=
  cr.sha256 (transcriptBytes clientEphemeralPublic clientIdentityPublic clientNonce
    serverEphemeralPublic serverIdentityPublic serverNonce)

/-! ### Signatures -/

/-- `SigningKey::sign`. -/
def sign (cr : Crypto) (identityPrivateKey : Bytes ed25519PrivateKeySize) (message : List UInt8) :
    Prog (Bytes ed25519SignatureSize) :=
  .note (.sign (cr.verifyingKey identityPrivateKey) message)
    (.pure (cr.sign identityPrivateKey message))

/-- `verify_signature`. -/
def verifySignature (cr : Crypto) (identityPublicKey : Bytes ed25519PublicKeySize)
    (message : List UInt8) (signature : Bytes ed25519SignatureSize) : Prog Unit := do
  ofExcept (cr.keyDecodes identityPublicKey)
  if cr.signatureDecodes signature then
    if cr.verify identityPublicKey message signature then
      .note (.verified identityPublicKey message signature) (.pure ())
    else .fail (.msg "peer identity signature verification failed")
  else .fail (.msg "invalid Ed25519 signature encoding")

/-! ### A fresh session -/

/-- The session the client builds from its key material. -/
def clientConnection (keys : KeyMaterial) (transcriptHash : Bytes transcriptHashSize) :
    SecureConnection where
  receiveState := ⟨keys.serverToClientKey, directionServerToClient,
    keys.serverToClientNoncePrefix, 0⟩
  sendState := ⟨keys.clientToServerKey, directionClientToServer,
    keys.clientToServerNoncePrefix, 0⟩
  transcriptHash
  directions := .inl ⟨rfl, rfl⟩

/-- The session the server builds. -/
def serverConnection (keys : KeyMaterial) (transcriptHash : Bytes transcriptHashSize) :
    SecureConnection where
  receiveState := ⟨keys.clientToServerKey, directionClientToServer,
    keys.clientToServerNoncePrefix, 0⟩
  sendState := ⟨keys.serverToClientKey, directionServerToClient,
    keys.serverToClientNoncePrefix, 0⟩
  transcriptHash
  directions := .inr ⟨rfl, rfl⟩

/-- Both counters of a session, set. A message moves nothing else of a session. -/
def SecureConnection.withSequences (c : SecureConnection) (received sent : UInt64) :
    SecureConnection where
  receiveState := { c.receiveState with sequence := received }
  sendState := { c.sendState with sequence := sent }
  transcriptHash := c.transcriptHash
  directions := c.directions

/-- `SecureConnection::receive` on a whole session. -/
def SecureConnection.receive (cr : Crypto) (c : SecureConnection) :
    Prog (List UInt8 × SecureConnection) := do
  let (plaintext, state) ← Security.receive cr c.transcriptHash c.receiveState
  return (plaintext, c.withSequences state.sequence c.sendState.sequence)

/-- `SecureConnection::send` on a whole session. -/
def SecureConnection.send (cr : Crypto) (c : SecureConnection) (plaintext : List UInt8) :
    Prog SecureConnection := do
  let state ← Security.send cr c.transcriptHash c.sendState plaintext
  return c.withSequences c.receiveState.sequence state.sequence

/-! ### The two ends -/

/-- `SecureConnection::client`. -/
def client (cr : Crypto) (params : Params) : Prog SecureConnection := do
  let clientIdentityPublic := cr.verifyingKey params.identityPrivateKey
  let clientEphemeralPublic := cr.x25519Public params.ephemeralPrivate
  let clientNonce ← ofExcept (randomHandshakeNonce params.osRandom)
  let clientSignature ← sign cr params.identityPrivateKey
    (clientSignatureMessage clientEphemeralPublic clientIdentityPublic clientNonce
      params.peerIdentityPublicKey)
  writeFrame (encodeClientHello
    { ephemeralPublicKey := clientEphemeralPublic, identityPublicKey := clientIdentityPublic,
      nonce := clientNonce, signature := clientSignature })
  let frame ← readFrame
  let serverHello ← ofExcept (decodeServerHello frame)
  if serverHello.identityPublicKey ≠ params.peerIdentityPublicKey then
    .fail (.msg "server identity does not match the pinned public key")
  else do
    verifySignature cr serverHello.identityPublicKey
      (serverSignatureMessage clientEphemeralPublic clientIdentityPublic clientNonce
        serverHello.ephemeralPublicKey serverHello.identityPublicKey serverHello.nonce)
      serverHello.signature
    let sharedSecret := cr.diffieHellman params.ephemeralPrivate serverHello.ephemeralPublicKey
    if cr.wasContributory sharedSecret = false then
      .fail (.msg "invalid non-contributory X25519 shared secret")
    else do
      let transcriptHash := handshakeTranscriptHash cr clientEphemeralPublic clientIdentityPublic
        clientNonce serverHello.ephemeralPublicKey serverHello.identityPublicKey serverHello.nonce
      let keys ← ofExcept (deriveKeyMaterial cr sharedSecret transcriptHash)
      .note (.derive
          { clientEphemeral := clientEphemeralPublic, clientIdentity := clientIdentityPublic,
            clientNonce, serverEphemeral := serverHello.ephemeralPublicKey,
            serverIdentity := serverHello.identityPublicKey, serverNonce := serverHello.nonce,
            sharedSecret, transcriptHash, keys }) do
        let (received, secure) ← (clientConnection keys transcriptHash).receive cr
        if received ≠ serverFinished then
          .fail (.msg "invalid server key confirmation")
        else
          secure.send cr clientFinished

/-- `SecureConnection::server`. -/
def server (cr : Crypto) (params : Params) : Prog SecureConnection := do
  let serverIdentityPublic := cr.verifyingKey params.identityPrivateKey
  let frame ← readFrame
  let clientHello ← ofExcept (decodeClientHello frame)
  if clientHello.identityPublicKey ≠ params.peerIdentityPublicKey then
    .fail (.msg "client identity does not match the pinned public key")
  else do
    verifySignature cr clientHello.identityPublicKey
      (clientSignatureMessage clientHello.ephemeralPublicKey clientHello.identityPublicKey
        clientHello.nonce serverIdentityPublic)
      clientHello.signature
    let serverEphemeralPublic := cr.x25519Public params.ephemeralPrivate
    let serverNonce ← ofExcept (randomHandshakeNonce params.osRandom)
    let serverSignature ← sign cr params.identityPrivateKey
      (serverSignatureMessage clientHello.ephemeralPublicKey clientHello.identityPublicKey
        clientHello.nonce serverEphemeralPublic serverIdentityPublic serverNonce)
    writeFrame (encodeServerHello
      { ephemeralPublicKey := serverEphemeralPublic, identityPublicKey := serverIdentityPublic,
        nonce := serverNonce, signature := serverSignature })
    let sharedSecret := cr.diffieHellman params.ephemeralPrivate clientHello.ephemeralPublicKey
    if cr.wasContributory sharedSecret = false then
      .fail (.msg "invalid non-contributory X25519 shared secret")
    else do
      let transcriptHash := handshakeTranscriptHash cr clientHello.ephemeralPublicKey
        clientHello.identityPublicKey clientHello.nonce serverEphemeralPublic serverIdentityPublic
        serverNonce
      let keys ← ofExcept (deriveKeyMaterial cr sharedSecret transcriptHash)
      .note (.derive
          { clientEphemeral := clientHello.ephemeralPublicKey,
            clientIdentity := clientHello.identityPublicKey, clientNonce := clientHello.nonce,
            serverEphemeral := serverEphemeralPublic, serverIdentity := serverIdentityPublic,
            serverNonce, sharedSecret, transcriptHash, keys }) do
        let secure ← (serverConnection keys transcriptHash).send cr serverFinished
        let (received, secure) ← secure.receive cr
        if received ≠ clientFinished then
          .fail (.msg "invalid client key confirmation")
        else
          .pure secure

/-- The client of an example handshake. -/
def exampleClientParams : Params where
  identityPrivateKey := Bytes.replicate 32 1
  peerIdentityPublicKey := Bytes.replicate 32 2
  ephemeralPrivate := Bytes.replicate 32 3
  osRandom := .ok (Bytes.replicate 32 5)

/-- The server of an example handshake. -/
def exampleServerParams : Params where
  identityPrivateKey := Bytes.replicate 32 2
  peerIdentityPublicKey := Bytes.replicate 32 1
  ephemeralPrivate := Bytes.replicate 32 4
  osRandom := .ok (Bytes.replicate 32 6)

/-! ### The key schedule, evaluated -/

/-- The four slices of the HKDF output. -/
def keySlices (output : Bytes hkdfOutputSize) : KeyMaterial where
  clientToServerKey := ⟨(output.val.drop 0).take 32, by
    rw [List.length_take, List.length_drop, output.property]; rfl⟩
  serverToClientKey := ⟨(output.val.drop 32).take 32, by
    rw [List.length_take, List.length_drop, output.property]; rfl⟩
  clientToServerNoncePrefix := ⟨(output.val.drop 64).take 4, by
    rw [List.length_take, List.length_drop, output.property]; rfl⟩
  serverToClientNoncePrefix := ⟨(output.val.drop 68).take 4, by
    rw [List.length_take, List.length_drop, output.property]; rfl⟩

/-- **The key schedule never fails.** -/
theorem deriveKeyMaterial_eq (cr : Crypto) (sharedSecret : Bytes x25519SharedSecretSize)
    (transcriptHash : Bytes transcriptHashSize) :
    deriveKeyMaterial cr sharedSecret transcriptHash =
      .ok (keySlices (cr.hkdf transcriptHash sharedSecret
        (ascii "taunicorn-e2ee-v2/session-keys"))) := by
  set output := cr.hkdf transcriptHash sharedSecret (ascii "taunicorn-e2ee-v2/session-keys")
    with houtput
  have hlen : output.val.length = 72 := output.property
  rw [deriveKeyMaterial, ← houtput]
  change (takeArray 32 output.val 0 >>= _) = _
  rw [takeArray_of_le (by omega) (by omega)]
  change (takeArray 32 output.val 32 >>= _) = _
  rw [takeArray_of_le (by omega) (by omega)]
  change (takeArray 4 output.val 64 >>= _) = _
  rw [takeArray_of_le (by omega) (by omega)]
  change (takeArray 4 output.val 68 >>= _) = _
  rw [takeArray_of_le (by omega) (by omega)]
  rfl

/-- The slices are disjoint and leave nothing out. -/
theorem keySlices_injective : Function.Injective keySlices := by
  intro a b h
  rw [keySlices, keySlices, KeyMaterial.mk.injEq] at h
  simp only [Subtype.mk.injEq] at h
  obtain ⟨h₁, h₃, h₂, h₄⟩ := h
  have hcut : ∀ x : List UInt8, x.length = 72 →
      x = (x.drop 0).take 32 ++ ((x.drop 32).take 32 ++ ((x.drop 64).take 4 ++
        (x.drop 68).take 4)) := by
    intro x hx
    have h68 : (x.drop 68).take 4 = x.drop 68 :=
      List.take_of_length_le (by rw [List.length_drop]; omega)
    rw [h68, show x.drop 68 = (x.drop 64).drop 4 by rw [List.drop_drop], List.take_append_drop,
      show x.drop 64 = (x.drop 32).drop 32 by rw [List.drop_drop], List.take_append_drop,
      List.drop_zero, List.take_append_drop]
  refine Subtype.ext ?_
  rw [hcut a.val a.property, hcut b.val b.property, h₁, h₂, h₃, h₄]

end Security

end Taunicorn
