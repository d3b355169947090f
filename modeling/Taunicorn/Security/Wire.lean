import Taunicorn.Basic

/-!
# The wire format of the secure layer

The constants, the hello messages and the byte strings that are signed, hashed or authenticated.
Everything here is pure; the programs that send and read these strings are in `Framing`,
`SecureConnection` and `Handshake`.

The two hello codecs share one layout and differ in the type byte and in the name their errors
carry, so they are one definition with those two parameters, under two names.

## Main results

* `decodeHello_encodeHello` — a decoder undoes its encoder
* `makeAad_inj`, `makeNonce_inj` — associated data and nonces determine their arguments
* `transcriptBytes_inj` — so does the string the transcript hash is taken of
-/

namespace Taunicorn

namespace Security

/-! ### Constants -/

abbrev aeadKeySize : ℕ := 32
abbrev aeadNonceSize : ℕ := 12
abbrev aeadTagSize : ℕ := 16

abbrev ed25519PrivateKeySize : ℕ := 32
abbrev ed25519PublicKeySize : ℕ := 32
abbrev ed25519SignatureSize : ℕ := 64

abbrev versionSize : ℕ := 1
abbrev sequenceSize : ℕ := 8
abbrev messageTypeSize : ℕ := 1
abbrev handshakeNonceSize : ℕ := 32
abbrev transcriptHashSize : ℕ := 32
abbrev x25519PublicKeySize : ℕ := 32
abbrev x25519SharedSecretSize : ℕ := 32

abbrev encryptedFrameHeaderSize : ℕ := versionSize + sequenceSize
abbrev frameLengthSize : ℕ := 4
abbrev minEncryptedFrameSize : ℕ := encryptedFrameHeaderSize + aeadTagSize

abbrev helloHeaderSize : ℕ := messageTypeSize + versionSize
abbrev helloSize : ℕ :=
  helloHeaderSize + ed25519PublicKeySize + x25519PublicKeySize + handshakeNonceSize
    + ed25519SignatureSize

abbrev noncePrefixSize : ℕ := aeadNonceSize - sequenceSize
abbrev hkdfOutputSize : ℕ := aeadKeySize * 2 + noncePrefixSize * 2

abbrev maxFrameSize : ℕ := 64 * 1024 * 1024

def clientHelloType : UInt8 := 0x01
def serverHelloType : UInt8 := 0x02
def directionClientToServer : UInt8 := 0x01
def directionServerToClient : UInt8 := 0x02
def version : UInt8 := 2

/-- A byte string literal. -/
def ascii (text : String) : List UInt8 := text.toList.map fun c => UInt8.ofNat c.toNat

def magic : List UInt8 := ascii "TNE2"
def clientFinished : List UInt8 := ascii "taunicorn-e2ee-v2/client-finished"
def serverFinished : List UInt8 := ascii "taunicorn-e2ee-v2/server-finished"

/-! ### Fields of a message -/

/-- The next `n` bytes of `data`, and the offset behind them. The conversion of the slice to an
array cannot fail, since the slice has the array's length. -/
def takeArray (n : ℕ) (data : List UInt8) (offset : ℕ) : Except Error (Bytes n × ℕ) :=
  if 2 ^ 64 ≤ offset + n then .error (.msg "protocol offset overflow")
  else if h : offset + n ≤ data.length then
    .ok (⟨(data.drop offset).take n, by rw [List.length_take, List.length_drop]; omega⟩, offset + n)
  else .error (.msg "protocol field exceeds frame boundary")

theorem takeArray_of_le {n offset : ℕ} {data : List UInt8} (h : offset + n ≤ data.length)
    (hsize : offset + n < 2 ^ 64) :
    takeArray n data offset = .ok (⟨(data.drop offset).take n, by
      rw [List.length_take, List.length_drop]; omega⟩, offset + n) := by
  rw [takeArray, if_neg (by omega), dif_pos h]

/-- A field that lies where the offset points is the field read. -/
theorem takeArray_eq {n offset : ℕ} {data : List UInt8} (before : List UInt8) (field : Bytes n)
    (after : List UInt8) (hdata : data = before ++ field.val ++ after)
    (hoff : before.length = offset) (hsize : offset + n < 2 ^ 64) :
    takeArray n data offset = .ok (field, offset + n) := by
  have hlen : offset + n ≤ data.length := by
    simp only [hdata, List.length_append, Bytes.length]; omega
  have hfield : (data.drop offset).take n = field.val := by
    rw [hdata, List.append_assoc, ← hoff, List.drop_left]
    exact List.take_left' field.property
  rw [takeArray_of_le hlen hsize]
  exact congrArg (fun b => Except.ok (b, offset + n)) (Subtype.ext hfield)

/-! ### Hello messages -/

/-- The fields of a hello message. -/
structure Hello where
  ephemeralPublicKey : Bytes x25519PublicKeySize
  identityPublicKey : Bytes ed25519PublicKeySize
  nonce : Bytes handshakeNonceSize
  signature : Bytes ed25519SignatureSize
  deriving DecidableEq

abbrev ClientHello := Hello
abbrev ServerHello := Hello

/-- The layout shared by both hello messages: type, version, identity, ephemeral key, nonce,
signature. -/
def encodeHello (type : UInt8) (hello : Hello) : List UInt8 :=
  [type, version] ++ hello.identityPublicKey.val ++ hello.ephemeralPublicKey.val
    ++ hello.nonce.val ++ hello.signature.val

def encodeClientHello (hello : ClientHello) : List UInt8 := encodeHello clientHelloType hello

def encodeServerHello (hello : ServerHello) : List UInt8 := encodeHello serverHelloType hello

/-- Check size, type and version, then cut the fields in the order they are laid out. -/
def decodeHello (side : String) (type : UInt8) (data : List UInt8) : Except Error Hello :=
  if h : data.length = helloSize then
    let receivedType := data.get ⟨0, by rw [h]; decide⟩
    let receivedVersion := data.get ⟨1, by rw [h]; decide⟩
    if receivedType ≠ type then .error (.msg s!"invalid {side} hello type")
    else if receivedVersion ≠ version then
      .error (.msg
        s!"invalid {side} hello version: expected {version}, received {receivedVersion}")
    else do
      let (identityPublicKey, offset) ← takeArray ed25519PublicKeySize data helloHeaderSize
      let (ephemeralPublicKey, offset) ← takeArray x25519PublicKeySize data offset
      let (nonce, offset) ← takeArray handshakeNonceSize data offset
      let (signature, _) ← takeArray ed25519SignatureSize data offset
      return { ephemeralPublicKey, identityPublicKey, nonce, signature }
  else
    .error (.msg s!"invalid {side} hello size: expected {helloSize}, received {data.length}")

def decodeClientHello (data : List UInt8) : Except Error ClientHello :=
  decodeHello "client" clientHelloType data

def decodeServerHello (data : List UInt8) : Except Error ServerHello :=
  decodeHello "server" serverHelloType data

theorem length_encodeHello (type : UInt8) (hello : Hello) :
    (encodeHello type hello).length = helloSize := by
  simp only [encodeHello, List.length_append, Bytes.length]
  rfl

/-- The fields lie where the decoder's offset takes them from, and the last one ends the message. -/
theorem takeArray_encodeHello (type : UInt8) (hello : Hello) :
    takeArray ed25519PublicKeySize (encodeHello type hello) helloHeaderSize
        = .ok (hello.identityPublicKey, 34) ∧
      takeArray x25519PublicKeySize (encodeHello type hello) 34
        = .ok (hello.ephemeralPublicKey, 66) ∧
      takeArray handshakeNonceSize (encodeHello type hello) 66 = .ok (hello.nonce, 98) ∧
      takeArray ed25519SignatureSize (encodeHello type hello) 98
        = .ok (hello.signature, helloSize) := by
  refine ⟨?_, ?_, ?_, ?_⟩
  · exact takeArray_eq [type, version] hello.identityPublicKey
      (hello.ephemeralPublicKey.val ++ hello.nonce.val ++ hello.signature.val)
      (by simp [encodeHello]) rfl (by norm_num)
  · exact takeArray_eq ([type, version] ++ hello.identityPublicKey.val) hello.ephemeralPublicKey
      (hello.nonce.val ++ hello.signature.val) (by simp [encodeHello]) (by simp) (by norm_num)
  · exact takeArray_eq
      ([type, version] ++ hello.identityPublicKey.val ++ hello.ephemeralPublicKey.val)
      hello.nonce hello.signature.val (by simp [encodeHello])
      (by simp only [List.length_append, Bytes.length]; rfl) (by norm_num)
  · exact takeArray_eq
      ([type, version] ++ hello.identityPublicKey.val ++ hello.ephemeralPublicKey.val
        ++ hello.nonce.val) hello.signature [] (by simp [encodeHello])
      (by simp only [List.length_append, Bytes.length]; rfl) (by norm_num)

/-- **A decoder undoes its encoder.** -/
theorem decodeHello_encodeHello (side : String) (type : UInt8) (hello : Hello) :
    decodeHello side type (encodeHello type hello) = .ok hello := by
  obtain ⟨hid, heph, hnonce, hsig⟩ := takeArray_encodeHello type hello
  have hlen := length_encodeHello type hello
  have htype : (encodeHello type hello).get ⟨0, by rw [hlen]; decide⟩ = type := rfl
  have hversion : (encodeHello type hello).get ⟨1, by rw [hlen]; decide⟩ = version := rfl
  rw [decodeHello, dif_pos hlen]
  simp only [htype, hversion, ne_eq, not_true_eq_false, if_false, hid]
  change (takeArray x25519PublicKeySize (encodeHello type hello) 34 >>= _) = _
  rw [heph]
  change (takeArray handshakeNonceSize (encodeHello type hello) 66 >>= _) = _
  rw [hnonce]
  change (takeArray ed25519SignatureSize (encodeHello type hello) 98 >>= _) = _
  rw [hsig]
  rfl

/-! ### Strings that are signed, hashed and authenticated -/

/-- What the client signs: its identity, the pinned server identity, its ephemeral key and its
nonce. -/
def clientSignatureMessage (clientEphemeralPublic : Bytes x25519PublicKeySize)
    (clientIdentityPublic : Bytes ed25519PublicKeySize) (clientNonce : Bytes handshakeNonceSize)
    (serverIdentityPublic : Bytes ed25519PublicKeySize) : List UInt8 :=
  magic ++ ascii "/client-auth/" ++ [version] ++ clientIdentityPublic.val
    ++ serverIdentityPublic.val ++ clientEphemeralPublic.val ++ clientNonce.val

/-- What the server signs: both identities, both ephemeral keys and both nonces. -/
def serverSignatureMessage (clientEphemeralPublic : Bytes x25519PublicKeySize)
    (clientIdentityPublic : Bytes ed25519PublicKeySize) (clientNonce : Bytes handshakeNonceSize)
    (serverEphemeralPublic : Bytes x25519PublicKeySize)
    (serverIdentityPublic : Bytes ed25519PublicKeySize) (serverNonce : Bytes handshakeNonceSize) :
    List UInt8 :=
  magic ++ ascii "/server-auth/" ++ [version] ++ clientIdentityPublic.val
    ++ serverIdentityPublic.val ++ clientEphemeralPublic.val ++ serverEphemeralPublic.val
    ++ clientNonce.val ++ serverNonce.val

/-- The string `handshake_transcript_hash` feeds to SHA-256. -/
def transcriptBytes (clientEphemeralPublic : Bytes x25519PublicKeySize)
    (clientIdentityPublic : Bytes ed25519PublicKeySize) (clientNonce : Bytes handshakeNonceSize)
    (serverEphemeralPublic : Bytes x25519PublicKeySize)
    (serverIdentityPublic : Bytes ed25519PublicKeySize) (serverNonce : Bytes handshakeNonceSize) :
    List UInt8 :=
  magic ++ ascii "/transcript/" ++ [version] ++ clientIdentityPublic.val
    ++ serverIdentityPublic.val ++ clientEphemeralPublic.val ++ serverEphemeralPublic.val
    ++ clientNonce.val ++ serverNonce.val

/-- The associated data of one message: protocol, direction, sequence number and transcript. -/
def makeAad (direction : UInt8) (sequence : Bytes sequenceSize)
    (transcriptHash : Bytes transcriptHashSize) : List UInt8 :=
  magic ++ [version] ++ [direction] ++ sequence.val ++ transcriptHash.val

/-- The AEAD nonce: the direction's prefix, then the sequence number. -/
def makeNonce (noncePrefix : Bytes noncePrefixSize) (sequence : Bytes sequenceSize) :
    Bytes aeadNonceSize :=
  ⟨noncePrefix.val ++ sequence.val, by rw [List.length_append, Bytes.length, Bytes.length]; rfl⟩

/-! ### Injectivity -/

/-- Two strings that end in fields of one size: the fields are equal, and so is what precedes
them. -/
theorem append_bytes_inj {n : ℕ} {x y : List UInt8} {a b : Bytes n}
    (h : x ++ a.val = y ++ b.val) : x = y ∧ a = b := by
  obtain ⟨hxy, hab⟩ := List.append_inj' h (by simp)
  exact ⟨hxy, Subtype.ext hab⟩

theorem transcriptBytes_inj {ce ce' ci ci' cn cn' se se' si si' sn sn' : Bytes 32}
    (h : transcriptBytes ce ci cn se si sn = transcriptBytes ce' ci' cn' se' si' sn') :
    ce = ce' ∧ ci = ci' ∧ cn = cn' ∧ se = se' ∧ si = si' ∧ sn = sn' := by
  obtain ⟨h, hsn⟩ := append_bytes_inj h
  obtain ⟨h, hcn⟩ := append_bytes_inj h
  obtain ⟨h, hse⟩ := append_bytes_inj h
  obtain ⟨h, hce⟩ := append_bytes_inj h
  obtain ⟨h, hsi⟩ := append_bytes_inj h
  obtain ⟨-, hci⟩ := append_bytes_inj h
  exact ⟨hce, hci, hcn, hse, hsi, hsn⟩

theorem makeAad_inj {d d' : UInt8} {s s' : Bytes sequenceSize} {t t' : Bytes transcriptHashSize}
    (h : makeAad d s t = makeAad d' s' t') : d = d' ∧ s = s' ∧ t = t' := by
  obtain ⟨h, ht⟩ := append_bytes_inj h
  obtain ⟨h, hs⟩ := append_bytes_inj h
  obtain ⟨-, hd⟩ := List.append_inj' h rfl
  exact ⟨List.singleton_inj.mp hd, hs, ht⟩

theorem makeNonce_inj {p p' : Bytes noncePrefixSize} {s s' : Bytes sequenceSize}
    (h : makeNonce p s = makeNonce p' s') : p = p' ∧ s = s' := by
  obtain ⟨hp, hs⟩ := List.append_inj' (congrArg Subtype.val h) (by simp)
  exact ⟨Subtype.ext hp, Subtype.ext hs⟩

end Security

end Taunicorn
