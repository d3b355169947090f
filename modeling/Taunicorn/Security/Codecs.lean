import Taunicorn.Security.Handshake

/-!
# Hello codecs and authenticated strings

What the byte strings of the handshake determine. `Wire` shows that a hello decoder undoes its
encoder; here is the other direction, that a decoder accepts nothing but the encoder's output, and
that none of the ways the decoder could go wrong on the way is ever taken.

The strings that are signed, hashed or passed to the AEAD concatenate fields of fixed sizes behind
a label. They are taken together as one function on `Authenticated`, so that injectivity says both
that a string determines its fields and that the four kinds never meet.

## Main definitions

* `decodeHelloStops` — a hello decoder with the index, `take_array` and assertion failures of its
  source told apart from the errors of its checks
* `Authenticated` — the field values of the four kinds of string

## Main results

* `decodeHello_eq_ok_iff` — a decoder accepts exactly what its encoder writes
* `decodeHelloStops_eq` — only the checks reject
* `hello_codecs` — both codecs, exactly
* `Authenticated.bytes_injective`, `authenticated_strings` — separation, and what it means for
  signatures
-/

namespace Taunicorn

namespace Security

open StreamProg

/-! ### Where a decoder can stop -/

/-- Every way a hello decoder ends without a message: an error of one of its own checks, an index
outside the slice, an error of `take_array`, a failed assertion on the final offset. -/
inductive HelloStop where
  | check (e : Error)
  | index (i : ℕ)
  | takeArray (e : Error)
  | offset (final : ℕ)
  deriving DecidableEq

/-- `data[i]`. -/
def indexByte (data : List UInt8) (i : ℕ) : Except HelloStop UInt8 :=
  match data[i]? with
  | some b => .ok b
  | none => .error (.index i)

/-- A hello decoder, statement by statement, with every stop told apart. -/
def decodeHelloStops (side : String) (type : UInt8) (data : List UInt8) :
    Except HelloStop Hello := do
  if data.length ≠ helloSize then
    .error (.check (.msg
      s!"invalid {side} hello size: expected {helloSize}, received {data.length}"))
  else
    let receivedType ← indexByte data 0
    if receivedType ≠ type then .error (.check (.msg s!"invalid {side} hello type"))
    else
      let receivedVersion ← indexByte data 1
      if receivedVersion ≠ version then
        .error (.check (.msg
          s!"invalid {side} hello version: expected {version}, received {receivedVersion}"))
      else
        let (identityPublicKey, offset) ←
          (takeArray ed25519PublicKeySize data helloHeaderSize).mapError .takeArray
        let (ephemeralPublicKey, offset) ←
          (takeArray x25519PublicKeySize data offset).mapError .takeArray
        let (nonce, offset) ← (takeArray handshakeNonceSize data offset).mapError .takeArray
        let (signature, offset) ←
          (takeArray ed25519SignatureSize data offset).mapError .takeArray
        if offset ≠ helloSize then .error (.offset offset)
        else return { ephemeralPublicKey, identityPublicKey, nonce, signature }

/-! ### A decoder accepts its encoder's output only -/

/-- The first field of a string that is long enough. -/
theorem exists_bytes_append {n m : ℕ} {data : List UInt8} (h : data.length = n + m) :
    ∃ (field : Bytes n) (rest : List UInt8), data = field.val ++ rest ∧ rest.length = m := by
  have htake : (data.take n).length = n := by rw [List.length_take]; omega
  refine ⟨⟨data.take n, htake⟩, data.drop n, (List.take_append_drop n data).symm, ?_⟩
  rw [List.length_drop]
  omega

/-- A string that passes the three checks is a hello message. -/
theorem exists_encodeHello {type : UInt8} {data : List UInt8} (hlen : data.length = helloSize)
    (htype : data[0]? = some type) (hversion : data[1]? = some version) :
    ∃ hello, data = encodeHello type hello := by
  rcases data with _ | ⟨a, _ | ⟨b, fields⟩⟩
  · simp at htype
  · simp at hversion
  · obtain rfl : a = type := by simpa using htype
    obtain rfl : b = version := by simpa using hversion
    have hfields : fields.length = 32 + 128 := Nat.succ.inj (Nat.succ.inj hlen)
    obtain ⟨identity, fields₁, rfl, h₁⟩ := exists_bytes_append hfields
    obtain ⟨ephemeral, fields₂, rfl, h₂⟩ :=
      exists_bytes_append (show fields₁.length = 32 + 96 from h₁)
    obtain ⟨nonce, signature, rfl, h₃⟩ :=
      exists_bytes_append (show fields₂.length = 32 + 64 from h₂)
    exact ⟨⟨ephemeral, identity, nonce, ⟨signature, h₃⟩⟩, by simp [encodeHello]⟩

/-- What a decoder has checked of a message it accepts. -/
theorem decodeHello_ok {side : String} {type : UInt8} {data : List UInt8} {hello : Hello}
    (h : decodeHello side type data = .ok hello) :
    data.length = helloSize ∧ data[0]? = some type ∧ data[1]? = some version := by
  rw [decodeHello] at h
  split_ifs at h with hlen
  dsimp only at h
  split_ifs at h with htype hversion
  refine ⟨hlen, ?_, ?_⟩
  · rw [← not_ne_iff.mp htype]
    simp
  · rw [← not_ne_iff.mp hversion]
    simp

/-- **A decoder accepts exactly what its encoder writes.** -/
theorem decodeHello_eq_ok_iff {side : String} {type : UInt8} {data : List UInt8} {hello : Hello} :
    decodeHello side type data = .ok hello ↔ encodeHello type hello = data := by
  constructor
  · intro h
    obtain ⟨hlen, htype, hversion⟩ := decodeHello_ok h
    obtain ⟨hello', rfl⟩ := exists_encodeHello hlen htype hversion
    rw [decodeHello_encodeHello] at h
    rw [Except.ok.inj h]
  · rintro rfl
    exact decodeHello_encodeHello side type hello

/-! ### Only the checks reject -/

theorem ok_bind {ε α β : Type} (a : α) (f : α → Except ε β) :
    (Except.ok a >>= f) = f a := rfl

theorem decodeHelloStops_encodeHello (side : String) (type : UInt8) (hello : Hello) :
    decodeHelloStops side type (encodeHello type hello) = .ok hello := by
  obtain ⟨hid, heph, hnonce, hsig⟩ := takeArray_encodeHello type hello
  have htype : indexByte (encodeHello type hello) 0 = .ok type := rfl
  have hversion : indexByte (encodeHello type hello) 1 = .ok version := rfl
  rw [decodeHelloStops, if_neg (not_not.mpr (length_encodeHello type hello))]
  simp only [htype, hversion, hid, heph, hnonce, hsig, Except.mapError, ok_bind, ne_eq,
    not_true_eq_false, if_false]
  rfl

/-- **Only the checks reject.** On every byte string the decoder ends as `decodeHello` says, and an
error is one of its three checks: no index lies outside the slice, no `take_array` fails and the
final offset is the size of the message. -/
theorem decodeHelloStops_eq (side : String) (type : UInt8) (data : List UInt8) :
    decodeHelloStops side type data = (decodeHello side type data).mapError .check := by
  by_cases hlen : data.length = helloSize
  · have h0 : data[0]? = some (data.get ⟨0, by rw [hlen]; decide⟩) := by simp
    have h1 : data[1]? = some (data.get ⟨1, by rw [hlen]; decide⟩) := by simp
    by_cases htype : data.get ⟨0, by rw [hlen]; decide⟩ = type
    · by_cases hversion : data.get ⟨1, by rw [hlen]; decide⟩ = version
      · rw [htype] at h0
        rw [hversion] at h1
        obtain ⟨hello, rfl⟩ := exists_encodeHello hlen h0 h1
        rw [decodeHelloStops_encodeHello, decodeHello_encodeHello]
        rfl
      · simp only [decodeHelloStops, decodeHello, indexByte, h0, h1, hlen, htype, hversion, ok_bind,
          ne_eq, not_true_eq_false, not_false_eq_true, if_false, if_true, dif_pos]
        rfl
    · simp only [decodeHelloStops, decodeHello, indexByte, h0, hlen, htype, ok_bind, ne_eq,
        not_true_eq_false, not_false_eq_true, if_false, if_true, dif_pos]
      rfl
  · rw [decodeHelloStops, if_pos hlen, decodeHello, dif_neg hlen]
    rfl

/-- **The hello codecs are exact inverses and disjoint.** Each decoder undoes its encoder and
accepts nothing else, no byte string is accepted by both, and on no byte string does a decoder index
outside the slice, meet a failing `take_array` or miss its final offset. -/
theorem hello_codecs :
    (∀ hello : ClientHello, decodeClientHello (encodeClientHello hello) = .ok hello) ∧
      (∀ data (hello : ClientHello), decodeClientHello data = .ok hello →
        encodeClientHello hello = data) ∧
      (∀ hello : ServerHello, decodeServerHello (encodeServerHello hello) = .ok hello) ∧
      (∀ data (hello : ServerHello), decodeServerHello data = .ok hello →
        encodeServerHello hello = data) ∧
      (∀ data (hello : ClientHello) (hello' : ServerHello),
        decodeClientHello data = .ok hello → decodeServerHello data ≠ .ok hello') ∧
      (∀ data, decodeHelloStops "client" clientHelloType data
        = (decodeClientHello data).mapError .check) ∧
      ∀ data, decodeHelloStops "server" serverHelloType data
        = (decodeServerHello data).mapError .check := by
  refine ⟨fun hello => decodeHello_encodeHello _ _ hello,
    fun data hello h => decodeHello_eq_ok_iff.mp h,
    fun hello => decodeHello_encodeHello _ _ hello,
    fun data hello h => decodeHello_eq_ok_iff.mp h, ?_,
    fun data => decodeHelloStops_eq _ _ data, fun data => decodeHelloStops_eq _ _ data⟩
  intro data hello hello' hclient hserver
  -- the type byte of one string cannot be both
  have htypes := (decodeHello_ok hclient).2.1.symm.trans (decodeHello_ok hserver).2.1
  exact absurd (Option.some.inj htypes) (by decide)

/-! ### Strings that are signed, hashed and authenticated -/

/-- The field values behind one authenticated byte string, in the parameter order of the function
that builds it. -/
inductive Authenticated where
  | clientSignature (clientEphemeral : Bytes x25519PublicKeySize)
      (clientIdentity : Bytes ed25519PublicKeySize) (clientNonce : Bytes handshakeNonceSize)
      (serverIdentity : Bytes ed25519PublicKeySize)
  | serverSignature (clientEphemeral : Bytes x25519PublicKeySize)
      (clientIdentity : Bytes ed25519PublicKeySize) (clientNonce : Bytes handshakeNonceSize)
      (serverEphemeral : Bytes x25519PublicKeySize)
      (serverIdentity : Bytes ed25519PublicKeySize) (serverNonce : Bytes handshakeNonceSize)
  | transcript (clientEphemeral : Bytes x25519PublicKeySize)
      (clientIdentity : Bytes ed25519PublicKeySize) (clientNonce : Bytes handshakeNonceSize)
      (serverEphemeral : Bytes x25519PublicKeySize)
      (serverIdentity : Bytes ed25519PublicKeySize) (serverNonce : Bytes handshakeNonceSize)
  | associatedData (direction : UInt8) (sequence : Bytes sequenceSize)
      (transcriptHash : Bytes transcriptHashSize)
  deriving DecidableEq

/-- The byte string that is signed, hashed or authenticated for these values. -/
def Authenticated.bytes : Authenticated → List UInt8
  | .clientSignature ce ci cn si => clientSignatureMessage ce ci cn si
  | .serverSignature ce ci cn se si sn => serverSignatureMessage ce ci cn se si sn
  | .transcript ce ci cn se si sn => transcriptBytes ce ci cn se si sn
  | .associatedData direction sequence transcriptHash =>
    makeAad direction sequence transcriptHash

/-- The size of a string, which is different for each of the four kinds. -/
def Authenticated.size : Authenticated → ℕ
  | .clientSignature .. => 146
  | .serverSignature .. => 210
  | .transcript .. => 209
  | .associatedData .. => 46

theorem Authenticated.length_bytes (v : Authenticated) : v.bytes.length = v.size := by
  cases v with
  | clientSignature =>
    simp only [bytes, clientSignatureMessage, List.length_append, Bytes.length]
    rfl
  | serverSignature =>
    simp only [bytes, serverSignatureMessage, List.length_append, Bytes.length]
    rfl
  | transcript => simp only [bytes, transcriptBytes, List.length_append, Bytes.length]; rfl
  | associatedData => simp only [bytes, makeAad, List.length_append, Bytes.length]; rfl

theorem clientSignatureMessage_inj {ce ce' ci ci' cn cn' si si' : Bytes 32}
    (h : clientSignatureMessage ce ci cn si = clientSignatureMessage ce' ci' cn' si') :
    ce = ce' ∧ ci = ci' ∧ cn = cn' ∧ si = si' := by
  obtain ⟨h, hcn⟩ := append_bytes_inj h
  obtain ⟨h, hce⟩ := append_bytes_inj h
  obtain ⟨h, hsi⟩ := append_bytes_inj h
  obtain ⟨-, hci⟩ := append_bytes_inj h
  exact ⟨hce, hci, hcn, hsi⟩

theorem serverSignatureMessage_inj {ce ce' ci ci' cn cn' se se' si si' sn sn' : Bytes 32}
    (h : serverSignatureMessage ce ci cn se si sn
      = serverSignatureMessage ce' ci' cn' se' si' sn') :
    ce = ce' ∧ ci = ci' ∧ cn = cn' ∧ se = se' ∧ si = si' ∧ sn = sn' := by
  obtain ⟨h, hsn⟩ := append_bytes_inj h
  obtain ⟨h, hcn⟩ := append_bytes_inj h
  obtain ⟨h, hse⟩ := append_bytes_inj h
  obtain ⟨h, hce⟩ := append_bytes_inj h
  obtain ⟨h, hsi⟩ := append_bytes_inj h
  obtain ⟨-, hci⟩ := append_bytes_inj h
  exact ⟨hce, hci, hcn, hse, hsi, hsn⟩

/-- **Separation.** A string determines which of the four it is and every value it was made of. -/
theorem Authenticated.bytes_injective : Function.Injective Authenticated.bytes := by
  intro v v' h
  -- strings of two kinds differ in length
  have hsize : v.size = v'.size := by rw [← length_bytes, ← length_bytes, h]
  cases v with
  | clientSignature =>
    cases v' with
    | clientSignature =>
      obtain ⟨rfl, rfl, rfl, rfl⟩ := clientSignatureMessage_inj h
      rfl
    | _ => exact absurd hsize (by simp [size])
  | serverSignature =>
    cases v' with
    | serverSignature =>
      obtain ⟨rfl, rfl, rfl, rfl, rfl, rfl⟩ := serverSignatureMessage_inj h
      rfl
    | _ => exact absurd hsize (by simp [size])
  | transcript =>
    cases v' with
    | transcript =>
      obtain ⟨rfl, rfl, rfl, rfl, rfl, rfl⟩ := transcriptBytes_inj h
      rfl
    | _ => exact absurd hsize (by simp [size])
  | associatedData =>
    cases v' with
    | associatedData =>
      obtain ⟨rfl, rfl, rfl⟩ := makeAad_inj h
      rfl
    | _ => exact absurd hsize (by simp [size])

/-- What Ed25519 promises of the signatures `made` with one identity: as far as the messages
`presented` for verification go, each is accepted for the message it was made over and no other. -/
def Crypto.Binds (cr : Crypto) (identity : Bytes ed25519PublicKeySize)
    (made : Set (List UInt8 × Bytes ed25519SignatureSize)) (presented : Set (List UInt8)) : Prop :=
  ∀ message signature, (message, signature) ∈ made → ∀ message' ∈ presented,
    cr.verify identity message' signature = true → message' = message

theorem verifySignature_ok {cr : Crypto} {identity : Bytes ed25519PublicKeySize}
    {message : List UInt8} {signature : Bytes ed25519SignatureSize} {feed : Feed Error}
    (h : ((verifySignature cr identity message signature).run feed).result = .ok ()) :
    cr.verify identity message signature = true := by
  rw [verifySignature] at h
  cases hkey : cr.keyDecodes identity with
  | error e => simp [hkey, run] at h
  | ok _ =>
    simp only [hkey, ofExcept_ok, pure_bind] at h
    split_ifs at h with _ hverify
    · exact hverify
    · simp [run] at h
    · simp [run] at h

/-- **Authenticated strings are injective and separated.** Equal strings come from the same function
with equal arguments. So a signature that binds its message is accepted by `verify_signature` over
one of the four strings only if it was made over that string, in the same role and for the same
values. -/
theorem authenticated_strings :
    Function.Injective Authenticated.bytes ∧
      ∀ (cr : Crypto) (identity : Bytes ed25519PublicKeySize)
        (made : Set (List UInt8 × Bytes ed25519SignatureSize)) (presented : Set (List UInt8)),
        cr.Binds identity made presented →
        ∀ (v v' : Authenticated) (signature : Bytes ed25519SignatureSize) (feed : Feed Error),
          (v.bytes, signature) ∈ made → v'.bytes ∈ presented →
          ((verifySignature cr identity v'.bytes signature).run feed).result = .ok () → v' = v := by
  refine ⟨Authenticated.bytes_injective, ?_⟩
  intro cr identity made presented hbinds v v' signature feed hmade hpresented hok
  exact Authenticated.bytes_injective
    (hbinds v.bytes signature hmade v'.bytes hpresented (verifySignature_ok hok))

/-- Primitives whose signatures carry the length of the message they were made over. -/
def Crypto.labelled : Crypto :=
  { Crypto.transparent with
    sign := fun key message => ⟨key.val ++ BigEndian.toBytes 32 message.length, by
      rw [List.length_append, Bytes.length, BigEndian.length_toBytes]⟩
    verify := fun key message signature =>
      signature.val = key.val ++ BigEndian.toBytes 32 message.length }

/-- A client's signature under such primitives, presented to the server and back to the client. -/
theorem authenticated_strings_labelled :
    let zeros := Bytes.replicate 32 0
    let v := Authenticated.clientSignature zeros zeros zeros zeros
    let v' := Authenticated.serverSignature zeros zeros zeros zeros zeros zeros
    let signature := Crypto.labelled.sign zeros v.bytes
    ((verifySignature .labelled zeros v.bytes signature).run []).result = .ok () ∧
      ((verifySignature .labelled zeros v'.bytes signature).run []).result ≠ .ok () := by
  intro zeros v v' signature
  have hbinds : Crypto.labelled.Binds zeros {(v.bytes, signature)} {v.bytes, v'.bytes} := by
    rintro message signature' hmade message' (rfl | rfl) hverify
    · exact (congrArg Prod.fst hmade).symm
    · obtain rfl : signature' = signature := congrArg Prod.snd hmade
      exact absurd hverify (by decide +kernel)
  refine ⟨by decide +kernel, fun hok => ?_⟩
  have heq := authenticated_strings.2 .labelled zeros {(v.bytes, signature)} {v.bytes, v'.bytes}
    hbinds v v' signature [] rfl (Or.inr rfl) hok
  exact absurd heq (by simp [v, v'])

end Security

end Taunicorn
