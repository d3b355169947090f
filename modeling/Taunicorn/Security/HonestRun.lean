import Taunicorn.Lib.Duplex
import Taunicorn.Security.Delivery
import Taunicorn.Security.Handshake

/-!
# An honest connection

`client` and `server` on the two ends of an undisturbed connection, with reciprocal pins. However
the bytes are cut and whichever end acts when, neither end fails or waits in vain, and the two
sessions they return match.

## The conversation

The script of the handshake has four frames: the client's hello, the server's hello, and one
encrypted message from the server and then from the client. `client_follows` and `server_follows`
evaluate the two programs against this script. This is where the two ends compute the same
signature messages, transcript and keys from their own names for them; what remains is the general
fact about two programs that follow one script.

## Main results

* `client_follows`, `server_follows` — each end plays its side of the script
* `honest_run` — agreement and progress
-/

namespace Taunicorn

namespace Security

open StreamProg

variable {cr : Crypto} {side : Side} {α : Type} {a : α} {script : List (Side × UInt8)}

/-! ### Programs that follow a script -/

theorem follows_readLoop {size fuel : ℕ} {got missing : List UInt8} {k : List UInt8 → Prog α}
    (hsize : got.length + missing.length = size) (hfuel : missing.length ≤ fuel)
    (hk : Follows side (k (got ++ missing)) script a) :
    Follows side (readLoop size fuel got >>= k) (missing.map (Prod.mk side.other) ++ script) a := by
  induction fuel generalizing got missing with
  | zero =>
    obtain rfl : missing = [] := List.length_eq_zero_iff.mp (by omega)
    simpa [readLoop] using hk
  | succ fuel ih =>
    cases missing with
    | nil =>
      have hnot : ¬ got.length < size := by simp at hsize; omega
      simpa [readLoop, hnot] using hk
    | cons byte missing =>
      rw [readLoop, if_pos (by rw [List.length_cons] at hsize; omega), receive_bind]
      refine .receive (by rw [List.length_cons] at hsize; omega)
        fun chunk rest hchunk hle hcut => ?_
      -- the read asked for no more than is missing, so the chunk lies inside it
      obtain ⟨later, hmissing, rfl⟩ := @exists_of_map_append_eq side.other script
        (byte :: missing) chunk rest hcut (by omega)
      rw [hmissing, List.length_append] at hsize hfuel
      rw [hmissing, ← List.append_assoc] at hk
      have hpos := List.length_pos_iff.mpr hchunk
      have hlater := ih (by rw [List.length_append]; omega) (by omega) hk
      cases chunk with
      | nil => exact absurd rfl hchunk
      | cons b chunk => exact hlater

/-- Reading a frame, in a script where the other side sends it. -/
theorem follows_readFrame {payload bytes : List UInt8} {k : List UInt8 → Prog α}
    (hframe : frame payload = .ok bytes) (hk : Follows side (k payload) script a) :
    Follows side (readFrame >>= k) (bytes.map (Prod.mk side.other) ++ script) a := by
  obtain ⟨hne, hle, rfl⟩ := frame_eq_ok hframe
  have hbound : payload.length < 256 ^ frameLengthSize := Nat.lt_of_le_of_lt hle (by norm_num)
  have hpos : payload.length ≠ 0 := by simpa using hne
  rw [readFrame, bind_assoc, readExact, List.map_append, List.append_assoc]
  refine follows_readLoop (by simp) (by simp) ?_
  rw [List.nil_append]
  simp only [BigEndian.ofBytes_toBytes hbound, hpos, if_false, gt_iff_lt, Nat.not_lt.mpr hle]
  rw [readExact]
  exact follows_readLoop (by simp) le_rfl hk

/-- Writing a frame, in a script where this side sends it. -/
theorem follows_writeFrame {payload bytes : List UInt8} {k : Unit → Prog α}
    (hframe : frame payload = .ok bytes) (hk : Follows side (k ()) script a) :
    Follows side (writeFrame payload >>= k) (bytes.map (Prod.mk side) ++ script) a := by
  rw [writeFrame, hframe]
  exact .send hk

/-- Sending the next message of a session. -/
theorem follows_send {c : SecureConnection} {plaintext bytes : List UInt8} {next : UInt64}
    {k : SecureConnection → Prog α}
    (hframe : IsFrameOf cr c.transcriptHash c.sendState plaintext bytes)
    (hnext : checkedSucc c.sendState.sequence = some next)
    (hk : Follows side (k (c.withSequences c.receiveState.sequence next)) script a) :
    Follows side (c.send cr plaintext >>= k) (bytes.map (Prod.mk side) ++ script) a := by
  obtain ⟨ciphertext, hct, hbytes⟩ := hframe
  rw [SecureConnection.send, send_eq hnext, encrypt, hct]
  simp only [okOrElse_some, note_bind, pure_bind, bind_assoc, pure_eq]
  exact .note (follows_writeFrame hbytes hk)

/-- Receiving the next message of a session. -/
theorem follows_receive (haead : cr.AeadCorrect) {c : SecureConnection}
    {plaintext bytes : List UInt8} {next : UInt64} {k : List UInt8 × SecureConnection → Prog α}
    (hframe : IsFrameOf cr c.transcriptHash c.receiveState plaintext bytes)
    (hnext : checkedSucc c.receiveState.sequence = some next)
    (hk : Follows side (k (plaintext, c.withSequences next c.sendState.sequence)) script a) :
    Follows side (c.receive cr >>= k) (bytes.map (Prod.mk side.other) ++ script) a := by
  obtain ⟨ciphertext, hct, hbytes⟩ := hframe
  have hctlen := haead.length_encrypt _ _ _ _ _ hct
  have hopen := openFrame_encryptedFrame hnext (by rw [hctlen]; exact Nat.le_add_left _ _)
    (haead.decrypt_encrypt _ _ _ _ _ hct)
  rw [SecureConnection.receive, receive]
  simp only [bind_assoc]
  refine follows_readFrame hbytes ?_
  rw [hopen]
  exact .note hk

/-- Checking a signature that its holder made. -/
theorem follows_verifySignature (hsign : cr.SignCorrect) {key : Bytes ed25519PrivateKeySize}
    {message : List UInt8} {k : Unit → Prog α} (hk : Follows side (k ()) script a) :
    Follows side (verifySignature cr (cr.verifyingKey key) message (cr.sign key message) >>= k)
      script a := by
  rw [verifySignature, hsign.keyDecodes_verifyingKey, ofExcept_ok, pure_bind,
    hsign.signatureDecodes_sign, if_pos rfl, hsign.verify_sign, if_pos rfl]
  exact .note hk

/-! ### The handshake's script -/

/-- The two ends of an honest connection: each has drawn its nonce, has pinned the other's
identity, and the shared secret is contributory. -/
structure Reciprocal (cr : Crypto) (c s : Params) (clientNonce serverNonce : Bytes 32) : Prop where
  clientRandom : c.osRandom = .ok clientNonce
  serverRandom : s.osRandom = .ok serverNonce
  clientPin : c.peerIdentityPublicKey = cr.verifyingKey s.identityPrivateKey
  serverPin : s.peerIdentityPublicKey = cr.verifyingKey c.identityPrivateKey
  contributory : cr.wasContributory
    (cr.diffieHellman c.ephemeralPrivate (cr.x25519Public s.ephemeralPrivate)) = true

section

variable (cr) (c s : Params) (clientNonce serverNonce : Bytes handshakeNonceSize)

/-- The client's hello. -/
def honestClientHello : ClientHello where
  ephemeralPublicKey := cr.x25519Public c.ephemeralPrivate
  identityPublicKey := cr.verifyingKey c.identityPrivateKey
  nonce := clientNonce
  signature := cr.sign c.identityPrivateKey (clientSignatureMessage
    (cr.x25519Public c.ephemeralPrivate) (cr.verifyingKey c.identityPrivateKey) clientNonce
    (cr.verifyingKey s.identityPrivateKey))

/-- The server's hello. -/
def honestServerHello : ServerHello where
  ephemeralPublicKey := cr.x25519Public s.ephemeralPrivate
  identityPublicKey := cr.verifyingKey s.identityPrivateKey
  nonce := serverNonce
  signature := cr.sign s.identityPrivateKey (serverSignatureMessage
    (cr.x25519Public c.ephemeralPrivate) (cr.verifyingKey c.identityPrivateKey) clientNonce
    (cr.x25519Public s.ephemeralPrivate) (cr.verifyingKey s.identityPrivateKey) serverNonce)

/-- The transcript hash of the conversation. -/
def honestTranscriptHash : Bytes transcriptHashSize :=
  handshakeTranscriptHash cr (cr.x25519Public c.ephemeralPrivate)
    (cr.verifyingKey c.identityPrivateKey) clientNonce (cr.x25519Public s.ephemeralPrivate)
    (cr.verifyingKey s.identityPrivateKey) serverNonce

/-- The key material of the conversation. -/
def honestKeys : KeyMaterial :=
  keySlices (cr.hkdf (honestTranscriptHash cr c s clientNonce serverNonce)
    (cr.diffieHellman c.ephemeralPrivate (cr.x25519Public s.ephemeralPrivate))
    (ascii "taunicorn-e2ee-v2/session-keys"))

/-- The client's session when it has returned. -/
def honestClient : SecureConnection :=
  (clientConnection (honestKeys cr c s clientNonce serverNonce)
    (honestTranscriptHash cr c s clientNonce serverNonce)).withSequences 1 1

/-- The server's session when it has returned. -/
def honestServer : SecureConnection :=
  (serverConnection (honestKeys cr c s clientNonce serverNonce)
    (honestTranscriptHash cr c s clientNonce serverNonce)).withSequences 1 1

end

variable {c s : Params} {clientNonce serverNonce : Bytes handshakeNonceSize}
  {hello₁ hello₂ finished₁ finished₂ : List UInt8}

/-! The primitives do what they are for, and the two ends are reciprocal. -/

section

variable (hsign : cr.SignCorrect) (haead : cr.AeadCorrect)
  (hdh : cr.diffieHellman s.ephemeralPrivate (cr.x25519Public c.ephemeralPrivate)
    = cr.diffieHellman c.ephemeralPrivate (cr.x25519Public s.ephemeralPrivate))
  (h : Reciprocal cr c s clientNonce serverNonce)

section

variable
  (h₁ : frame (encodeClientHello (honestClientHello cr c s clientNonce)) = .ok hello₁)
  (h₂ : frame (encodeServerHello (honestServerHello cr c s clientNonce serverNonce))
    = .ok hello₂)
  (h₃ : IsFrameOf cr (honestTranscriptHash cr c s clientNonce serverNonce)
    (clientConnection (honestKeys cr c s clientNonce serverNonce)
      (honestTranscriptHash cr c s clientNonce serverNonce)).receiveState
    serverFinished finished₁)
  (h₄ : IsFrameOf cr (honestTranscriptHash cr c s clientNonce serverNonce)
    (clientConnection (honestKeys cr c s clientNonce serverNonce)
      (honestTranscriptHash cr c s clientNonce serverNonce)).sendState
    clientFinished finished₂)

include hsign haead h h₁ h₂ h₃ h₄

/-- **The client plays its side**, and goes on with its session. -/
theorem client_follows_then {k : SecureConnection → Prog α}
    (hk : Follows .left (k (honestClient cr c s clientNonce serverNonce)) script a) :
    Follows .left (client cr c >>= k)
      (hello₁.map (Prod.mk .left) ++ (hello₂.map (Prod.mk .right) ++
        (finished₁.map (Prod.mk .right) ++ (finished₂.map (Prod.mk .left) ++ script)))) a := by
  rw [client, h.clientRandom, h.clientPin]
  simp only [bind_assoc]
  refine .note (follows_writeFrame h₁ (follows_readFrame h₂ ?_))
  rw [decodeServerHello, encodeServerHello, decodeHello_encodeHello, ofExcept_ok, pure_bind]
  simp only [honestServerHello, ne_eq, not_true_eq_false, if_false, bind_assoc]
  refine follows_verifySignature hsign ?_
  simp only [h.contributory, Bool.true_eq_false, if_false, deriveKeyMaterial_eq, ofExcept_ok,
    pure_bind, note_bind, bind_assoc]
  have hfirst : checkedSucc 0 = some 1 := by decide
  refine .note (follows_receive haead h₃ hfirst ?_)
  simp only [not_true_eq_false, if_false]
  exact follows_send h₄ hfirst hk

/-- **The client plays its side.** -/
theorem client_follows :
    Follows .left (client cr c)
      (hello₁.map (Prod.mk .left) ++ (hello₂.map (Prod.mk .right) ++
        (finished₁.map (Prod.mk .right) ++ (finished₂.map (Prod.mk .left) ++ []))))
      (honestClient cr c s clientNonce serverNonce) := by
  rw [← bind_pure (client cr c)]
  exact client_follows_then hsign haead h h₁ h₂ h₃ h₄ (.pure _)

include hdh

/-- **The server plays its side**, and goes on with its session. -/
theorem server_follows_then {k : SecureConnection → Prog α}
    (hk : Follows .right (k (honestServer cr c s clientNonce serverNonce)) script a) :
    Follows .right (server cr s >>= k)
      (hello₁.map (Prod.mk .left) ++ (hello₂.map (Prod.mk .right) ++
        (finished₁.map (Prod.mk .right) ++ (finished₂.map (Prod.mk .left) ++ script)))) a := by
  rw [server, h.serverRandom, h.serverPin]
  simp only [bind_assoc]
  refine follows_readFrame h₁ ?_
  rw [decodeClientHello, encodeClientHello, decodeHello_encodeHello, ofExcept_ok, pure_bind]
  simp only [honestClientHello, ne_eq, not_true_eq_false, if_false, bind_assoc]
  refine follows_verifySignature hsign ?_
  refine .note (follows_writeFrame h₂ ?_)
  simp only [hdh, h.contributory, Bool.true_eq_false, if_false, deriveKeyMaterial_eq, ofExcept_ok,
    pure_bind, note_bind, bind_assoc]
  have hfirst : checkedSucc 0 = some 1 := by decide
  refine .note (follows_send h₃ hfirst (follows_receive haead h₄ hfirst ?_))
  simp only [not_true_eq_false, if_false]
  exact hk

/-- **The server plays its side.** -/
theorem server_follows :
    Follows .right (server cr s)
      (hello₁.map (Prod.mk .left) ++ (hello₂.map (Prod.mk .right) ++
        (finished₁.map (Prod.mk .right) ++ (finished₂.map (Prod.mk .left) ++ []))))
      (honestServer cr c s clientNonce serverNonce) := by
  rw [← bind_pure (server cr s)]
  exact server_follows_then hsign haead hdh h h₁ h₂ h₃ h₄ (.pure _)

end

include hsign haead hdh h

/-- In every reachable state both ends are at their places in the handshake's script. -/
theorem honest_follows {state : Duplex Error Event SecureConnection SecureConnection}
    (hreach : Duplex.Reachable (.start (client cr c) (server cr s)) state) :
    state.Follows (honestClient cr c s clientNonce serverNonce)
      (honestServer cr c s clientNonce serverNonce) := by
  have hhello : ∀ type hello, ∃ bytes, frame (encodeHello type hello) = .ok bytes := by
    intro type hello
    refine ⟨_, frame_of_length (by simp [encodeHello]) ?_⟩
    rw [length_encodeHello]
    decide
  obtain ⟨hello₁, h₁⟩ := hhello clientHelloType (honestClientHello cr c s clientNonce)
  obtain ⟨hello₂, h₂⟩ := hhello serverHelloType (honestServerHello cr c s clientNonce serverNonce)
  obtain ⟨finished₁, h₃⟩ := exists_isFrameOf haead
    (honestTranscriptHash cr c s clientNonce serverNonce)
    (clientConnection (honestKeys cr c s clientNonce serverNonce)
      (honestTranscriptHash cr c s clientNonce serverNonce)).receiveState
    (show serverFinished.length ≤ maxPlaintextSize by decide)
  obtain ⟨finished₂, h₄⟩ := exists_isFrameOf haead
    (honestTranscriptHash cr c s clientNonce serverNonce)
    (clientConnection (honestKeys cr c s clientNonce serverNonce)
      (honestTranscriptHash cr c s clientNonce serverNonce)).sendState
    (show clientFinished.length ≤ maxPlaintextSize by decide)
  exact Duplex.follows_of_reachable (client_follows hsign haead h h₁ h₂ h₃ h₄)
    (server_follows hsign haead hdh h h₁ h₂ h₃ h₄) hreach

/-- **Agreement and progress.** On an honest connection no reachable state is failed, and none is
stuck before both ends have returned; every run ends; and once both ends have returned, each
end's send state is the other's receive state, both counters are at 1, and the transcripts are
the same. -/
theorem honest_run {state : Duplex Error Event SecureConnection SecureConnection}
    (hreach : Duplex.Reachable (.start (client cr c) (server cr s)) state) :
    (∀ e, state.left ≠ .fail e) ∧ (∀ e, state.right ≠ .fail e) ∧
      ((∃ cc sc, state.left = .pure cc ∧ state.right = .pure sc) ∨
        ∃ state', Duplex.Step state state') ∧
      Acc (fun s' s => Duplex.Step s s') state ∧
      ∀ cc sc, state.left = .pure cc → state.right = .pure sc →
        cc.sendState = sc.receiveState ∧ sc.sendState = cc.receiveState ∧
          cc.sendState.sequence = 1 ∧ sc.sendState.sequence = 1 ∧
          cc.transcriptHash = sc.transcriptHash := by
  have hfollows := honest_follows hsign haead hdh h hreach
  obtain ⟨script, hleft, hright, -⟩ := id hfollows
  refine ⟨hleft.returned.1, hright.returned.1, ?_, Duplex.step_wellFounded.apply state, ?_⟩
  · exact hfollows.exists_step.imp (fun ⟨hl, hr⟩ => ⟨_, _, hl, hr⟩) id
  · intro cc sc hcc hsc
    obtain rfl := hleft.returned.2 cc hcc
    obtain rfl := hright.returned.2 sc hsc
    exact ⟨rfl, rfl, rfl, rfl, rfl⟩

end

/-- A handshake that has run to its end, with its agreement. -/
theorem honest_run_returned :
    ∃ state : Duplex Error Event SecureConnection SecureConnection, ∃ cc sc,
      state.left = .pure cc ∧ state.right = .pure sc ∧
      (∀ e, state.left ≠ .fail e) ∧ (∀ e, state.right ≠ .fail e) ∧
      ((∃ cc sc, state.left = .pure cc ∧ state.right = .pure sc) ∨
        ∃ state', Duplex.Step state state') ∧
      Acc (fun s' s => Duplex.Step s s') state ∧
      ∀ cc sc, state.left = .pure cc → state.right = .pure sc →
        cc.sendState = sc.receiveState ∧ sc.sendState = cc.receiveState ∧
          cc.sendState.sequence = 1 ∧ sc.sendState.sequence = 1 ∧
          cc.transcriptHash = sc.transcriptHash := by
  have hboth : Reciprocal .transparent exampleClientParams exampleServerParams
      ⟨List.replicate 32 5, rfl⟩ ⟨List.replicate 32 6, rfl⟩ :=
    ⟨rfl, rfl, rfl, rfl, by decide⟩
  obtain ⟨state, hreach, hl, hr⟩ := (honest_follows Crypto.transparent_signCorrect
    Crypto.transparent_aeadCorrect (by decide) hboth .refl).exists_returned
  exact ⟨state, _, _, hl, hr, honest_run Crypto.transparent_signCorrect
    Crypto.transparent_aeadCorrect (by decide) hboth hreach⟩

end Security

end Taunicorn
