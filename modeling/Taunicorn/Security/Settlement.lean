import Taunicorn.Lib.Conversation
import Taunicorn.Security.Codecs
import Taunicorn.Security.HonestRun

/-!
# How a handshake ends

`client` and `server` on the two ends of a connection that nobody disturbs, with any parameters:
either end may have drawn no randomness, may have pinned somebody else, or may meet a shared secret
that is not contributory. A program that fails gives up its connection, and what its peer reads or
writes behind that fails.

Whoever sees a mismatch first fails, and in front of that place the two ends play one script: up to
nothing at all, up to the client's hello, or up to the server's hello. The other end waits there,
or fails there as well. So a handshake never ends on one side only.

## Main results

* `client_endFails`, `server_endFails` — no end of the stream is taken for a message
* `client_opens`, `server_refuses`, `client_refuses` — the places where the script ends
* `handshake_settles` — both ends return, or both fail
* `handshake_under_faults` — whatever breaks, whoever returns has the honest session
-/

namespace Taunicorn

namespace Security

open StreamProg

variable {cr : Crypto} {side : Side} {α β : Type} {script : List (Side × UInt8)}

/-! ### No end of the stream is taken for a message -/

theorem endFails_ofExcept (x : Except Error α) : (ofExcept x : Prog α).EndFails := by
  cases x <;> trivial

theorem endFails_okOrElse (x : Option α) (text : String) : (okOrElse x text).EndFails := by
  cases x <;> trivial

theorem readLoop_endFails (size fuel : ℕ) (got : List UInt8) :
    (readLoop size fuel got).EndFails := by
  induction fuel generalizing got with
  | zero => trivial
  | succ fuel ih =>
    rw [readLoop]
    split
    · next hlt =>
      refine ⟨Nat.sub_pos_of_lt hlt, ⟨_, rfl⟩, ?_⟩
      rintro ((_ | ⟨b, chunk⟩) | _)
      · trivial
      · exact ih _
      · trivial
    · trivial

theorem readFrame_endFails : readFrame.EndFails := by
  refine (readLoop_endFails _ _ _).bind fun header => ?_
  dsimp only
  split_ifs
  · trivial
  · trivial
  · exact readLoop_endFails _ _ _

theorem writeFrame_endFails (payload : List UInt8) : (writeFrame payload).EndFails :=
  (endFails_ofExcept _).bind fun _ => trivial

theorem verifySignature_endFails (identity : Bytes ed25519PublicKeySize) (message : List UInt8)
    (signature : Bytes ed25519SignatureSize) :
    (verifySignature cr identity message signature).EndFails := by
  refine (endFails_ofExcept _).bind fun _ => ?_
  split_ifs <;> trivial

theorem SecureConnection.send_endFails (c : SecureConnection) (plaintext : List UInt8) :
    (c.send cr plaintext).EndFails := by
  refine EndFails.bind ?_ fun state => trivial
  refine (endFails_okOrElse _ _).bind fun next => ?_
  refine EndFails.bind (endFails_okOrElse _ _) fun ciphertext => ?_
  exact (writeFrame_endFails _).bind fun _ => trivial

theorem SecureConnection.receive_endFails (c : SecureConnection) : (c.receive cr).EndFails := by
  refine EndFails.bind ?_ fun result => trivial
  refine readFrame_endFails.bind fun frame => ?_
  refine (endFails_ofExcept _).bind fun parts => ?_
  dsimp only
  split_ifs
  · trivial
  · refine EndFails.bind (endFails_okOrElse _ _) fun plaintext => ?_
    exact (endFails_okOrElse _ _).bind fun next => trivial

theorem client_endFails (cr : Crypto) (params : Params) : (client cr params).EndFails := by
  refine (endFails_ofExcept _).bind fun nonce => ?_
  refine (writeFrame_endFails _).bind fun _ => ?_
  refine readFrame_endFails.bind fun frame => ?_
  refine (endFails_ofExcept _).bind fun hello => ?_
  split_ifs
  · trivial
  refine (verifySignature_endFails _ _ _).bind fun _ => ?_
  dsimp only
  split_ifs
  · trivial
  refine (endFails_ofExcept _).bind fun keys => ?_
  refine EndFails.bind (SecureConnection.receive_endFails _) fun result => ?_
  split_ifs
  · trivial
  · exact SecureConnection.send_endFails _ _

theorem server_endFails (cr : Crypto) (params : Params) : (server cr params).EndFails := by
  refine readFrame_endFails.bind fun frame => ?_
  refine (endFails_ofExcept _).bind fun hello => ?_
  split_ifs
  · trivial
  refine (verifySignature_endFails _ _ _).bind fun _ => ?_
  refine (endFails_ofExcept _).bind fun nonce => ?_
  refine (writeFrame_endFails _).bind fun _ => ?_
  dsimp only
  split_ifs
  · trivial
  refine (endFails_ofExcept _).bind fun keys => ?_
  refine EndFails.bind (SecureConnection.send_endFails _ _) fun secure => ?_
  refine (SecureConnection.receive_endFails _).bind fun result => ?_
  split_ifs <;> trivial

/-! ### Up to a place -/

/-- Reading a frame, and then some place. -/
theorem plays_readFrame {payload bytes : List UInt8} {k : List UInt8 → Prog α} {q : Prog α}
    (hframe : frame payload = .ok bytes) (hk : Plays side (k payload) script q) :
    Plays side (readFrame >>= k) (bytes.map (Prod.mk side.other) ++ script) q := by
  obtain ⟨q₀, hq₀, hfollows⟩ := hk
  refine ⟨readFrame >>= fun f => if f = payload then q₀ else .pure (k f), ?_,
    follows_readFrame hframe (by rwa [if_pos rfl])⟩
  rw [join, bind_assoc]
  refine congrArg _ (funext fun f => ?_)
  split
  · next hf => exact hf ▸ hq₀
  · rfl

theorem plays_writeFrame {payload bytes : List UInt8} {k : Unit → Prog α} {q : Prog α}
    (hframe : frame payload = .ok bytes) (hk : Plays side (k ()) script q) :
    Plays side (writeFrame payload >>= k) (bytes.map (Prod.mk side) ++ script) q := by
  obtain ⟨q₀, hq₀, hfollows⟩ := hk
  refine ⟨writeFrame payload >>= fun _ => q₀, ?_, follows_writeFrame hframe hfollows⟩
  rw [join, bind_assoc]
  exact congrArg _ (funext fun _ => hq₀)

theorem plays_verifySignature (hsign : cr.SignCorrect) {key : Bytes ed25519PrivateKeySize}
    {message : List UInt8} {k : Unit → Prog α} {q : Prog α} (hk : Plays side (k ()) script q) :
    Plays side (verifySignature cr (cr.verifyingKey key) message (cr.sign key message) >>= k)
      script q := by
  obtain ⟨q₀, hq₀, hfollows⟩ := hk
  refine ⟨verifySignature cr (cr.verifyingKey key) message (cr.sign key message) >>= fun _ => q₀,
    ?_, follows_verifySignature hsign hfollows⟩
  rw [join, bind_assoc]
  exact congrArg _ (funext fun _ => hq₀)

/-- Checking a signature that its holder made over something else. -/
theorem verifySignature_eq_fail (hsign : cr.SignCorrect) {key : Bytes ed25519PrivateKeySize}
    {message message' : List UInt8} {k : Unit → Prog α}
    (hverify : cr.verify (cr.verifyingKey key) message' (cr.sign key message) ≠ true) :
    (verifySignature cr (cr.verifyingKey key) message' (cr.sign key message) >>= k)
      = .fail (.msg "peer identity signature verification failed") := by
  rw [verifySignature, hsign.keyDecodes_verifyingKey, ofExcept_ok, pure_bind,
    hsign.signatureDecodes_sign, if_pos rfl, if_neg hverify]
  rfl

/-- A program that reads a frame waits. -/
theorem readFrame_bind_waits (k : List UInt8 → Prog α) : (readFrame >>= k).Waits :=
  ⟨_, _, rfl⟩

/-! ### The places -/

/-- The hello of a client, whomever it has pinned. -/
def clientHelloOf (cr : Crypto) (c : Params) (nonce : Bytes handshakeNonceSize) : ClientHello where
  ephemeralPublicKey := cr.x25519Public c.ephemeralPrivate
  identityPublicKey := cr.verifyingKey c.identityPrivateKey
  nonce := nonce
  signature := cr.sign c.identityPrivateKey (clientSignatureMessage
    (cr.x25519Public c.ephemeralPrivate) (cr.verifyingKey c.identityPrivateKey) nonce
    c.peerIdentityPublicKey)

variable {c s : Params} {clientNonce serverNonce : Bytes handshakeNonceSize}
  {hello₁ hello₂ : List UInt8}

/-- The client sends its hello, and waits. -/
theorem client_opens (hrandom : c.osRandom = .ok clientNonce)
    (h₁ : frame (encodeClientHello (clientHelloOf cr c clientNonce)) = .ok hello₁) :
    ∃ q, Plays .left (client cr c) (hello₁.map (Prod.mk .left)) q ∧ q.Waits := by
  rw [client, hrandom, ← List.append_nil (hello₁.map (Prod.mk Side.left))]
  exact ⟨_, .note (plays_writeFrame h₁ (plays_here _)), readFrame_bind_waits _⟩

/-! The primitives do what they are for, and the client's signature is not taken for one under the
server's identity. -/

section

variable (hsign : cr.SignCorrect) (haead : cr.AeadCorrect)
  (hdh : cr.diffieHellman s.ephemeralPrivate (cr.x25519Public c.ephemeralPrivate)
    = cr.diffieHellman c.ephemeralPrivate (cr.x25519Public s.ephemeralPrivate))
  (hbinds : ∀ nonce, cr.Binds (cr.verifyingKey c.identityPrivateKey)
    {(clientSignatureMessage (cr.x25519Public c.ephemeralPrivate)
        (cr.verifyingKey c.identityPrivateKey) nonce c.peerIdentityPublicKey,
      (clientHelloOf cr c nonce).signature)}
    {clientSignatureMessage (cr.x25519Public c.ephemeralPrivate)
      (cr.verifyingKey c.identityPrivateKey) nonce (cr.verifyingKey s.identityPrivateKey)})

include hsign hbinds in
/-- The server reads the client's hello and fails: it has pinned somebody else, the client has, or
it has drawn no randomness. -/
theorem server_refuses
    (h₁ : frame (encodeClientHello (clientHelloOf cr c clientNonce)) = .ok hello₁)
    (hmismatch : s.peerIdentityPublicKey ≠ cr.verifyingKey c.identityPrivateKey ∨
      c.peerIdentityPublicKey ≠ cr.verifyingKey s.identityPrivateKey ∨
      ∃ error, s.osRandom = .error error) :
    ∃ e, Plays .right (server cr s) (hello₁.map (Prod.mk .left)) (.fail e) := by
  rw [server, ← List.append_nil (hello₁.map (Prod.mk Side.left))]
  have hread : ∀ {k : List UInt8 → Prog SecureConnection} {q : Prog SecureConnection},
      Plays .right (k (encodeClientHello (clientHelloOf cr c clientNonce))) [] q →
      Plays .right (readFrame >>= k) (hello₁.map (Prod.mk Side.left) ++ []) q := fun hk =>
    plays_readFrame h₁ hk
  by_cases hpin : s.peerIdentityPublicKey = cr.verifyingKey c.identityPrivateKey
  · by_cases hpinned : c.peerIdentityPublicKey = cr.verifyingKey s.identityPrivateKey
    · obtain ⟨error, herror⟩ := (hmismatch.resolve_left (not_not.mpr hpin)).resolve_left
        (not_not.mpr hpinned)
      refine ⟨.msg s!"failed to obtain handshake randomness: {error}", hread ?_⟩
      rw [decodeClientHello, encodeClientHello, decodeHello_encodeHello, ofExcept_ok, pure_bind]
      simp only [clientHelloOf, hpin, hpinned, herror, ne_eq, not_true_eq_false, if_false]
      exact plays_verifySignature hsign (plays_here _)
    · refine ⟨.msg "peer identity signature verification failed", hread ?_⟩
      rw [decodeClientHello, encodeClientHello, decodeHello_encodeHello, ofExcept_ok, pure_bind]
      simp only [clientHelloOf, hpin, ne_eq, not_true_eq_false, if_false]
      rw [verifySignature_eq_fail hsign fun hverify => hpinned ?_]
      · exact plays_here _
      · have hmessage := hbinds clientNonce _ _ rfl _ rfl hverify
        exact (clientSignatureMessage_inj hmessage).2.2.2.symm
  · refine ⟨.msg "client identity does not match the pinned public key", hread ?_⟩
    rw [decodeClientHello, encodeClientHello, decodeHello_encodeHello, ofExcept_ok, pure_bind,
      if_pos (show (clientHelloOf cr c clientNonce).identityPublicKey ≠ s.peerIdentityPublicKey
        from Ne.symm hpin)]
    exact plays_here _

include hsign in
/-- Where the shared secret is not contributory, the client fails behind the server's hello, -/
theorem client_refuses (hrandom : c.osRandom = .ok clientNonce)
    (hpinned : c.peerIdentityPublicKey = cr.verifyingKey s.identityPrivateKey)
    (hsecret : cr.wasContributory
      (cr.diffieHellman c.ephemeralPrivate (cr.x25519Public s.ephemeralPrivate)) = false)
    (h₁ : frame (encodeClientHello (clientHelloOf cr c clientNonce)) = .ok hello₁)
    (h₂ : frame (encodeServerHello (honestServerHello cr c s clientNonce serverNonce))
      = .ok hello₂) :
    Plays .left (client cr c) (hello₁.map (Prod.mk .left) ++ (hello₂.map (Prod.mk .right) ++ []))
      (.fail (.msg "invalid non-contributory X25519 shared secret")) := by
  rw [client, hrandom]
  refine .note (plays_writeFrame h₁ (plays_readFrame h₂ ?_))
  rw [decodeServerHello, encodeServerHello, decodeHello_encodeHello, ofExcept_ok, pure_bind]
  simp only [honestServerHello, hpinned, ne_eq, not_true_eq_false, if_false]
  refine plays_verifySignature hsign ?_
  simp only [hsecret, if_true]
  exact plays_here _

include hsign hdh in
/-- and so does the server, behind its own. -/
theorem server_refuses_secret (hrandom : s.osRandom = .ok serverNonce)
    (hpin : s.peerIdentityPublicKey = cr.verifyingKey c.identityPrivateKey)
    (hpinned : c.peerIdentityPublicKey = cr.verifyingKey s.identityPrivateKey)
    (hsecret : cr.wasContributory
      (cr.diffieHellman c.ephemeralPrivate (cr.x25519Public s.ephemeralPrivate)) = false)
    (h₁ : frame (encodeClientHello (clientHelloOf cr c clientNonce)) = .ok hello₁)
    (h₂ : frame (encodeServerHello (honestServerHello cr c s clientNonce serverNonce))
      = .ok hello₂) :
    Plays .right (server cr s) (hello₁.map (Prod.mk .left) ++ (hello₂.map (Prod.mk .right) ++ []))
      (.fail (.msg "invalid non-contributory X25519 shared secret")) := by
  rw [server, hrandom]
  refine plays_readFrame h₁ ?_
  rw [decodeClientHello, encodeClientHello, decodeHello_encodeHello, ofExcept_ok, pure_bind]
  simp only [clientHelloOf, hpin, hpinned, ne_eq, not_true_eq_false, if_false]
  refine plays_verifySignature hsign (.note (plays_writeFrame h₂ ?_))
  simp only [hdh, hsecret, if_true]
  exact plays_here _

/-! ### How it ends -/

theorem exists_hello (type : UInt8) (hello : Hello) :
    ∃ bytes, frame (encodeHello type hello) = .ok bytes := by
  refine ⟨_, frame_of_length (by simp [encodeHello]) ?_⟩
  rw [length_encodeHello]
  decide

include hsign hdh hbinds in
/-- **Where two ends that are not reciprocal part**: each fails or waits, and one of them fails. -/
theorem exists_parting
    (h : ¬∃ clientNonce serverNonce, Reciprocal cr c s clientNonce serverNonce) :
    ∃ script q r, Plays .left (client cr c) script q ∧ Plays .right (server cr s) script r ∧
      (q.Failed ∨ q.Waits) ∧ (r.Failed ∨ r.Waits) ∧ (q.Failed ∨ r.Failed) := by
  cases hcrandom : c.osRandom with
  | error error =>
    -- nothing is said at all
    refine ⟨[], .fail (.msg s!"failed to obtain handshake randomness: {error}"), server cr s, ?_,
      plays_here _, Or.inl ⟨_, rfl⟩, Or.inr (readFrame_bind_waits _), Or.inl ⟨_, rfl⟩⟩
    rw [client, hcrandom]
    exact plays_here _
  | ok clientNonce =>
    obtain ⟨hello₁, h₁⟩ := exists_hello clientHelloType (clientHelloOf cr c clientNonce)
    by_cases hmismatch : s.peerIdentityPublicKey ≠ cr.verifyingKey c.identityPrivateKey ∨
        c.peerIdentityPublicKey ≠ cr.verifyingKey s.identityPrivateKey ∨
        ∃ error, s.osRandom = .error error
    · -- the server fails behind the client's hello, and the client waits
      obtain ⟨q, hclient, hwaits⟩ := client_opens hcrandom h₁
      obtain ⟨e, hserver⟩ := server_refuses hsign hbinds h₁ hmismatch
      exact ⟨_, q, .fail e, hclient, hserver, Or.inr hwaits, Or.inl ⟨e, rfl⟩, Or.inr ⟨e, rfl⟩⟩
    · obtain ⟨hpin, hmismatch⟩ := not_or.mp hmismatch
      obtain ⟨hpinned, hdrawn⟩ := not_or.mp hmismatch
      cases hsrandom : s.osRandom with
      | error error => exact absurd ⟨error, hsrandom⟩ hdrawn
      | ok serverNonce =>
        obtain ⟨hello₂, h₂⟩ :=
          exists_hello serverHelloType (honestServerHello cr c s clientNonce serverNonce)
        cases hsecret : cr.wasContributory
            (cr.diffieHellman c.ephemeralPrivate (cr.x25519Public s.ephemeralPrivate)) with
        | true =>
          exact absurd ⟨clientNonce, serverNonce, hcrandom, hsrandom, not_not.mp hpinned,
            not_not.mp hpin, hsecret⟩ h
        | false =>
          exact ⟨_, _, _, client_refuses hsign hcrandom (not_not.mp hpinned) hsecret h₁ h₂,
            server_refuses_secret hsign hdh hsrandom (not_not.mp hpin) (not_not.mp hpinned)
              hsecret h₁ h₂, Or.inl ⟨_, rfl⟩, Or.inl ⟨_, rfl⟩, Or.inl ⟨_, rfl⟩⟩

include hsign haead hdh in
/-- Both ends of a reciprocal pair play one script, and return. -/
theorem Reciprocal.follows (h : Reciprocal cr c s clientNonce serverNonce) :
    ∃ script, Follows .left (client cr c) script (honestClient cr c s clientNonce serverNonce) ∧
      Follows .right (server cr s) script (honestServer cr c s clientNonce serverNonce) := by
  obtain ⟨script, hclient, hserver, -⟩ := honest_follows hsign haead hdh h .refl
  exact ⟨script, hclient, hserver⟩

include hsign haead hdh hbinds

/-- **A handshake never ends on one side only.** On an undisturbed connection, where the failure of
one end is what breaks it, every run of `client` and `server` ends, with any parameters, and as long
as it has not ended somebody can act. It ends with both ends returned and matching sessions if the
pins are reciprocal, both ends have drawn randomness and the shared secret is contributory; and
otherwise with both ends failed. -/
theorem handshake_settles {state : Duplex Error Event SecureConnection SecureConnection}
    (hreach : Relation.ReflTransGen Duplex.Closing (.start (client cr c) (server cr s)) state) :
    Acc (fun s' s => Duplex.Closing s s') state ∧
      ((∃ clientNonce serverNonce, Reciprocal cr c s clientNonce serverNonce) →
        ¬state.left.Failed ∧ ¬state.right.Failed ∧
        ((∃ cc sc, state.left = .pure cc ∧ state.right = .pure sc ∧
          cc.sendState = sc.receiveState ∧ sc.sendState = cc.receiveState ∧
          cc.transcriptHash = sc.transcriptHash) ∨ ∃ state', Duplex.Closing state state')) ∧
      ((¬∃ clientNonce serverNonce, Reciprocal cr c s clientNonce serverNonce) →
        (∀ cc, state.left ≠ .pure cc) ∧ (∀ sc, state.right ≠ .pure sc) ∧
        (state.BothFailed ∨ ∃ state', Duplex.Closing state state')) := by
  by_cases hboth : ∃ clientNonce serverNonce, Reciprocal cr c s clientNonce serverNonce
  · obtain ⟨clientNonce, serverNonce, hreciprocal⟩ := hboth
    obtain ⟨script, hclient, hserver⟩ := hreciprocal.follows hsign haead hdh
    obtain ⟨hleft, hright, hacc, hends⟩ := Duplex.returns_of_closing hclient hserver hreach
    refine ⟨hacc, fun _ => ⟨hleft, hright, hends.imp_left fun ⟨hl, hr⟩ => ?_⟩,
      fun hnot => absurd ⟨_, _, hreciprocal⟩ hnot⟩
    exact ⟨_, _, hl, hr, rfl, rfl, rfl⟩
  · obtain ⟨script, q, r, hclient, hserver, hq, hr, hfail⟩ :=
      exists_parting hsign hdh hbinds hboth
    obtain ⟨hleft, hright, hacc, hends⟩ := Duplex.fails_of_closing hclient hserver hq hr hfail
      ⟨client_endFails cr c, server_endFails cr s⟩ hreach
    exact ⟨hacc, fun h => absurd h hboth, fun _ => ⟨hleft, hright, hends⟩⟩

/-- **A handshake under faults.** Operations may fail at any time, on either side, and either end
may find the end of the stream behind all bytes. Still an end returns only if the two ends are
reciprocal, and then the session of the undisturbed handshake; so two sessions match. -/
theorem handshake_under_faults {state : Duplex Error Event SecureConnection SecureConnection}
    (hreach : Relation.ReflTransGen Duplex.Lossy (.start (client cr c) (server cr s)) state) :
    (∀ cc, state.left = .pure cc → ∃ clientNonce serverNonce,
      Reciprocal cr c s clientNonce serverNonce ∧
        cc = honestClient cr c s clientNonce serverNonce) ∧
    (∀ sc, state.right = .pure sc → ∃ clientNonce serverNonce,
      Reciprocal cr c s clientNonce serverNonce ∧
        sc = honestServer cr c s clientNonce serverNonce) := by
  have hends : (Duplex.start (client cr c) (server cr s)).EndFails :=
    ⟨client_endFails cr c, server_endFails cr s⟩
  by_cases hboth : ∃ clientNonce serverNonce, Reciprocal cr c s clientNonce serverNonce
  · obtain ⟨clientNonce, serverNonce, hreciprocal⟩ := hboth
    obtain ⟨script, hclient, hserver⟩ := hreciprocal.follows hsign haead hdh
    obtain ⟨hleft, hright⟩ := Duplex.returned_of_lossy hclient.plays hserver.plays trivial trivial
      hends hreach
    refine ⟨fun cc hcc => ⟨_, _, hreciprocal, ?_⟩, fun sc hsc => ⟨_, _, hreciprocal, ?_⟩⟩
    · exact (StreamProg.pure.inj (hleft cc hcc)).symm
    · exact (StreamProg.pure.inj (hright sc hsc)).symm
  · obtain ⟨script, q, r, hclient, hserver, hq, hr, hfail⟩ :=
      exists_parting hsign hdh hbinds hboth
    obtain ⟨hqstands, hqreturn⟩ := standing_of_failed_or_waits hq
    obtain ⟨hrstands, hrreturn⟩ := standing_of_failed_or_waits hr
    obtain ⟨hleft, hright⟩ := Duplex.returned_of_lossy hclient hserver hqstands hrstands hends
      hreach
    exact ⟨fun cc hcc => absurd (hleft cc hcc) (hqreturn cc),
      fun sc hsc => absurd (hright sc hsc) (hrreturn sc)⟩

end

/-! ### A server that has pinned somebody else -/

/-- A server with the example's client at its door and another one pinned. -/
def strangerParams : Params := { exampleServerParams with
  peerIdentityPublicKey := Bytes.replicate 32 9 }

/-- A message that is presented as it was signed binds any signature. -/
theorem binds_self {identity : Bytes ed25519PublicKeySize} {message : List UInt8}
    {signature : Bytes ed25519SignatureSize} :
    cr.Binds identity {(message, signature)} {message} := by
  rintro m _ hmade m' hpresented -
  exact (Set.mem_singleton_iff.mp hpresented).trans
    (congrArg Prod.fst (Set.mem_singleton_iff.mp hmade)).symm

/-- The client and the server at their doors. -/
def strangers : Duplex Error Event SecureConnection SecureConnection :=
  .start (client .transparent exampleClientParams) (server .transparent strangerParams)

/-- Both ends fail, in whatever order they act. -/
theorem handshake_settles_strangers :
    ∃ state, Relation.ReflTransGen Duplex.Closing strangers state ∧ state.BothFailed := by
  have hnot : ¬∃ clientNonce serverNonce,
      Reciprocal .transparent exampleClientParams strangerParams clientNonce serverNonce :=
    fun ⟨_, _, h⟩ => absurd h.serverPin (by decide)
  have hsettles := fun state hreach => @handshake_settles .transparent exampleClientParams
    strangerParams Crypto.transparent_signCorrect Crypto.transparent_aeadCorrect (by decide)
    (fun nonce => binds_self) state hreach
  exact exists_end_of_acc (hsettles _ .refl).1 fun state hreach =>
    ((hsettles state hreach).2.2 hnot).2.2

end Security

end Taunicorn
