import Mathlib.Logic.Function.Basic
import Mathlib.Logic.Relation
import Taunicorn.Security.Handshake

/-!
# Mutual authentication

Any number of `client` and `server` runs, over connections whose every byte the attacker decides.
A run that returns `Ok` with an honest pin has a partner: one run of the other role, by the pinned
identity and pinned to this run's identity, that has derived the same session. And no two runs
share a partner.

## Where the guarantee comes from

The client's signature covers its own half of the handshake only, so a signature alone does not
give the server its partner. Both guarantees come from the encrypted message at the end: it opens
under the run's key material, hence was sealed by a run with the same key material; collision
freedom turns equal key material into equal sessions; and the direction in the associated data
says which role sealed it. The signature is what makes the session honest in the first place: it
shows that the peer's ephemeral key belongs to a run and not to the attacker.

## Assumptions

The ideal properties of the primitives are predicates of the world reached, about the calls that
were made in it. `World.Unforgeable` and `World.Authentic` speak of honest identities and honest
sessions only.

## Main results

* `client_always`, `server_always` — what a run may have called where it stands
* `World.runPoint_of_reachable` — in every reachable world
* `mutual_authentication` — agreement for either role, and injectivity
-/

namespace Taunicorn

namespace Security

open StreamProg

/-! ### Roles -/

/-- The program of a role. -/
def Role.program (cr : Crypto) : Role → Params → Prog SecureConnection
  | .client => Security.client cr
  | .server => Security.server cr

/-- The direction a role sends in. -/
def Role.direction : Role → UInt8
  | .client => directionClientToServer
  | .server => directionServerToClient

theorem Role.direction_injective : Function.Injective Role.direction := by
  intro r r' h
  cases r <;> cases r' <;> first | rfl | exact absurd h (by decide)

/-- The session a role builds from its key material. -/
def Role.connection : Role → KeyMaterial → Bytes transcriptHashSize → SecureConnection
  | .client => clientConnection
  | .server => serverConnection

/-- The string the transcript hash of a session is taken of. -/
def Session.transcript (s : Session) : List UInt8 :=
  transcriptBytes s.clientEphemeral s.clientIdentity s.clientNonce s.serverEphemeral
    s.serverIdentity s.serverNonce

/-- What each end of a session signs. -/
def Session.signatureMessage (s : Session) : Role → List UInt8
  | .client =>
    clientSignatureMessage s.clientEphemeral s.clientIdentity s.clientNonce s.serverIdentity
  | .server =>
    serverSignatureMessage s.clientEphemeral s.clientIdentity s.clientNonce s.serverEphemeral
      s.serverIdentity s.serverNonce

/-! ### What a run calls -/

section

variable (cr : Crypto) (role : Role) (params : Params)

/-- A session a run can derive: its own values at its end, its pin at the other, and a transcript
and key material that are computed from the session. -/
structure IsSessionOf (s : Session) : Prop where
  identity : s.identity role = cr.verifyingKey params.identityPrivateKey
  peerIdentity : s.identity role.other = params.peerIdentityPublicKey
  ephemeral : s.ephemeral role = cr.x25519Public params.ephemeralPrivate
  nonce : params.osRandom = .ok (s.nonce role)
  transcriptHash : s.transcriptHash = cr.sha256 s.transcript
  keys : s.keys = keySlices (cr.hkdf s.transcriptHash s.sharedSecret
    (ascii "taunicorn-e2ee-v2/session-keys"))

/-- A message a run can sign. -/
def Signs (message : List UInt8) : Prop :=
  match role with
  | .client => ∃ nonce, message = clientSignatureMessage (cr.x25519Public params.ephemeralPrivate)
      (cr.verifyingKey params.identityPrivateKey) nonce params.peerIdentityPublicKey
  | .server => ∃ (hello : ClientHello) (nonce : Bytes handshakeNonceSize),
      message = serverSignatureMessage hello.ephemeralPublicKey hello.identityPublicKey hello.nonce
        (cr.x25519Public params.ephemeralPrivate) (cr.verifyingKey params.identityPrivateKey) nonce

/-- The calls a run may make, given those it has made. -/
def Permits (log : List Event) : Event → Prop
  | .sign identity message =>
    identity = cr.verifyingKey params.identityPrivateKey ∧ Signs cr role params message
  | .derive s => (∀ s', Event.derive s' ∉ log) ∧ IsSessionOf cr role params s ∧
      ∃ signature, Event.verified (s.identity role.other) (s.signatureMessage role.other) signature
        ∈ log
  | .encrypt _ _ aad _ _ => ∃ sequence transcriptHash,
      aad = makeAad role.direction sequence transcriptHash
  | .verified _ _ _ => True
  | .decrypt _ _ _ _ _ => True

/-- The calls of one run, each permitted where it was made. -/
inductive RunLog : List Event → Prop
  | nil : RunLog []
  | snoc {log : List Event} {event : Event} :
      RunLog log → Permits cr role params log event → RunLog (log ++ [event])

/-- What a run that returns `connection` has called: it has derived a session, opened a message of
the other direction under its transcript, and the connection is that session behind one message in
each direction. -/
def Finished (log : List Event) (connection : SecureConnection) : Prop :=
  ∃ s, Event.derive s ∈ log ∧
    connection = (role.connection s.keys s.transcriptHash).withSequences 1 1 ∧
    ∃ key nonce sequence ciphertext plaintext,
      Event.decrypt key nonce (makeAad role.other.direction sequence s.transcriptHash) ciphertext
        (some plaintext) ∈ log

/-- Where a run can stand. -/
def RunPoint (log : List Event) (q : Prog SecureConnection) : Prop :=
  RunLog cr role params log ∧ ∀ connection, q = .pure connection → Finished role log connection

end

variable {cr : Crypto} {role role' : Role} {params : Params} {log : List Event} {event : Event}
  {s s' : Session}

/-- Every call of a run was permitted. -/
theorem RunLog.permits_of_mem (h : RunLog cr role params log) (he : event ∈ log) :
    ∃ before, before <+: log ∧ Permits cr role params before event := by
  induction h with
  | nil => simp at he
  | @snoc log event' hlog hpermits ih =>
    rcases List.mem_append.mp he with he | he
    · obtain ⟨before, hbefore, hp⟩ := ih he
      exact ⟨before, hbefore.trans (List.prefix_append _ _), hp⟩
    · rw [List.mem_singleton.mp he]
      exact ⟨log, List.prefix_append _ _, hpermits⟩

/-- A run derives one session. -/
theorem RunLog.derive_unique (h : RunLog cr role params log) (hs : Event.derive s ∈ log)
    (hs' : Event.derive s' ∈ log) : s = s' := by
  induction h with
  | nil => simp at hs
  | snoc hlog hpermits ih =>
    rw [List.mem_append, List.mem_singleton] at hs hs'
    rcases hs with hs | rfl <;> rcases hs' with hs' | hs'
    · exact ih hs hs'
    · subst hs'; exact absurd hs (hpermits.1 s)
    · exact absurd hs' (hpermits.1 s')
    · exact Event.derive.inj hs'.symm

theorem RunLog.isSessionOf (h : RunLog cr role params log) (hs : Event.derive s ∈ log) :
    IsSessionOf cr role params s := by
  obtain ⟨before, -, hpermits⟩ := h.permits_of_mem hs
  exact hpermits.2.1

/-- A run has verified its peer's signature before it derives. -/
theorem RunLog.verified_of_derive (h : RunLog cr role params log) (hs : Event.derive s ∈ log) :
    ∃ signature, Event.verified (s.identity role.other) (s.signatureMessage role.other) signature
      ∈ log := by
  obtain ⟨before, hbefore, -, -, signature, hmem⟩ := h.permits_of_mem hs
  exact ⟨signature, hbefore.subset hmem⟩

/-- The signature of one role's message shows the ephemeral key of a run of that role. -/
theorem Signs.eq_of_signatureMessage (h : Signs cr role params (s.signatureMessage role')) :
    role = role' ∧ s.ephemeral role' = cr.x25519Public params.ephemeralPrivate := by
  cases role <;> cases role'
  · obtain ⟨nonce, h⟩ := h
    obtain ⟨h, -⟩ := append_bytes_inj h
    exact ⟨rfl, (append_bytes_inj h).2⟩
  · obtain ⟨nonce, h⟩ := h
    have hlen := congrArg List.length h
    simp only [Session.signatureMessage, clientSignatureMessage, serverSignatureMessage,
      List.length_append, Bytes.length] at hlen
    exact absurd hlen (by decide)
  · obtain ⟨hello, nonce, h⟩ := h
    have hlen := congrArg List.length h
    simp only [Session.signatureMessage, clientSignatureMessage, serverSignatureMessage,
      List.length_append, Bytes.length] at hlen
    exact absurd hlen (by decide)
  · obtain ⟨hello, nonce, h⟩ := h
    obtain ⟨h, -⟩ := append_bytes_inj h
    obtain ⟨h, -⟩ := append_bytes_inj h
    exact ⟨rfl, (append_bytes_inj h).2⟩

/-! ### Rules for runs -/

theorem RunLog.fail (h : RunLog cr role params log) (e : Error) :
    (StreamProg.fail e : Prog SecureConnection).Always (RunPoint cr role params) log :=
  ⟨h, nofun⟩

theorem RunLog.note {next : Prog SecureConnection} (h : RunLog cr role params log)
    (hpermits : Permits cr role params log event)
    (hnext : RunLog cr role params (log ++ [event]) →
      next.Always (RunPoint cr role params) (log ++ [event])) :
    (StreamProg.note event next).Always (RunPoint cr role params) log :=
  ⟨⟨h, nofun⟩, hnext (h.snoc hpermits)⟩

theorem RunLog.bind {α : Type} {p : Prog α} {f : α → Prog SecureConnection}
    (h : RunLog cr role params log) (hp : p.Silent)
    (hf : ∀ a, (f a).Always (RunPoint cr role params) log) :
    (p >>= f).Always (RunPoint cr role params) log := by
  refine Always.bind hp (fun q hq => ⟨h, ?_⟩) h.fail hf
  rintro connection rfl
  exact hq.elim

theorem RunLog.okOrElse {α : Type} {x : Option α} {text : String} {f : α → Prog SecureConnection}
    (h : RunLog cr role params log)
    (hf : ∀ a, x = some a → (f a).Always (RunPoint cr role params) log) :
    (okOrElse x text >>= f).Always (RunPoint cr role params) log := by
  cases x with
  | none => exact h.fail _
  | some a => exact hf a rfl

/-- Behind a signature, the signing is recorded. -/
theorem RunLog.sign {message : List UInt8} {f : Bytes ed25519SignatureSize → Prog SecureConnection}
    (h : RunLog cr role params log) (hsigns : Signs cr role params message)
    (hf : RunLog cr role params
        (log ++ [.sign (cr.verifyingKey params.identityPrivateKey) message]) →
      (f (cr.sign params.identityPrivateKey message)).Always (RunPoint cr role params)
        (log ++ [.sign (cr.verifyingKey params.identityPrivateKey) message])) :
    (sign cr params.identityPrivateKey message >>= f).Always (RunPoint cr role params) log :=
  h.note ⟨rfl, hsigns⟩ hf

/-- Behind a checked signature, the check is recorded. -/
theorem RunLog.verifySignature {identity : Bytes ed25519PublicKeySize} {message : List UInt8}
    {signature : Bytes ed25519SignatureSize} {f : Unit → Prog SecureConnection}
    (h : RunLog cr role params log)
    (hf : RunLog cr role params (log ++ [.verified identity message signature]) →
      (f ()).Always (RunPoint cr role params) (log ++ [.verified identity message signature])) :
    (verifySignature cr identity message signature >>= f).Always (RunPoint cr role params) log := by
  rw [Security.verifySignature, bind_assoc]
  refine h.bind (silent_ofExcept _) fun _ => ?_
  split_ifs
  · exact h.note trivial hf
  · exact h.fail _
  · exact h.fail _

/-- Behind a received message, its decryption is recorded. -/
theorem RunLog.receive {c : SecureConnection} {f : List UInt8 × SecureConnection →
    Prog SecureConnection} (h : RunLog cr role params log)
    (hf : ∀ plaintext next ciphertext, checkedSucc c.receiveState.sequence = some next →
      ∀ log', log' = log ++ [.decrypt c.receiveState.cipher c.receiveState.nonce
          (c.receiveState.aad c.transcriptHash) ciphertext (some plaintext)] →
      RunLog cr role params log' →
      (f (plaintext, c.withSequences next c.sendState.sequence)).Always (RunPoint cr role params)
        log') :
    (c.receive cr >>= f).Always (RunPoint cr role params) log := by
  rw [SecureConnection.receive, Security.receive]
  simp only [bind_assoc]
  refine h.bind readFrame_silent fun frame => ?_
  rw [openFrame, bind_assoc]
  refine h.bind (silent_ofExcept _) fun parts => ?_
  obtain ⟨sequenceBytes, ciphertext⟩ := parts
  dsimp only
  split_ifs with hseq
  · exact h.fail _
  · obtain rfl : sequenceBytes = toBeBytes c.receiveState.sequence := by
      rw [← not_ne_iff.mp hseq, toBeBytes_fromBeBytes]
    simp only [decrypt, note_bind, bind_assoc]
    refine h.note trivial fun hlog => hlog.okOrElse fun plaintext hdec => ?_
    refine hlog.okOrElse fun next hnext => ?_
    exact hf plaintext next ciphertext hnext _ (by rw [hdec]; rfl) hlog

/-- Behind a message sent in the role's direction, its encryption is recorded. -/
theorem RunLog.send {c : SecureConnection} {plaintext : List UInt8}
    {f : SecureConnection → Prog SecureConnection} (h : RunLog cr role params log)
    (hdirection : c.sendState.direction = role.direction)
    (hf : ∀ next ciphertext, checkedSucc c.sendState.sequence = some next →
      ∀ log', log' = log ++ [.encrypt c.sendState.cipher c.sendState.nonce
          (c.sendState.aad c.transcriptHash) plaintext (some ciphertext)] →
      RunLog cr role params log' →
      (f (c.withSequences c.receiveState.sequence next)).Always (RunPoint cr role params) log') :
    (c.send cr plaintext >>= f).Always (RunPoint cr role params) log := by
  rw [SecureConnection.send, Security.send]
  simp only [bind_assoc]
  refine h.okOrElse fun next hnext => ?_
  simp only [encrypt, note_bind]
  have hpermits : Permits cr role params log (.encrypt c.sendState.cipher
      (makeNonce c.sendState.noncePrefix (toBeBytes c.sendState.sequence))
      (makeAad c.sendState.direction (toBeBytes c.sendState.sequence) c.transcriptHash) plaintext
      (cr.encrypt c.sendState.cipher
        (makeNonce c.sendState.noncePrefix (toBeBytes c.sendState.sequence))
        (makeAad c.sendState.direction (toBeBytes c.sendState.sequence) c.transcriptHash)
        plaintext)) :=
    ⟨_, _, by rw [hdirection]⟩
  refine h.note hpermits fun hlog => hlog.okOrElse fun ciphertext hct => ?_
  refine hlog.bind (writeFrame_silent _) fun _ => ?_
  exact hf next ciphertext hnext _ (by rw [hct]; rfl) hlog

/-! ### The two programs -/

theorem client_always (cr : Crypto) (params : Params) :
    (client cr params).Always (RunPoint cr .client params) [] := by
  have h : RunLog cr .client params [] := .nil
  rw [client]
  cases hrandom : params.osRandom with
  | error e => exact h.fail _
  | ok nonce =>
    refine h.sign ⟨nonce, rfl⟩ fun h => ?_
    refine h.bind (writeFrame_silent _) fun _ => h.bind readFrame_silent fun frame => ?_
    refine h.bind (silent_ofExcept _) fun hello => ?_
    split_ifs with hpin
    · exact h.fail _
    refine h.verifySignature fun h => ?_
    dsimp only
    split_ifs
    · exact h.fail _
    rw [deriveKeyMaterial_eq, ofExcept_ok, pure_bind]
    refine h.note ⟨by simp, ⟨rfl, not_ne_iff.mp hpin, rfl, hrandom, rfl, rfl⟩, hello.signature,
      by simp [Session.identity, Session.signatureMessage, Role.other]⟩ fun h => ?_
    refine h.receive ?_
    rintro received next ciphertext hnext _ rfl h
    dsimp only
    split_ifs
    · exact h.fail _
    rw [← bind_pure (SecureConnection.send _ _ _)]
    refine h.send rfl ?_
    rintro next' ciphertext' hnext' _ rfl h
    refine ⟨h, fun connection hret => ⟨_, List.mem_append_left _ (List.mem_append_left _
      List.mem_concat_self), ?_, _, _, _, ciphertext, received,
      List.mem_append_left _ List.mem_concat_self⟩⟩
    obtain rfl := Option.some.inj hnext
    obtain rfl := Option.some.inj hnext'
    exact (StreamProg.pure.inj hret).symm

theorem server_always (cr : Crypto) (params : Params) :
    (server cr params).Always (RunPoint cr .server params) [] := by
  have h : RunLog cr .server params [] := .nil
  rw [server]
  refine h.bind readFrame_silent fun frame => h.bind (silent_ofExcept _) fun hello => ?_
  split_ifs with hpin
  · exact h.fail _
  refine h.verifySignature fun h => ?_
  dsimp only
  cases hrandom : params.osRandom with
  | error e => exact h.fail _
  | ok nonce =>
    refine h.sign ⟨hello, nonce, rfl⟩ fun h => h.bind (writeFrame_silent _) fun _ => ?_
    split_ifs
    · exact h.fail _
    rw [deriveKeyMaterial_eq, ofExcept_ok, pure_bind]
    refine h.note ⟨by simp, ⟨rfl, not_ne_iff.mp hpin, rfl, hrandom, rfl, rfl⟩, hello.signature,
      by simp [Session.identity, Session.signatureMessage, Role.other]⟩ fun h => ?_
    refine h.send rfl ?_
    rintro next ciphertext hnext _ rfl h
    refine h.receive ?_
    rintro received next' ciphertext' hnext' _ rfl h
    dsimp only
    split_ifs
    · exact h.fail _
    refine ⟨h, fun connection hret => ⟨_, List.mem_append_left _ (List.mem_append_left _
      List.mem_concat_self), ?_, _, _, _, ciphertext', received, List.mem_concat_self⟩⟩
    obtain rfl := Option.some.inj hnext
    obtain rfl := Option.some.inj hnext'
    exact (StreamProg.pure.inj hret).symm

/-! ### Worlds -/

/-- One call of `client` or `server`: what is left of it, and what it has called. -/
structure HandshakeRun where
  role : Role
  params : Params
  prog : Prog SecureConnection
  log : List Event

/-- Any number of runs. -/
abbrev World := ℕ → Option HandshakeRun

/-- A run starts, or a run performs one operation, which the attacker answers as it likes. The
attacker owns every connection, so what a run sends needs no place of its own. -/
inductive World.Step (cr : Crypto) : World → World → Prop
  | spawn {w : World} {i : ℕ} {role : Role} {params : Params} : w i = none →
      Step cr w (Function.update w i (some ⟨role, params, role.program cr params, []⟩))
  | act {w : World} {i : ℕ} {run : HandshakeRun} {events : List Event}
      {prog : Prog SecureConnection} : w i = some run → StreamProg.Step run.prog events prog →
      Step cr w (Function.update w i (some { run with prog, log := run.log ++ events }))

/-- The worlds reached from one without runs. -/
def World.Reachable (cr : Crypto) : World → Prop :=
  Relation.ReflTransGen (World.Step cr) fun _ => none

/-- A run is at one of its program's points. -/
def HandshakeRun.Sound (cr : Crypto) (run : HandshakeRun) : Prop :=
  run.prog.Always (RunPoint cr run.role run.params) run.log

theorem program_always (cr : Crypto) (role : Role) (params : Params) :
    (role.program cr params).Always (RunPoint cr role params) [] := by
  cases role with
  | client => exact client_always cr params
  | server => exact server_always cr params

theorem World.Step.sound {w w' : World} (hstep : World.Step cr w w')
    (h : ∀ i run, w i = some run → run.Sound cr) : ∀ i run, w' i = some run → run.Sound cr := by
  intro j run' hrun'
  cases hstep with
  | @spawn i role params _ =>
    rcases eq_or_ne j i with rfl | hne
    · rw [Function.update_self] at hrun'
      exact Option.some.inj hrun' ▸ program_always cr role params
    · exact h j run' (by rwa [Function.update_of_ne hne] at hrun')
  | @act i run events prog hrun hact =>
    rcases eq_or_ne j i with rfl | hne
    · rw [Function.update_self] at hrun'
      exact Option.some.inj hrun' ▸ (h j run hrun).step hact
    · exact h j run' (by rwa [Function.update_of_ne hne] at hrun')

/-- **Every reachable world.** Each run has called what its program permits where it stands. -/
theorem World.runPoint_of_reachable {w : World} (h : w.Reachable cr) {i : ℕ} {run : HandshakeRun}
    (hrun : w i = some run) : RunPoint cr run.role run.params run.log run.prog := by
  have hsound : ∀ i run, w i = some run → run.Sound cr := by
    clear hrun
    induction h with
    | refl => exact nofun
    | tail _ hstep ih => exact hstep.sound ih
  exact (hsound i run hrun).here

/-! ### Ideal primitives -/

/-- A session some run has derived. -/
def World.Derived (w : World) (s : Session) : Prop :=
  ∃ i run, w i = some run ∧ Event.derive s ∈ run.log

/-- An ephemeral key some run has drawn. -/
def World.DrawnEphemeral (cr : Crypto) (w : World) (key : Bytes x25519PublicKeySize) : Prop :=
  ∃ i run, w i = some run ∧ key = cr.x25519Public run.params.ephemeralPrivate

/-- Unforgeable signatures: a message verified as an honest identity's was signed by one of its
runs. -/
def World.Unforgeable (w : World) (honest : Bytes ed25519PublicKeySize → Prop) : Prop :=
  ∀ i run identity message signature, w i = some run →
    Event.verified identity message signature ∈ run.log → honest identity →
    ∃ j run', w j = some run' ∧ Event.sign identity message ∈ run'.log

/-- Collision freedom, of SHA-256 and of HKDF, on the inputs the runs have used. -/
structure World.CollisionFree (cr : Crypto) (w : World) : Prop where
  sha256 : ∀ s s', w.Derived s → w.Derived s' →
    cr.sha256 s.transcript = cr.sha256 s'.transcript → s.transcript = s'.transcript
  hkdf : ∀ s s', w.Derived s → w.Derived s' →
    cr.hkdf s.transcriptHash s.sharedSecret (ascii "taunicorn-e2ee-v2/session-keys")
      = cr.hkdf s'.transcriptHash s'.sharedSecret (ascii "taunicorn-e2ee-v2/session-keys") →
    s.transcriptHash = s'.transcriptHash ∧ s.sharedSecret = s'.sharedSecret

/-- Different runs draw different nonces and ephemeral keys. -/
structure World.Fresh (cr : Crypto) (w : World) : Prop where
  nonce : ∀ i j run run' nonce, w i = some run → w j = some run' →
    run.params.osRandom = .ok nonce → run'.params.osRandom = .ok nonce → i = j
  ephemeral : ∀ i j run run', w i = some run → w j = some run' →
    cr.x25519Public run.params.ephemeralPrivate = cr.x25519Public run'.params.ephemeralPrivate →
    i = j

/-- A session is honest if both its ephemeral keys were drawn by runs. What opens under an honest
session's key material was sealed by a run that holds the same key material. -/
def World.Authentic (cr : Crypto) (w : World) : Prop :=
  ∀ i run s, w i = some run → Event.derive s ∈ run.log →
    w.DrawnEphemeral cr s.clientEphemeral → w.DrawnEphemeral cr s.serverEphemeral →
    ∀ key nonce aad ciphertext plaintext,
      Event.decrypt key nonce aad ciphertext (some plaintext) ∈ run.log →
      ∃ j run' s', w j = some run' ∧ Event.derive s' ∈ run'.log ∧ s'.keys = s.keys ∧
        Event.encrypt key nonce aad plaintext (some ciphertext) ∈ run'.log

/-! ### Agreement -/

/-- Two runs of opposite roles that have derived one session, each with the other's identity
pinned, and each with its own values at its end of the session. -/
structure Agree (cr : Crypto) (run run' : HandshakeRun) (s : Session) : Prop where
  role : run'.role = run.role.other
  identity : cr.verifyingKey run'.params.identityPrivateKey = run.params.peerIdentityPublicKey
  pin : run'.params.peerIdentityPublicKey = cr.verifyingKey run.params.identityPrivateKey
  derived : Event.derive s ∈ run.log
  derived' : Event.derive s ∈ run'.log
  session : IsSessionOf cr run.role run.params s
  session' : IsSessionOf cr run'.role run'.params s

/-- Equal key material means equal sessions. -/
theorem World.CollisionFree.session_eq {w : World} (h : w.CollisionFree cr)
    (hreach : w.Reachable cr) (hs : w.Derived s) (hs' : w.Derived s') (hkeys : s'.keys = s.keys) :
    s' = s := by
  obtain ⟨i, run, hrun, hmem⟩ := id hs
  obtain ⟨i', run', hrun', hmem'⟩ := id hs'
  have hof := (World.runPoint_of_reachable hreach hrun).1.isSessionOf hmem
  have hof' := (World.runPoint_of_reachable hreach hrun').1.isSessionOf hmem'
  have hout := keySlices_injective ((hof'.keys.symm.trans hkeys).trans hof.keys)
  obtain ⟨hhash, hsecret⟩ := h.hkdf s' s hs' hs hout
  have htranscript := h.sha256 s' s hs' hs
    ((hof'.transcriptHash.symm.trans hhash).trans hof.transcriptHash)
  obtain ⟨hce, hci, hcn, hse, hsi, hsn⟩ := transcriptBytes_inj htranscript
  cases s; cases s'
  simp_all

/-- **Agreement for either role.** A run that returns, with an honest pin, has a partner. -/
theorem exists_agree {w : World} {honest : Bytes ed25519PublicKeySize → Prop}
    (hreach : w.Reachable cr) (hunforgeable : w.Unforgeable honest)
    (hcollision : w.CollisionFree cr) (hauthentic : w.Authentic cr) {i : ℕ} {run : HandshakeRun}
    {connection : SecureConnection} (hrun : w i = some run) (hret : run.prog = .pure connection)
    (hhonest : honest run.params.peerIdentityPublicKey) :
    ∃ s, connection = (run.role.connection s.keys s.transcriptHash).withSequences 1 1 ∧
      ∃ j run', w j = some run' ∧ Agree cr run run' s := by
  obtain ⟨hlog, hfinished⟩ := World.runPoint_of_reachable hreach hrun
  obtain ⟨s, hderive, hconnection, key, nonce, sequence, ciphertext, plaintext, hopen⟩ :=
    hfinished connection hret
  have hof := hlog.isSessionOf hderive
  -- the peer's signature shows that its ephemeral key was drawn by a run
  obtain ⟨signature, hverified⟩ := hlog.verified_of_derive hderive
  obtain ⟨j₀, run₀, hrun₀, hsign⟩ := hunforgeable i run _ _ _ hrun hverified
    (by rw [hof.peerIdentity]; exact hhonest)
  obtain ⟨before, -, -, hsigns⟩ :=
    (World.runPoint_of_reachable hreach hrun₀).1.permits_of_mem hsign
  have hpeer : w.DrawnEphemeral cr (s.ephemeral run.role.other) :=
    ⟨j₀, run₀, hrun₀, hsigns.eq_of_signatureMessage.2⟩
  have hown : w.DrawnEphemeral cr (s.ephemeral run.role) := ⟨i, run, hrun, hof.ephemeral⟩
  have hdrawn : w.DrawnEphemeral cr s.clientEphemeral ∧ w.DrawnEphemeral cr s.serverEphemeral := by
    cases hrole : run.role <;> rw [hrole] at hown hpeer
    · exact ⟨hown, hpeer⟩
    · exact ⟨hpeer, hown⟩
  -- so the message that was opened comes from a run with the same session
  obtain ⟨j, run', s', hrun', hderive', hkeys, hseal⟩ :=
    hauthentic i run s hrun hderive hdrawn.1 hdrawn.2 _ _ _ _ _ hopen
  obtain rfl := hcollision.session_eq hreach ⟨i, run, hrun, hderive⟩ ⟨j, run', hrun', hderive'⟩
    hkeys
  have hlog' := (World.runPoint_of_reachable hreach hrun').1
  have hof' := hlog'.isSessionOf hderive'
  -- and its direction says that this run has the other role
  obtain ⟨-, -, sequence', transcriptHash', haad⟩ := hlog'.permits_of_mem hseal
  have hrole : run'.role = run.role.other :=
    (Role.direction_injective (makeAad_inj haad).1).symm
  have hback : run'.role.other = run.role := by rw [hrole]; cases run.role <;> rfl
  refine ⟨s', hconnection, j, run', hrun', hrole, ?_, ?_, hderive, hderive', hof, hof'⟩
  · rw [← hof'.identity, hrole, hof.peerIdentity]
  · rw [← hof'.peerIdentity, hback, hof.identity]

/-- **Mutual authentication with injective agreement.** In every reachable world whose primitives
were ideal: a client run that returns with an honest server pinned has a server run that agrees
with it on identities, ephemeral keys, nonces, transcript hash and key material; a server run that
returns with an honest client pinned has such a client run; and two runs of one role never agree
with the same run. -/
theorem mutual_authentication {w : World} {honest : Bytes ed25519PublicKeySize → Prop}
    (hreach : w.Reachable cr) (hunforgeable : w.Unforgeable honest)
    (hcollision : w.CollisionFree cr) (hfresh : w.Fresh cr) (hauthentic : w.Authentic cr) :
    (∀ i run connection, w i = some run → run.role = .client → run.prog = .pure connection →
      honest run.params.peerIdentityPublicKey →
      ∃ s, connection = (clientConnection s.keys s.transcriptHash).withSequences 1 1 ∧
        ∃ j run', w j = some run' ∧ run'.role = .server ∧ Agree cr run run' s) ∧
    (∀ i run connection, w i = some run → run.role = .server → run.prog = .pure connection →
      honest run.params.peerIdentityPublicKey →
      ∃ s, connection = (serverConnection s.keys s.transcriptHash).withSequences 1 1 ∧
        ∃ j run', w j = some run' ∧ run'.role = .client ∧ Agree cr run run' s) ∧
    ∀ i j k run₁ run₂ run' s₁ s₂, w i = some run₁ → w j = some run₂ → w k = some run' →
      run₁.role = run₂.role → Agree cr run₁ run' s₁ → Agree cr run₂ run' s₂ → i = j := by
  refine ⟨?_, ?_, ?_⟩
  · intro i run connection hrun hrole hret hhonest
    obtain ⟨s, hconnection, j, run', hrun', hagree⟩ :=
      exists_agree hreach hunforgeable hcollision hauthentic hrun hret hhonest
    rw [hrole] at hconnection
    exact ⟨s, hconnection, j, run', hrun', hagree.role.trans (by rw [hrole]; rfl), hagree⟩
  · intro i run connection hrun hrole hret hhonest
    obtain ⟨s, hconnection, j, run', hrun', hagree⟩ :=
      exists_agree hreach hunforgeable hcollision hauthentic hrun hret hhonest
    rw [hrole] at hconnection
    exact ⟨s, hconnection, j, run', hrun', hagree.role.trans (by rw [hrole]; rfl), hagree⟩
  · intro i j k run₁ run₂ run' s₁ s₂ h₁ h₂ h' hrole hagree₁ hagree₂
    -- the shared partner has one session, and its nonce at this end is both runs' own
    obtain rfl := (World.runPoint_of_reachable hreach h').1.derive_unique hagree₁.derived'
      hagree₂.derived'
    exact hfresh.nonce i j run₁ run₂ _ h₁ h₂ hagree₁.session.nonce
      (by rw [hrole]; exact hagree₂.session.nonce)

/-! ### A world with one handshake -/

/-- The bytes the server of the example sends once it has the client's hello. -/
def exampleServerBytes : List UInt8 :=
  ((server .transparent exampleServerParams).run
    [.ok ((client .transparent exampleClientParams).run []).sent]).sent

/-- A run that has gone through a feed. -/
def HandshakeRun.ofFeed (cr : Crypto) (role : Role) (params : Params) (feed : Feed Error) :
    HandshakeRun where
  role
  params
  prog := ofExcept ((role.program cr params).run feed).result
  log := ((role.program cr params).run feed).notes

theorem HandshakeRun.ofFeed_prog (cr : Crypto) (role : Role) (params : Params)
    (feed : Feed Error) :
    (HandshakeRun.ofFeed cr role params feed).prog
      = ofExcept ((role.program cr params).run feed).result := rfl

theorem HandshakeRun.ofFeed_steps (cr : Crypto) (role : Role) (params : Params)
    (feed : Feed Error) : Steps (role.program cr params)
      (HandshakeRun.ofFeed cr role params feed).log
      (HandshakeRun.ofFeed cr role params feed).prog := steps_run _ feed

theorem ofExcept_of_isOk {x : Except Error SecureConnection} (h : x.isOk = true)
    (default : SecureConnection) :
    (ofExcept x : Prog SecureConnection) = .pure (x.toOption.getD default) := by
  cases x with
  | error e => exact absurd h Bool.false_ne_true
  | ok connection => rfl

/-- The client's run of the example. -/
def exampleClientRun : HandshakeRun :=
  .ofFeed .transparent .client exampleClientParams [.ok exampleServerBytes]

/-- The server's run of the example. -/
def exampleServerRun : HandshakeRun :=
  .ofFeed .transparent .server exampleServerParams
    [.ok ((client .transparent exampleClientParams).run [.ok exampleServerBytes]).sent]

/-- The world of the example, with both runs at their end. -/
def exampleWorld : World :=
  Function.update (Function.update (fun _ => none) 0 (some exampleClientRun)) 1
    (some exampleServerRun)

/-- A run can be spawned and taken any number of operations further. -/
theorem World.Reachable.run {w : World} {i : ℕ} {params : Params} {events : List Event}
    {prog : Prog SecureConnection} (h : w.Reachable cr) (hi : w i = none)
    (hsteps : Steps (role.program cr params) events prog) :
    World.Reachable cr (Function.update w i (some ⟨role, params, prog, events⟩)) := by
  suffices hrun : ∀ {p q : Prog SecureConnection} {log more : List Event}, Steps p more q →
      World.Reachable cr (Function.update w i (some ⟨role, params, p, log⟩)) →
      World.Reachable cr (Function.update w i (some ⟨role, params, q, log ++ more⟩)) from
    hrun hsteps (h.tail (.spawn hi))
  intro p q log more hsteps
  induction hsteps generalizing log with
  | refl p => intro h; rwa [List.append_nil]
  | head hstep _ ih =>
    intro h
    rw [← List.append_assoc]
    refine ih (h.tail ?_)
    have hact : World.Step cr _ _ :=
      .act (Function.update_self i (some ⟨role, params, _, log⟩) w) hstep
    rwa [Function.update_idem] at hact

theorem exampleWorld_reachable : exampleWorld.Reachable .transparent :=
  .run (.run .refl rfl (steps_run (client .transparent exampleClientParams) _)) rfl
    (steps_run (server .transparent exampleServerParams) _)

theorem exampleWorld_eq {i : ℕ} {run : HandshakeRun} (h : exampleWorld i = some run) :
    (i = 0 ∧ run = exampleClientRun) ∨ (i = 1 ∧ run = exampleServerRun) := by
  rcases eq_or_ne i 1 with rfl | h1
  · exact Or.inr ⟨rfl, (Option.some.inj h).symm⟩
  rcases eq_or_ne i 0 with rfl | h0
  · exact Or.inl ⟨rfl, (Option.some.inj h).symm⟩
  rw [exampleWorld, Function.update_of_ne h1, Function.update_of_ne h0] at h
  exact absurd h nofun

/-- The assumptions, for one call made in the example: a verified message was signed, an opened one
was sealed, and a derived session is the one both runs have. -/
def exampleCheck (event : Event) : Bool :=
  match event with
  | .verified identity message _ =>
    exampleClientRun.log.contains (.sign identity message)
      || exampleServerRun.log.contains (.sign identity message)
  | .decrypt key nonce aad ciphertext (some plaintext) =>
    exampleClientRun.log.contains (.encrypt key nonce aad plaintext (some ciphertext))
      || exampleServerRun.log.contains (.encrypt key nonce aad plaintext (some ciphertext))
  | .derive s =>
    exampleClientRun.log.contains (.derive s) && exampleServerRun.log.contains (.derive s)
  | _ => true

theorem exampleCheck_of_mem {i : ℕ} {run : HandshakeRun} {event : Event}
    (h : exampleWorld i = some run) (he : event ∈ run.log) : exampleCheck event = true := by
  have hall : (exampleClientRun.log ++ exampleServerRun.log).all exampleCheck = true := by
    decide +kernel
  refine List.all_eq_true.mp hall event (List.mem_append.mpr ?_)
  rcases exampleWorld_eq h with ⟨-, rfl⟩ | ⟨-, rfl⟩
  · exact Or.inl he
  · exact Or.inr he

theorem exampleWorld_derived {i : ℕ} {run : HandshakeRun} (h : exampleWorld i = some run)
    {s : Session} (he : Event.derive s ∈ run.log) :
    Event.derive s ∈ exampleClientRun.log ∧ Event.derive s ∈ exampleServerRun.log := by
  have hcheck := exampleCheck_of_mem h he
  rwa [exampleCheck, Bool.and_eq_true, List.contains_iff_mem, List.contains_iff_mem] at hcheck

theorem exampleWorld_derived_unique (hs : exampleWorld.Derived s) (hs' : exampleWorld.Derived s') :
    s = s' := by
  obtain ⟨i, run, hrun, hmem⟩ := hs
  obtain ⟨i', run', hrun', hmem'⟩ := hs'
  exact (World.runPoint_of_reachable exampleWorld_reachable
    (show exampleWorld 0 = some exampleClientRun from rfl)).1.derive_unique
      (exampleWorld_derived hrun hmem).1 (exampleWorld_derived hrun' hmem').1

theorem exampleWorld_of_mem_or {event : Event}
    (h : event ∈ exampleClientRun.log ∨ event ∈ exampleServerRun.log) :
    ∃ i run, exampleWorld i = some run ∧ event ∈ run.log :=
  h.elim (fun h => ⟨0, _, rfl, h⟩) fun h => ⟨1, _, rfl, h⟩

theorem exampleWorld_unforgeable : exampleWorld.Unforgeable fun _ => True := by
  intro i run identity message signature hrun hmem _
  have hcheck := exampleCheck_of_mem hrun hmem
  rw [exampleCheck, Bool.or_eq_true, List.contains_iff_mem, List.contains_iff_mem] at hcheck
  exact exampleWorld_of_mem_or hcheck

theorem exampleWorld_collisionFree : exampleWorld.CollisionFree .transparent where
  sha256 s s' hs hs' _ := by rw [exampleWorld_derived_unique hs hs']
  hkdf s s' hs hs' _ := by rw [exampleWorld_derived_unique hs hs']; exact ⟨rfl, rfl⟩

theorem exampleWorld_fresh : exampleWorld.Fresh .transparent where
  nonce i j run run' nonce hi hj h h' := by
    rcases exampleWorld_eq hi with ⟨rfl, rfl⟩ | ⟨rfl, rfl⟩ <;>
      rcases exampleWorld_eq hj with ⟨rfl, rfl⟩ | ⟨rfl, rfl⟩ <;>
      first | rfl | exact absurd (h.trans h'.symm) (by decide)
  ephemeral i j run run' hi hj h := by
    rcases exampleWorld_eq hi with ⟨rfl, rfl⟩ | ⟨rfl, rfl⟩ <;>
      rcases exampleWorld_eq hj with ⟨rfl, rfl⟩ | ⟨rfl, rfl⟩ <;>
      first | rfl | exact absurd h (by decide)

theorem exampleWorld_authentic : exampleWorld.Authentic .transparent := by
  intro i run s hrun hderive _ _ key nonce aad ciphertext plaintext hmem
  have hcheck := exampleCheck_of_mem hrun hmem
  rw [exampleCheck, Bool.or_eq_true, List.contains_iff_mem, List.contains_iff_mem] at hcheck
  obtain ⟨hclient, hserver⟩ := exampleWorld_derived hrun hderive
  rcases hcheck with h | h
  · exact ⟨0, _, s, rfl, hclient, rfl, h⟩
  · exact ⟨1, _, s, rfl, hserver, rfl, h⟩

/-- Authentication in a world where a client and a server have both returned. -/
theorem mutual_authentication_example :
    ((∃ c, exampleClientRun.prog = .pure c) ∧ ∃ c, exampleServerRun.prog = .pure c) ∧
    (∀ i run connection, exampleWorld i = some run → run.role = .client →
      run.prog = .pure connection → True →
      ∃ s, connection = (clientConnection s.keys s.transcriptHash).withSequences 1 1 ∧
        ∃ j run', exampleWorld j = some run' ∧ run'.role = .server ∧
          Agree .transparent run run' s) ∧
    (∀ i run connection, exampleWorld i = some run → run.role = .server →
      run.prog = .pure connection → True →
      ∃ s, connection = (serverConnection s.keys s.transcriptHash).withSequences 1 1 ∧
        ∃ j run', exampleWorld j = some run' ∧ run'.role = .client ∧
          Agree .transparent run run' s) ∧
    ∀ i j k run₁ run₂ run' s₁ s₂, exampleWorld i = some run₁ → exampleWorld j = some run₂ →
      exampleWorld k = some run' → run₁.role = run₂.role → Agree .transparent run₁ run' s₁ →
      Agree .transparent run₂ run' s₂ → i = j := by
  refine ⟨⟨?_, ?_⟩, mutual_authentication exampleWorld_reachable exampleWorld_unforgeable
    exampleWorld_collisionFree exampleWorld_fresh exampleWorld_authentic⟩
  · rw [exampleClientRun, HandshakeRun.ofFeed_prog]
    exact ⟨_, ofExcept_of_isOk (by decide +kernel) (exampleClient 0 0)⟩
  · rw [exampleServerRun, HandshakeRun.ofFeed_prog]
    exact ⟨_, ofExcept_of_isOk (by decide +kernel) (exampleClient 0 0)⟩

end Security

end Taunicorn
