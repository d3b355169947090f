import Taunicorn.Security.Settlement
import Taunicorn.Transport.Calm

/-!
# A handshake and a dialogue

The whole of the secure layer on the whole of the transport: two tasks on the two ends of a link,
each of which runs its handshake and then takes its turns in a dialogue of messages, over sessions
that nobody else uses. A dialogue says who speaks next; what the listener hears is up to the bytes.

Both directions of a session are used in turn here, and each of them counts for itself. A run that
nothing disturbs ends with everything heard. A run that is disturbed may end anywhere, but a side
that has gone through its part has heard exactly what was said to it.

## Main results

* `converse_follows` — a dialogue over two sessions that match is a script of both sides
* `handshake_over_tasks` — whoever returns a session, on whatever transport, returns the honest one
* `dialogue_over_tasks`, `dialogue_settles` — what is heard, and that it is
-/

namespace Taunicorn

namespace Security

open StreamProg Transport

variable {cr : Crypto} {side : Side}

/-! ### Dialogues -/

/-- What a side does in a turn. -/
inductive Turn where
  | say (message : List UInt8)
  | listen
  deriving DecidableEq, Repr

/-- One side's part of a dialogue, in which every message has its speaker. -/
def partOf (side : Side) (dialogue : List (Side × List UInt8)) : List Turn :=
  dialogue.map fun turn => if turn.1 = side then .say turn.2 else .listen

/-- What a side is told in a dialogue. -/
def told (side : Side) (dialogue : List (Side × List UInt8)) : List (List UInt8) :=
  (dialogue.filter fun turn => turn.1 ≠ side).map Prod.snd

/-- Take one's turns over a session, and return what was heard. -/
def converse (cr : Crypto) : SecureConnection → List Turn → Prog (List (List UInt8))
  | _, [] => .pure []
  | c, .say message :: turns => do
    let c ← c.send cr message
    converse cr c turns
  | c, .listen :: turns => do
    let (message, c) ← c.receive cr
    let later ← converse cr c turns
    return message :: later

/-- A handshake, and then a part of a dialogue. -/
def attend (cr : Crypto) (handshake : Prog SecureConnection) (turns : List Turn) :
    Prog (List (List UInt8)) := do
  let c ← handshake
  converse cr c turns

theorem converse_endFails (c : SecureConnection) (turns : List Turn) :
    (converse cr c turns).EndFails := by
  induction turns generalizing c with
  | nil => trivial
  | cons turn turns ih =>
    cases turn with
    | say message => exact (c.send_endFails message).bind fun c => ih c
    | listen => exact c.receive_endFails.bind fun r => (ih r.2).bind fun _ => trivial

/-! ### Sessions that match -/

/-- Each side sends in the state in which the other receives, under one transcript. -/
structure Matching (conn : Side → SecureConnection) : Prop where
  states : ∀ side, (conn side).sendState = (conn side.other).receiveState
  transcripts : ∀ side, (conn side).transcriptHash = (conn side.other).transcriptHash

/-- The sessions after a message of one side. -/
def advance (conn : Side → SecureConnection) (speaker : Side) (next : UInt64) (d : Side) :
    SecureConnection :=
  if d = speaker then (conn d).withSequences (conn d).receiveState.sequence next
  else (conn d).withSequences next (conn d).sendState.sequence

theorem Matching.advance {conn : Side → SecureConnection} (h : Matching conn) (speaker : Side)
    (next : UInt64) : Matching (advance conn speaker next) := by
  have hne := speaker.other_ne
  refine ⟨fun d => ?_, fun d => ?_⟩
  all_goals rcases speaker.eq_or_eq_other d with rfl | rfl
  · simp only [Security.advance, if_true, if_neg hne, SecureConnection.withSequences, h.states d]
  · simp only [Security.advance, if_true, if_neg hne, SecureConnection.withSequences,
      Side.other_other, h.states speaker.other]
  · simp only [Security.advance, if_true, if_neg hne, SecureConnection.withSequences]
    exact h.transcripts d
  · simp only [Security.advance, if_true, if_neg hne, SecureConnection.withSequences,
      Side.other_other]
    exact (h.transcripts speaker).symm

variable {dialogue : List (Side × List UInt8)} {speaker : Side} {message : List UInt8}

theorem told_cons_speaker :
    told speaker ((speaker, message) :: dialogue) = told speaker dialogue := by
  simp [told]

theorem told_cons_other :
    told speaker.other ((speaker, message) :: dialogue)
      = message :: told speaker.other dialogue := by
  simp [told, speaker.other_ne.symm]

/-- **A dialogue is a script.** -/
theorem converse_follows (haead : cr.AeadCorrect) {conn : Side → SecureConnection}
    (hmatch : Matching conn) (hlen : ∀ turn ∈ dialogue, turn.2.length ≤ maxPlaintextSize)
    (hcount : ∀ side, (conn side).sendState.sequence.toNat
      + (told side.other dialogue).length < 2 ^ 64) :
    ∃ script, ∀ side, Follows side (converse cr (conn side) (partOf side dialogue)) script
      (told side dialogue) := by
  induction dialogue generalizing conn with
  | nil => exact ⟨[], fun side => .pure _⟩
  | cons turn dialogue ih =>
    obtain ⟨speaker, message⟩ := turn
    have hne := speaker.other_ne
    have hroom := hcount speaker
    rw [told_cons_other, List.length_cons] at hroom
    obtain ⟨bytes, hframe⟩ := exists_isFrameOf haead (conn speaker).transcriptHash
      (conn speaker).sendState (hlen _ List.mem_cons_self)
    cases hnext : checkedSucc (conn speaker).sendState.sequence with
    | none =>
      have := checkedSucc_eq_none_iff.mp hnext
      omega
    | some next =>
      have hval := checkedSucc_eq_some_iff.mp hnext
      have hlater : ∀ d, (advance conn speaker next d).sendState.sequence.toNat
          + (told d.other dialogue).length < 2 ^ 64 := by
        intro d
        have hd := hcount d
        rcases speaker.eq_or_eq_other d with rfl | rfl
        · simp only [advance, if_true, SecureConnection.withSequences]
          omega
        · rw [Side.other_other, told_cons_speaker] at hd
          simp only [advance, if_neg hne, SecureConnection.withSequences, Side.other_other]
          exact hd
      obtain ⟨script, hscript⟩ := ih (hmatch.advance speaker next)
        (fun turn hturn => hlen turn (List.mem_cons_of_mem _ hturn)) hlater
      refine ⟨bytes.map (Prod.mk speaker) ++ script, fun side => ?_⟩
      have hfollows := hscript side
      rcases speaker.eq_or_eq_other side with rfl | rfl
      · rw [told_cons_speaker]
        simp only [partOf, List.map_cons, if_true, converse]
        rw [advance, if_pos rfl] at hfollows
        exact follows_send hframe hnext hfollows
      · rw [told_cons_other]
        simp only [partOf, List.map_cons, if_neg hne.symm, converse]
        rw [advance, if_neg hne] at hfollows
        rw [hmatch.transcripts, hmatch.states] at hframe
        rw [hmatch.states] at hnext
        have hreceive : Follows speaker.other ((conn speaker.other).receive cr >>= fun r =>
            converse cr r.2 (partOf speaker.other dialogue) >>= fun later => .pure (r.1 :: later))
            (bytes.map (Prod.mk speaker.other.other) ++ script)
            (message :: told speaker.other dialogue) :=
          follows_receive haead hframe hnext (hfollows.map (List.cons message))
        rw [Side.other_other] at hreceive
        exact hreceive

/-! ### Over two tasks -/

variable {c s : Params} {clientNonce serverNonce : Bytes handshakeNonceSize} {κ : Type}
  [DecidableEq κ] {t : Tasks κ Event (List (List UInt8))}

/-- The sessions of an honest handshake, by side. -/
def honestSessions (cr : Crypto) (c s : Params)
    (clientNonce serverNonce : Bytes handshakeNonceSize) : Side → SecureConnection
  | .left => honestClient cr c s clientNonce serverNonce
  | .right => honestServer cr c s clientNonce serverNonce

theorem honestSessions_matching :
    Matching (honestSessions cr c s clientNonce serverNonce) where
  states side := by cases side <;> rfl
  transcripts side := by cases side <;> rfl

/-! The primitives do what they are for, the client's signature is not taken for one under the
server's identity, and the messages of the dialogue fit. -/

section

variable (hsign : cr.SignCorrect) (haead : cr.AeadCorrect)
  (hdh : cr.diffieHellman s.ephemeralPrivate (cr.x25519Public c.ephemeralPrivate)
    = cr.diffieHellman c.ephemeralPrivate (cr.x25519Public s.ephemeralPrivate))
  (hbinds : ∀ nonce, cr.Binds (cr.verifyingKey c.identityPrivateKey)
    {(clientSignatureMessage (cr.x25519Public c.ephemeralPrivate)
        (cr.verifyingKey c.identityPrivateKey) nonce c.peerIdentityPublicKey,
      (clientHelloOf cr c nonce).signature)}
    {clientSignatureMessage (cr.x25519Public c.ephemeralPrivate)
      (cr.verifyingKey c.identityPrivateKey) nonce (cr.verifyingKey s.identityPrivateKey)})
  (hboth : Reciprocal cr c s clientNonce serverNonce)
  (hlen : ∀ turn ∈ dialogue, turn.2.length ≤ maxPlaintextSize)
  (hcount : ∀ side, (told side dialogue).length + 1 < 2 ^ 64)

include hsign haead hdh hboth hlen hcount in
/-- **A handshake and a dialogue are a script.** -/
theorem attend_follows :
    ∃ script, Follows .left (attend cr (client cr c) (partOf .left dialogue)) script
        (told .left dialogue) ∧
      Follows .right (attend cr (server cr s) (partOf .right dialogue)) script
        (told .right dialogue) := by
  obtain ⟨hello₁, h₁⟩ := exists_hello clientHelloType (honestClientHello cr c s clientNonce)
  obtain ⟨hello₂, h₂⟩ := exists_hello serverHelloType
    (honestServerHello cr c s clientNonce serverNonce)
  obtain ⟨finished₁, h₃⟩ := exists_isFrameOf haead
    (honestTranscriptHash cr c s clientNonce serverNonce)
    (clientConnection (honestKeys cr c s clientNonce serverNonce)
      (honestTranscriptHash cr c s clientNonce serverNonce)).receiveState
    (show serverFinished.length ≤ maxPlaintextSize by decide)
  obtain ⟨finished₂, h₄⟩ := exists_isFrameOf haead
    (honestTranscriptHash cr c s clientNonce serverNonce)
    (clientConnection (honestKeys cr c s clientNonce serverNonce)
      (honestTranscriptHash cr c s clientNonce serverNonce)).sendState
    (show clientFinished.length ≤ maxPlaintextSize by decide)
  have hmatching : Matching (honestSessions cr c s clientNonce serverNonce) :=
    honestSessions_matching
  obtain ⟨script, hscript⟩ := converse_follows haead hmatching hlen fun side => by
    have hroom := hcount side.other
    cases side <;> exact Nat.add_comm _ 1 ▸ hroom
  exact ⟨_, client_follows_then hsign haead hboth h₁ h₂ h₃ h₄ (hscript .left),
    server_follows_then hsign haead hdh hboth h₁ h₂ h₃ h₄ (hscript .right)⟩

theorem attend_endFails {handshake : Prog SecureConnection} (h : handshake.EndFails)
    (turns : List Turn) : (attend cr handshake turns).EndFails :=
  h.bind fun c => converse_endFails c turns

include hsign haead hdh hbinds hlen hcount in
/-- **Whoever goes through a dialogue** has heard what was said, whatever breaks and whenever. -/
theorem attended_under_faults
    {state : Duplex Error Event (List (List UInt8)) (List (List UInt8))}
    (hreach : Relation.ReflTransGen Duplex.Lossy
      (.start (attend cr (client cr c) (partOf .left dialogue))
        (attend cr (server cr s) (partOf .right dialogue))) state) :
    (∀ heard, state.left = .pure heard → heard = told .left dialogue ∧
      ∃ clientNonce serverNonce, Reciprocal cr c s clientNonce serverNonce) ∧
    (∀ heard, state.right = .pure heard → heard = told .right dialogue ∧
      ∃ clientNonce serverNonce, Reciprocal cr c s clientNonce serverNonce) := by
  have hends : (Duplex.start (attend cr (client cr c) (partOf .left dialogue))
      (attend cr (server cr s) (partOf .right dialogue))).EndFails :=
    ⟨attend_endFails (client_endFails cr c) _, attend_endFails (server_endFails cr s) _⟩
  by_cases hboth : ∃ clientNonce serverNonce, Reciprocal cr c s clientNonce serverNonce
  · obtain ⟨clientNonce, serverNonce, hreciprocal⟩ := id hboth
    obtain ⟨script, hclient, hserver⟩ := attend_follows hsign haead hdh hreciprocal hlen hcount
    obtain ⟨hleft, hright⟩ := Duplex.returned_of_lossy hclient.plays hserver.plays trivial trivial
      hends hreach
    exact ⟨fun heard h => ⟨(StreamProg.pure.inj (hleft heard h)).symm, hboth⟩,
      fun heard h => ⟨(StreamProg.pure.inj (hright heard h)).symm, hboth⟩⟩
  · obtain ⟨script, q, r, hclient, hserver, hq, hr, hfail⟩ :=
      exists_parting hsign hdh hbinds hboth
    have hafter : ∀ {q : Prog SecureConnection} (turns : List Turn), q.Failed ∨ q.Waits →
        (attend cr q turns).Failed ∨ (attend cr q turns).Waits :=
      fun turns h => h.imp (fun h => h.bind _) fun h => h.bind _
    obtain ⟨hqstands, hqreturn⟩ := standing_of_failed_or_waits (hafter (partOf .left dialogue) hq)
    obtain ⟨hrstands, hrreturn⟩ := standing_of_failed_or_waits (hafter (partOf .right dialogue) hr)
    obtain ⟨hleft, hright⟩ := Duplex.returned_of_lossy (hclient.bind _) (hserver.bind _) hqstands
      hrstands hends hreach
    exact ⟨fun heard h => absurd (hleft heard h) (hqreturn heard),
      fun heard h => absurd (hright heard h) (hrreturn heard)⟩

/-- The two tasks of a dialogue. -/
def attendees (κ : Type) (cr : Crypto) (c s : Params) (dialogue : List (Side × List UInt8)) :
    Tasks κ Event (List (List UInt8)) :=
  .start (attend cr (client cr c) (partOf .left dialogue))
    (attend cr (server cr s) (partOf .right dialogue))

include hsign haead hdh hbinds hlen hcount in
/-- **A handshake and a dialogue over two connections.** Two tasks run them on the two ends of a
link, in any interleaving, with any cuts of the bytes, raw operations that fail, connections that
are paused, shut down, closed, abandoned or discarded. Still a side that has gone through its part
has heard exactly what the other side has said to it, message by message and in order, and only
where the two ends have pinned each other. -/
theorem dialogue_over_tasks
    (h : Runs Tasks.step Tasks.Ready (attendees κ cr c s dialogue) t) (side : Side)
    {heard : List (List UInt8)} (hended : (t.task side).prog = .pure heard) :
    heard = told side dialogue ∧
      ∃ clientNonce serverNonce, Reciprocal cr c s clientNonce serverNonce := by
  obtain ⟨hinv, hreach⟩ := TasksInv.of_runs (attend_endFails (client_endFails cr c) _).asks
    (attend_endFails (server_endFails cr s) _).asks h
  obtain ⟨hleft, hright⟩ := attended_under_faults hsign haead hdh hbinds hlen hcount hreach
  have hrest : (t.task side).rest (t.link.core side) = .pure heard :=
    (hinv.rest_of_ended (by rw [hended]; rfl)).trans hended
  cases side with
  | left => exact hleft heard hrest
  | right => exact hright heard hrest

include hsign haead hdh hboth hlen hcount in
/-- **And if nothing disturbs it, everything is heard**: every calm run of two ends that have pinned
each other ends, and none ends before both have gone through the dialogue. -/
theorem dialogue_settles
    (h : Relation.ReflTransGen Tasks.CalmStep (attendees κ cr c s dialogue) t) :
    Acc (fun t' t => Tasks.CalmStep t t') t ∧
      ((∀ side, (t.task side).prog = .pure (told side dialogue)) ∨ ∃ t', Tasks.CalmStep t t') := by
  obtain ⟨script, hclient, hserver⟩ := attend_follows hsign haead hdh hboth hlen hcount
  obtain ⟨hcalm, hfollows⟩ := TasksCalm.of_steps (attend_endFails (client_endFails cr c) _).asks
    (attend_endFails (server_endFails cr s) _).asks hclient hserver h
  refine ⟨hcalm.acc, (hcalm.returned_or_step hfollows).imp_left fun ⟨hl, hr⟩ side => ?_⟩
  cases side with
  | left => exact hl
  | right => exact hr

include hsign haead hdh hbinds in
/-- **A handshake over two connections**, under the same conditions: a side that has a session has
the one of the undisturbed handshake. So two sessions match. -/
theorem handshake_over_tasks {t : Tasks κ Event SecureConnection}
    (h : Runs Tasks.step Tasks.Ready (.start (client cr c) (server cr s)) t) (side : Side)
    {conn : SecureConnection} (hended : (t.task side).prog = .pure conn) :
    ∃ clientNonce serverNonce, Reciprocal cr c s clientNonce serverNonce ∧
      conn = honestSessions cr c s clientNonce serverNonce side := by
  obtain ⟨hinv, hreach⟩ :=
    TasksInv.of_runs (client_endFails cr c).asks (server_endFails cr s).asks h
  obtain ⟨hleft, hright⟩ := handshake_under_faults hsign haead hdh hbinds hreach
  have hrest : (t.task side).rest (t.link.core side) = .pure conn :=
    (hinv.rest_of_ended (by rw [hended]; rfl)).trans hended
  cases side with
  | left => exact hleft conn hrest
  | right => exact hright conn hrest

end

/-! ### A question and an answer -/

/-- The client asks, and the server answers. -/
def exampleDialogue : List (Side × List UInt8) := [(.left, [1, 2]), (.right, [3])]

theorem exampleDialogue_fits : (∀ turn ∈ exampleDialogue, turn.2.length ≤ maxPlaintextSize) ∧
    ∀ side, (told side exampleDialogue).length + 1 < 2 ^ 64 :=
  ⟨by decide, fun side => by cases side <;> decide⟩

theorem example_reciprocal : Reciprocal .transparent exampleClientParams exampleServerParams
    ⟨List.replicate 32 5, rfl⟩ ⟨List.replicate 32 6, rfl⟩ :=
  ⟨rfl, rfl, rfl, rfl, by decide⟩

theorem dialogue_settles_answered :
    ∃ t : Tasks Empty Event (List (List UInt8)),
      Relation.ReflTransGen Tasks.CalmStep (attendees Empty .transparent exampleClientParams
        exampleServerParams exampleDialogue) t ∧
      ∀ side, (t.task side).prog = .pure (told side exampleDialogue) := by
  have hsettles := fun (t : Tasks Empty Event (List (List UInt8))) hreach =>
    @dialogue_settles .transparent exampleDialogue exampleClientParams exampleServerParams _ _
      Empty _ t Crypto.transparent_signCorrect Crypto.transparent_aeadCorrect (by decide)
      example_reciprocal exampleDialogue_fits.1 exampleDialogue_fits.2 hreach
  exact exists_end_of_acc (hsettles _ .refl).1 fun t hreach => (hsettles t hreach).2

theorem dialogue_over_tasks_answered :
    ∃ t : Tasks Empty Event (List (List UInt8)), ∃ heard,
      (t.task .left).prog = .pure heard ∧ heard = [[3]] := by
  obtain ⟨script, hclient, hserver⟩ := attend_follows Crypto.transparent_signCorrect
    Crypto.transparent_aeadCorrect (by decide) example_reciprocal exampleDialogue_fits.1
    exampleDialogue_fits.2
  obtain ⟨t, hreach, hleft, -⟩ : ∃ t : Tasks Empty Event (List (List UInt8)), _ :=
    exists_returned_of_calm (attend_endFails (client_endFails _ _) _).asks
      (attend_endFails (server_endFails _ _) _).asks hclient hserver
  obtain ⟨hheard, -⟩ := @dialogue_over_tasks .transparent exampleDialogue exampleClientParams
    exampleServerParams Empty _ t Crypto.transparent_signCorrect Crypto.transparent_aeadCorrect
    (by decide) (fun nonce => binds_self) exampleDialogue_fits.1 exampleDialogue_fits.2
    (runs_of_calm hreach) .left _ hleft
  exact ⟨t, _, hleft, hheard⟩

theorem handshake_over_tasks_returned :
    ∃ t : Tasks Empty Event SecureConnection, ∃ conn clientNonce serverNonce,
      (t.task .right).prog = .pure conn ∧
      conn = honestSessions .transparent exampleClientParams exampleServerParams clientNonce
        serverNonce .right := by
  obtain ⟨script, hclient, hserver⟩ := example_reciprocal.follows Crypto.transparent_signCorrect
    Crypto.transparent_aeadCorrect (by decide)
  obtain ⟨t, hreach, -, hright⟩ : ∃ t : Tasks Empty Event SecureConnection, _ :=
    exists_returned_of_calm (client_endFails _ _).asks (server_endFails _ _).asks hclient hserver
  obtain ⟨clientNonce, serverNonce, -, hconn⟩ := @handshake_over_tasks .transparent
    exampleClientParams exampleServerParams Empty _ Crypto.transparent_signCorrect
    Crypto.transparent_aeadCorrect (by decide) (fun nonce => binds_self) t (runs_of_calm hreach)
    .right _ hright
  exact ⟨t, _, clientNonce, serverNonce, hright, hconn⟩

end Security

end Taunicorn
