import Taunicorn.Security.SecureConnection

/-!
# Integrity of the receive stream

One end receives from a byte stream that an attacker writes, cuts and breaks as it likes. Under
an ideal AEAD the plaintexts it returns are, in order, the first ones its peer passed to `send`.

## Who can have sealed an accepted frame

An accepted frame was sealed under the receiver's associated data, and these determine direction,
sequence number and transcript. The transcript rules out every other session; the direction rules
out the receiver's own frames, reflected; and what remains is the peer, under the number the
receiver expects. Keys and nonce prefixes play no part, so nothing is assumed about them.

## What the peer may do

The peer's calls of `send` come in the order in which they hold the send state, with any outcome:
a call may return, fail, or be dropped while it waits for the transport. A call that fails or is
dropped leaves the counter, so the one assumption about the peer is that it seals no number
twice. Then the message under number `s + j` is the `j`-th one it was given.

## Main results

* `SendCalls.exists_of_encrypt` — what a run of `send` calls has sealed
* `receiveCalls_prefix` — integrity
-/

namespace Taunicorn

namespace Security

open StreamProg

variable (cr : Crypto) (transcriptHash : Bytes transcriptHashSize)

/-! ### Runs of `send` -/

/-- The state after a call of `send` that ends at `q`: the one it returned, or the old one. -/
def stateAfter (state : DirectionState) : Prog DirectionState → DirectionState
  | .pure state' => state'
  | _ => state

/-- Successive calls of `send` with arbitrary outcomes: the plaintexts given to them, and the
primitives they called. A call ends where it has returned, has failed, or is dropped while it
waits. -/
inductive SendCalls : DirectionState → List (List UInt8) → List Event → Prop
  | nil (state : DirectionState) : SendCalls state [] []
  | call {state : DirectionState} {plaintext : List UInt8} {rest : List (List UInt8)}
      {events more : List Event} {q : Prog DirectionState} :
      Steps (send cr transcriptHash state plaintext) events q → q.Resting →
      SendCalls (stateAfter state q) rest more →
      SendCalls state (plaintext :: rest) (events ++ more)

/-- The nonces passed to the AEAD's `encrypt`. -/
def encryptNonces : List Event → List (Bytes aeadNonceSize) :=
  List.filterMap fun
    | .encrypt _ nonce _ _ _ => some nonce
    | _ => none

variable {cr transcriptHash} {state state' : DirectionState}

@[simp] theorem encryptNonces_append (events more : List Event) :
    encryptNonces (events ++ more) = encryptNonces events ++ encryptNonces more :=
  List.filterMap_append

/-- Where one call of `send` can stand: it has failed with the counter exhausted; it is about to
seal; or it has sealed exactly once, and if it has returned it has advanced the counter. -/
def SendPoint (cr : Crypto) (transcriptHash : Bytes transcriptHashSize) (state : DirectionState)
    (plaintext : List UInt8) (log : List Event) (q : Prog DirectionState) : Prop :=
  (log = [] ∧ checkedSucc state.sequence = none ∧ ∃ e, q = .fail e) ∨
    (log = [] ∧ ¬ q.Resting) ∨
    (log = [sealEvent cr transcriptHash state plaintext] ∧
      ∃ next, checkedSucc state.sequence = some next ∧
        ∀ state', q = .pure state' → state' = { state with sequence := next })

theorem send_always (cr : Crypto) (transcriptHash : Bytes transcriptHashSize)
    (state : DirectionState) (plaintext : List UInt8) :
    (send cr transcriptHash state plaintext).Always
      (SendPoint cr transcriptHash state plaintext) [] := by
  cases hnext : checkedSucc state.sequence with
  | none =>
    rw [send, hnext]
    exact Or.inl ⟨rfl, hnext, _, rfl⟩
  | some next =>
    rw [send_eq hnext]
    -- behind the seal the log is that one event, and only the last statement returns
    have hsealed : ∀ q : Prog DirectionState,
        (∀ state', q = .pure state' → state' = { state with sequence := next }) →
          SendPoint cr transcriptHash state plaintext
            [sealEvent cr transcriptHash state plaintext] q :=
      fun q hq => Or.inr (Or.inr ⟨rfl, next, hnext, hq⟩)
    have hfail : ∀ e, SendPoint cr transcriptHash state plaintext
        [sealEvent cr transcriptHash state plaintext] (.fail e) := fun e =>
      hsealed _ fun _ h => by cases h
    have hwait : ∀ q : Prog DirectionState, q.Suspended → SendPoint cr transcriptHash state
        plaintext [sealEvent cr transcriptHash state plaintext] q := by
      rintro q hq
      refine hsealed q ?_
      rintro state' rfl
      exact hq.elim
    refine ⟨Or.inr (Or.inl ⟨rfl, fun h => h⟩), ?_⟩
    refine Always.bind (okOrElse_silent _ _) hwait hfail fun ciphertext => ?_
    refine Always.bind (writeFrame_silent _) hwait hfail fun _ => ?_
    exact hsealed _ fun state' h => (StreamProg.pure.inj h).symm

/-- **One call.** At its end it has either failed with the counter exhausted and called nothing,
or sealed its plaintext under the next number. -/
theorem events_of_steps {plaintext : List UInt8} {events : List Event} {q : Prog DirectionState}
    (h : Steps (send cr transcriptHash state plaintext) events q) (hq : q.Resting) :
    (events = [] ∧ checkedSucc state.sequence = none ∧ stateAfter state q = state) ∨
      (events = [sealEvent cr transcriptHash state plaintext] ∧
        ∃ next, checkedSucc state.sequence = some next ∧
          (stateAfter state q = state ∨ stateAfter state q = { state with sequence := next })) := by
  rcases ((send_always cr transcriptHash state plaintext).steps h).here with
    ⟨hlog, hnone, e, rfl⟩ | ⟨-, hnot⟩ | ⟨hlog, next, hnext, hret⟩
  · exact Or.inl ⟨by simpa using hlog, hnone, rfl⟩
  · exact absurd hq hnot
  · refine Or.inr ⟨by simpa using hlog, next, hnext, ?_⟩
    cases q with
    | pure state' => exact Or.inr (hret state' rfl)
    | fail e => exact Or.inl rfl
    | receive max next => exact Or.inl rfl
    | send bytes next => exact Or.inl rfl
    | note event next => exact hq.elim

/-! ### Runs of `receive` -/

/-- Where one call of `receive` can stand: it has encrypted nothing, and if it has returned it has
advanced the counter. -/
def ReceivePoint (state : DirectionState) (log : List Event)
    (q : Prog (List UInt8 × DirectionState)) : Prop :=
  encryptNonces log = [] ∧ ∀ plaintext state', q = .pure (plaintext, state') →
    ∃ next, checkedSucc state.sequence = some next ∧ state' = { state with sequence := next }

theorem receive_always (cr : Crypto) (transcriptHash : Bytes transcriptHashSize)
    (state : DirectionState) :
    (receive cr transcriptHash state).Always (ReceivePoint state) [] := by
  have hfail : ∀ {log : List Event} (e : Error), encryptNonces log = [] →
      ReceivePoint state log (.fail e) := by
    intro log e hlog
    exact ⟨hlog, fun _ _ h => by cases h⟩
  have hwait : ∀ q : Prog (List UInt8 × DirectionState), q.Suspended →
      ReceivePoint state [] q := by
    intro q hq
    refine ⟨rfl, ?_⟩
    rintro plaintext state' rfl
    exact hq.elim
  refine Always.bind readFrame_silent hwait (fun e => hfail e rfl) fun frame => ?_
  rw [openFrame]
  refine Always.bind (silent_ofExcept _) hwait (fun e => hfail e rfl) fun parts => ?_
  dsimp only
  split_ifs
  · exact hfail _ rfl
  · rw [decrypt, note_bind]
    refine ⟨⟨rfl, fun _ _ h => by cases h⟩, ?_⟩
    generalize cr.decrypt state.cipher (makeNonce state.noncePrefix parts.1)
      (makeAad state.direction parts.1 transcriptHash) parts.2 = opened
    cases opened with
    | none => exact hfail _ rfl
    | some plaintext =>
      rw [okOrElse_some, pure_bind, List.nil_append]
      cases hnext : checkedSucc state.sequence with
      | none => exact hfail _ rfl
      | some next =>
        refine ⟨rfl, fun plaintext' state' hret => ⟨next, hnext, ?_⟩⟩
        exact (Prod.mk.inj (StreamProg.pure.inj hret)).2.symm

/-! ### What a run has sealed -/

/-- Whatever happens to the calls, everything they seal carries the direction and the transcript
of their session. -/
theorem SendCalls.aad_of_encrypt {plaintexts : List (List UInt8)} {events : List Event}
    (h : SendCalls cr transcriptHash state plaintexts events) {key nonce aad plaintext ciphertext}
    (he : Event.encrypt key nonce aad plaintext ciphertext ∈ events) :
    ∃ sequence, aad = makeAad state.direction (toBeBytes sequence) transcriptHash := by
  induction h with
  | nil state => simp at he
  | @call state plaintext' rest events more q hsteps hq _ ih =>
    have hdir : (stateAfter state q).direction = state.direction := by
      rcases events_of_steps hsteps hq with ⟨-, -, h⟩ | ⟨-, next, -, h | h⟩ <;> rw [h]
    rcases List.mem_append.mp he with he | he
    · rcases events_of_steps hsteps hq with ⟨rfl, -⟩ | ⟨rfl, -⟩
      · simp at he
      · simp only [sealEvent, List.mem_singleton, Event.encrypt.injEq] at he
        exact ⟨state.sequence, he.2.2.1⟩
    · rw [← hdir]; exact ih he

/-- A run that seals anything seals the number it starts from. -/
theorem SendCalls.first_nonce {plaintexts : List (List UInt8)} {events : List Event}
    (h : SendCalls cr transcriptHash state plaintexts events) :
    events = [] ∨ state.nonce ∈ encryptNonces events := by
  induction h with
  | nil state => exact Or.inl rfl
  | call hsteps hq _ ih =>
    rcases events_of_steps hsteps hq with ⟨rfl, -, hstate⟩ | ⟨rfl, -⟩
    · rw [hstate] at ih; simpa using ih
    · exact Or.inr (by simp [encryptNonces, sealEvent])

/-- A run that starts with the counter exhausted seals nothing. -/
theorem SendCalls.events_of_exhausted {plaintexts : List (List UInt8)} {events : List Event}
    (h : SendCalls cr transcriptHash state plaintexts events)
    (hnone : checkedSucc state.sequence = none) : events = [] := by
  induction h with
  | nil state => rfl
  | call hsteps hq _ ih =>
    rcases events_of_steps hsteps hq with ⟨rfl, -, hstate⟩ | ⟨-, next, hnext, -⟩
    · rw [hstate] at ih; simpa using ih hnone
    · rw [hnone] at hnext; exact absurd hnext nofun

/-- **What a run has sealed.** If it has sealed no nonce twice, then the message under the number
`j` places behind the first is the `j`-th plaintext. -/
theorem SendCalls.exists_of_encrypt {plaintexts : List (List UInt8)} {events : List Event}
    (h : SendCalls cr transcriptHash state plaintexts events)
    (honce : (encryptNonces events).Nodup) {key nonce aad plaintext ciphertext}
    (he : Event.encrypt key nonce aad plaintext ciphertext ∈ events) :
    ∃ j sequence, sequence.toNat = state.sequence.toNat + j ∧ plaintexts[j]? = some plaintext ∧
      aad = makeAad state.direction (toBeBytes sequence) transcriptHash := by
  induction h with
  | nil state => simp at he
  | @call state plaintext' rest events more q hsteps hq hrest ih =>
    rw [encryptNonces_append, List.nodup_append] at honce
    rcases events_of_steps hsteps hq with ⟨rfl, hnone, hstate⟩ | ⟨rfl, next, hnext, hstate⟩
    · -- the counter was exhausted, and stays so for all later calls
      rw [hstate] at hrest
      exact absurd he (by simp [hrest.events_of_exhausted hnone])
    · rcases List.mem_append.mp he with he | he
      · simp only [sealEvent, List.mem_singleton, Event.encrypt.injEq] at he
        exact ⟨0, state.sequence, rfl, by simp [he.2.2.2.1], he.2.2.1⟩
      · -- a later seal under a counter that did not move would repeat this one's nonce
        have hmoved : stateAfter state q = { state with sequence := next } := by
          refine hstate.resolve_left fun hsame => ?_
          rw [hsame] at hrest
          rcases hrest.first_nonce with rfl | hmem
          · simp at he
          · exact honce.2.2 _ (by simp [encryptNonces, sealEvent]) _ hmem rfl
        obtain ⟨j, sequence, hseq, hget, haad⟩ := ih honce.2.1 he
        rw [hmoved] at hseq haad
        have hval := checkedSucc_eq_some_iff.mp hnext
        exact ⟨j + 1, sequence, by rw [hseq, hval]; omega, by simpa using hget, haad⟩

/-! ### What `receive` accepts -/

/-- A successful `receive` has decrypted one ciphertext, under the next nonce and associated data
of its direction, and has advanced the counter. -/
theorem receive_ok {plaintext : List UInt8} {feed : Feed Error}
    (h : ((receive cr transcriptHash state).run feed).result = .ok (plaintext, state')) :
    ∃ ciphertext next, checkedSucc state.sequence = some next ∧
      state' = { state with sequence := next } ∧
      .decrypt state.cipher state.nonce (state.aad transcriptHash) ciphertext (some plaintext)
        ∈ ((receive cr transcriptHash state).run feed).notes := by
  rw [receive, run_bind, Run.andThen] at h ⊢
  cases hframe : (readFrame.run feed).result with
  | error e => simp [hframe] at h
  | ok frame =>
    simp only [hframe] at h ⊢
    obtain ⟨ciphertext, next, hnext, hstate, hrun⟩ := openFrame_ok h
    exact ⟨ciphertext, next, hnext, hstate, by simp [hrun]⟩

/-! ### Endpoints -/

/-- One end of one session: its connection as the handshake leaves it, and a run of its calls of
`send`. -/
structure Endpoint (cr : Crypto) where
  connection : SecureConnection
  plaintexts : List (List UInt8)
  events : List Event
  sends : SendCalls cr connection.transcriptHash connection.sendState plaintexts events

/-- An ideal AEAD: what decrypted was sealed, as that plaintext and under the same key, nonce and
associated data, by one of the endpoints. -/
def IdealAead {ι : Type} (endpoints : ι → Endpoint cr) (received : List Event) : Prop :=
  ∀ key nonce aad ciphertext plaintext,
    Event.decrypt key nonce aad ciphertext (some plaintext) ∈ received →
      ∃ i, Event.encrypt key nonce aad plaintext (some ciphertext) ∈ (endpoints i).events

section Session

variable {ι : Type} {endpoints : ι → Endpoint cr} {own peer : ι}

/-- **Only the peer.** Whoever sealed a frame under the associated data the receiver expects is
the peer, and the plaintext is the one it was given under that number. -/
theorem getElem?_of_accepted
    (hsession : (endpoints peer).connection.transcriptHash
      = (endpoints own).connection.transcriptHash)
    (hothers : ∀ i, i ≠ own → i ≠ peer →
      (endpoints i).connection.transcriptHash ≠ (endpoints own).connection.transcriptHash)
    (hdirection : (endpoints peer).connection.sendState.direction
      = (endpoints own).connection.receiveState.direction)
    (honce : (encryptNonces (endpoints peer).events).Nodup)
    (hstate : state.direction = (endpoints own).connection.receiveState.direction) {k : ℕ}
    (hseq : state.sequence.toNat = (endpoints peer).connection.sendState.sequence.toNat + k)
    {i : ι} {key nonce plaintext ciphertext}
    (hi : Event.encrypt key nonce (state.aad (endpoints own).connection.transcriptHash) plaintext
      ciphertext ∈ (endpoints i).events) :
    (endpoints peer).plaintexts[k]? = some plaintext := by
  obtain ⟨sequence, haad⟩ := (endpoints i).sends.aad_of_encrypt hi
  obtain ⟨hdir, -, hhash⟩ := makeAad_inj haad
  -- the direction excludes the receiver itself, the transcript every other session
  have hown : i ≠ own := by
    rintro rfl
    exact (endpoints i).connection.directions_ne (hdir.symm.trans hstate)
  obtain rfl : i = peer := by
    by_contra hpeer
    exact hothers i hown hpeer hhash.symm
  obtain ⟨j, sequence', hj, hget, haad'⟩ := (endpoints i).sends.exists_of_encrypt honce hi
  obtain ⟨-, hbytes, -⟩ := makeAad_inj haad'
  have hnum : state.sequence = sequence' := toBeBytes_injective hbytes
  obtain rfl : k = j := by rw [hnum] at hseq; omega
  exact hget

/-- **Integrity.** One endpoint receives from an arbitrary byte stream, cut and broken anywhere,
and goes on calling after errors. The peer has been given `k` messages ahead of the number the
receiver starts from. If the peer's transcript is the receiver's and no other endpoint's is, if
the peer sends in the direction the receiver expects and seals no number twice, and if the AEAD is
ideal, then the plaintexts received are, in order, the first of those the peer was given from the
`k`-th on. -/
theorem receiveCalls_prefix
    (hsession : (endpoints peer).connection.transcriptHash
      = (endpoints own).connection.transcriptHash)
    (hothers : ∀ i, i ≠ own → i ≠ peer →
      (endpoints i).connection.transcriptHash ≠ (endpoints own).connection.transcriptHash)
    (hdirection : (endpoints peer).connection.sendState.direction
      = (endpoints own).connection.receiveState.direction)
    (honce : (encryptNonces (endpoints peer).events).Nodup) (k : ℕ)
    (hseq : (endpoints own).connection.receiveState.sequence.toNat
      = (endpoints peer).connection.sendState.sequence.toNat + k)
    (n : ℕ) (feed : Feed Error)
    (hideal : IdealAead endpoints (receiveCalls cr (endpoints own).connection.transcriptHash n
      (endpoints own).connection.receiveState feed).events) :
    (receiveCalls cr (endpoints own).connection.transcriptHash n
        (endpoints own).connection.receiveState feed).results.filterMap Except.toOption
      <+: (endpoints peer).plaintexts.drop k := by
  -- along the calls the counter stands `k` places behind the peer's first number
  suffices h : ∀ (n k : ℕ) (state : DirectionState) (feed : Feed Error),
      state.direction = (endpoints own).connection.receiveState.direction →
      state.sequence.toNat = (endpoints peer).connection.sendState.sequence.toNat + k →
      IdealAead endpoints
        (receiveCalls cr (endpoints own).connection.transcriptHash n state feed).events →
      (receiveCalls cr (endpoints own).connection.transcriptHash n state feed).results.filterMap
        Except.toOption <+: (endpoints peer).plaintexts.drop k from
    h n k _ feed rfl hseq hideal
  clear! n k feed
  intro n
  induction n with
  | zero => intro k state feed _ _ _; exact List.nil_prefix
  | succ n ih =>
    intro k state feed hstate hseq hideal
    cases hcall :
      ((receive cr (endpoints own).connection.transcriptHash state).run feed).result with
    | error e =>
      simp only [receiveCalls, hcall] at hideal ⊢
      exact ih k state _ hstate hseq fun key nonce aad ciphertext plaintext h =>
        hideal key nonce aad ciphertext plaintext (List.mem_append_right _ h)
    | ok returned =>
      obtain ⟨plaintext, state'⟩ := returned
      obtain ⟨ciphertext, next, hnext, rfl, hdecrypt⟩ := receive_ok hcall
      simp only [receiveCalls, hcall] at hideal ⊢
      obtain ⟨i, hi⟩ := hideal _ _ _ _ _ (List.mem_append_left _ hdecrypt)
      have hget := getElem?_of_accepted hsession hothers hdirection honce hstate hseq hi
      have hnum := checkedSucc_eq_some_iff.mp hnext
      have hlater := ih (k + 1) { state with sequence := next } _ hstate
        (by rw [hnum, hseq]; omega) fun key nonce aad ciphertext plaintext h =>
          hideal key nonce aad ciphertext plaintext (List.mem_append_right _ h)
      obtain ⟨hlt, hat⟩ := List.getElem?_eq_some_iff.mp hget
      rw [List.drop_eq_getElem_cons hlt, hat]
      exact List.cons_prefix_cons.mpr ⟨rfl, hlater⟩

end Session

/-! ### A session under attack -/

variable (cr transcriptHash) in
/-- The primitives called by successive `send` calls over a transport that accepts every frame. -/
def sealAll (state : DirectionState) : List (List UInt8) → List Event
  | [] => []
  | plaintext :: rest =>
    let call := (send cr transcriptHash state plaintext).run []
    call.notes ++ sealAll (stateAfter state (ofExcept call.result)) rest

theorem sendCalls_sealAll (state : DirectionState) (plaintexts : List (List UInt8)) :
    SendCalls cr transcriptHash state plaintexts (sealAll cr transcriptHash state plaintexts) := by
  induction plaintexts generalizing state with
  | nil => exact .nil state
  | cons plaintext rest ih =>
    refine .call (steps_run _ []) ?_ (ih _)
    cases ((send cr transcriptHash state plaintext).run []).result <;> trivial

/-- The endpoint of a connection that sends some messages, all of them accepted. -/
def exampleEndpoint (cr : Crypto) (connection : SecureConnection)
    (plaintexts : List (List UInt8)) : Endpoint cr :=
  ⟨connection, plaintexts, _, sendCalls_sealAll connection.sendState plaintexts⟩

/-- The server, its client, and a client of another session. -/
def exampleEndpoints : Fin 3 → Endpoint .transparent
  | 0 => exampleEndpoint _ (exampleServer 1 1) [[1]]
  | 1 => exampleEndpoint _ (exampleClient 1 1) [[10], [20]]
  | 2 => exampleEndpoint _
    { exampleClient 1 1 with transcriptHash := ⟨List.replicate 32 8, rfl⟩ } [[30]]

/-- The frames of the messages of one endpoint. -/
def exampleFrame (i : Fin 3) (j : ℕ) : List UInt8 :=
  let endpoint := exampleEndpoints i
  ((send .transparent endpoint.connection.transcriptHash
    { endpoint.connection.sendState with sequence := 1 + j.toUInt64 }
    (endpoint.plaintexts.getD j [])).run []).sent

/-- What an attacker makes of the client's stream: the first frame, the first frame again, the
server's own frame, a failing read, and the second frame in two pieces. -/
def exampleFeed : Feed Error :=
  [.ok (exampleFrame 1 0 ++ exampleFrame 1 0), .ok (exampleFrame 0 0), .error (.io "reset"),
    .ok ((exampleFrame 1 1).take 7), .ok ((exampleFrame 1 1).drop 7)]

/-- What is opened has been sealed by the client. -/
def exampleSealed : Event → Bool
  | .decrypt key nonce aad ciphertext (some plaintext) =>
    .encrypt key nonce aad plaintext (some ciphertext) ∈ (exampleEndpoints 1).events
  | _ => true

theorem exampleFeed_idealAead :
    IdealAead exampleEndpoints (receiveCalls .transparent
      (exampleEndpoints 0).connection.transcriptHash 6
      (exampleEndpoints 0).connection.receiveState exampleFeed).events := by
  have hsealed : (receiveCalls .transparent (exampleEndpoints 0).connection.transcriptHash 6
      (exampleEndpoints 0).connection.receiveState exampleFeed).events.all exampleSealed
      = true := by
    decide
  exact fun key nonce aad ciphertext plaintext h =>
    ⟨1, of_decide_eq_true (List.all_eq_true.mp hsealed _ h)⟩

/-- Integrity of the server's stream, which the attacker has changed. -/
theorem receiveCalls_prefix_under_attack :
    (receiveCalls .transparent (exampleEndpoints 0).connection.transcriptHash 6
        (exampleEndpoints 0).connection.receiveState exampleFeed).results.filterMap
      Except.toOption <+: (exampleEndpoints 1).plaintexts.drop 0 :=
  receiveCalls_prefix (show (exampleEndpoints 1).connection.transcriptHash
      = (exampleEndpoints 0).connection.transcriptHash from rfl)
    (by decide) rfl (by decide) 0 rfl 6 exampleFeed exampleFeed_idealAead

example : (receiveCalls .transparent (exampleServer 1 1).transcriptHash 6
    (exampleServer 1 1).receiveState exampleFeed).results.filterMap Except.toOption
      = [[10], [20]] := by
  decide

end Security

end Taunicorn
