import Taunicorn.Security.Framing

/-!
# The encrypted message layer

`DirectionState`, `SecureConnection::send` and `SecureConnection::receive`.

Both calls change their direction's state in one place, the last statement before they return
`Ok`, so a call is a program that returns the new state and a call that fails leaves the old one.
The locks around the states belong to the concurrent model; here one call runs at a time.

A call of `send` under sequence number `n` seals `n`: it passes the nonce made of `n` to the AEAD,
whatever the transport does afterwards.

## Main results

* `send_eq`, `openFrame_encryptedFrame` — the two calls, evaluated
* `openFrame_ok` — what a successful `receive` has checked
* `receive_run_send` — a frame of the matching sender is received
-/

namespace Taunicorn

namespace Security

open StreamProg

/-- One direction of a session. -/
structure DirectionState where
  cipher : Bytes aeadKeySize
  direction : UInt8
  noncePrefix : Bytes noncePrefixSize
  sequence : UInt64
  deriving DecidableEq

/-- The nonce the direction uses for its next message. -/
def DirectionState.nonce (state : DirectionState) : Bytes aeadNonceSize :=
  makeNonce state.noncePrefix (toBeBytes state.sequence)

/-- The associated data of the direction's next message. -/
def DirectionState.aad (state : DirectionState) (transcriptHash : Bytes transcriptHashSize) :
    List UInt8 :=
  makeAad state.direction (toBeBytes state.sequence) transcriptHash

/-- `.ok_or_else(|| anyhow!(..))?`. -/
def okOrElse {α : Type} (x : Option α) (text : String) : Prog α :=
  match x with
  | some a => .pure a
  | none => .fail (.msg text)

@[simp] theorem okOrElse_some {α : Type} (a : α) (text : String) :
    okOrElse (some a) text = .pure a := rfl

@[simp] theorem okOrElse_none {α : Type} (text : String) :
    okOrElse (none : Option α) text = .fail (.msg text) := rfl

/-! ### The body of an encrypted frame -/

/-- Version, sequence number, ciphertext. -/
def encryptedFrame (sequenceBytes : Bytes sequenceSize) (ciphertext : List UInt8) : List UInt8 :=
  [version] ++ sequenceBytes.val ++ ciphertext

/-- Check the length and the version of an encrypted frame, and split it into its sequence bytes
and its ciphertext. The slice of eight bytes lies inside every frame of the least length. -/
def splitFrame (frame : List UInt8) : Except Error (Bytes sequenceSize × List UInt8) :=
  if h : frame.length < minEncryptedFrameSize then
    .error (.msg (s!"encrypted frame is too short: expected at least {minEncryptedFrameSize}, "
      ++ s!"received {frame.length}"))
  else
    let receivedVersion := frame.get ⟨0, Nat.lt_of_lt_of_le (by decide) (Nat.le_of_not_lt h)⟩
    if receivedVersion ≠ version then
      .error (.msg
        s!"unsupported secure protocol version: expected {version}, received {receivedVersion}")
    else
      .ok (⟨(frame.drop versionSize).take sequenceSize, by
          have hle : 25 ≤ frame.length := Nat.le_of_not_lt h
          rw [List.length_take, List.length_drop]
          exact Nat.min_eq_left (show 8 ≤ frame.length - 1 by omega)⟩,
        frame.drop encryptedFrameHeaderSize)

theorem okOrElse_silent {α : Type} (x : Option α) (text : String) :
    (okOrElse x text : Prog α).Silent := by
  cases x <;> trivial

variable (cr : Crypto) (transcriptHash : Bytes transcriptHashSize)

/-! ### Sending -/

/-- A call of the AEAD's `encrypt`. -/
def encrypt (key : Bytes aeadKeySize) (nonce : Bytes aeadNonceSize) (aad plaintext : List UInt8) :
    Prog (List UInt8) :=
  .note (.encrypt key nonce aad plaintext (cr.encrypt key nonce aad plaintext))
    (okOrElse (cr.encrypt key nonce aad plaintext) "message encryption failed")

/-- `SecureConnection::send`, with the direction's state as argument and result. -/
def send (state : DirectionState) (plaintext : List UInt8) : Prog DirectionState := do
  let nextSequence ←
    okOrElse (checkedSucc state.sequence) "secure session send sequence exhausted"
  let sequenceBytes := toBeBytes state.sequence
  let nonce := makeNonce state.noncePrefix sequenceBytes
  let aad := makeAad state.direction sequenceBytes transcriptHash
  let ciphertext ← encrypt cr state.cipher nonce aad plaintext
  writeFrame (encryptedFrame sequenceBytes ciphertext)
  return { state with sequence := nextSequence }

/-- The call of `encrypt` a `send` makes. -/
def sealEvent (state : DirectionState) (plaintext : List UInt8) : Event :=
  .encrypt state.cipher state.nonce (state.aad transcriptHash) plaintext
    (cr.encrypt state.cipher state.nonce (state.aad transcriptHash) plaintext)

/-- The length-prefixed frame a `send` hands over. -/
def IsFrameOf (state : DirectionState) (plaintext bytes : List UInt8) : Prop :=
  ∃ ciphertext, cr.encrypt state.cipher state.nonce (state.aad transcriptHash) plaintext
      = some ciphertext ∧
    frame (encryptedFrame (toBeBytes state.sequence) ciphertext) = .ok bytes

/-- Successive calls of `send`, each of them successful. -/
def sendAll (state : DirectionState) : List (List UInt8) → Prog DirectionState
  | [] => .pure state
  | plaintext :: rest => do
    let state ← send cr transcriptHash state plaintext
    sendAll state rest

/-! ### Receiving -/

/-- A call of the AEAD's `decrypt`. -/
def decrypt (key : Bytes aeadKeySize) (nonce : Bytes aeadNonceSize) (aad ciphertext : List UInt8) :
    Prog (List UInt8) :=
  .note (.decrypt key nonce aad ciphertext (cr.decrypt key nonce aad ciphertext))
    (okOrElse (cr.decrypt key nonce aad ciphertext) "message authentication failed")

/-- `SecureConnection::receive` behind its read of a frame. -/
def openFrame (state : DirectionState) (frame : List UInt8) :
    Prog (List UInt8 × DirectionState) := do
  let (sequenceBytes, ciphertext) ← ofExcept (splitFrame frame)
  let receivedSequence := fromBeBytes sequenceBytes
  if receivedSequence ≠ state.sequence then
    .fail (.msg
      s!"invalid message sequence: expected {state.sequence}, received {receivedSequence}")
  else
    let nonce := makeNonce state.noncePrefix sequenceBytes
    let aad := makeAad state.direction sequenceBytes transcriptHash
    let plaintext ← decrypt cr state.cipher nonce aad ciphertext
    let nextSequence ←
      okOrElse (checkedSucc state.sequence) "secure session receive sequence exhausted"
    return (plaintext, { state with sequence := nextSequence })

/-- `SecureConnection::receive`, with the direction's state as argument and result. -/
def receive (state : DirectionState) : Prog (List UInt8 × DirectionState) := do
  let frame ← readFrame
  openFrame cr transcriptHash state frame

/-- Everything a sequence of `receive` calls leaves behind. -/
structure Receives where
  results : List (Except Error (List UInt8))
  state : DirectionState
  rest : Feed Error
  events : List Event

/-- `n` successive calls of `receive` on one stream. A call that fails leaves the state, and the
next call goes on where the stream stands. -/
def receiveCalls : ℕ → DirectionState → Feed Error → Receives
  | 0, state, feed => ⟨[], state, feed, []⟩
  | n + 1, state, feed =>
    let call := (receive cr transcriptHash state).run feed
    match call.result with
    | .ok (plaintext, state') =>
      let later := receiveCalls n state' call.rest
      { later with results := .ok plaintext :: later.results, events := call.notes ++ later.events }
    | .error e =>
      let later := receiveCalls n state call.rest
      { later with results := .error e :: later.results, events := call.notes ++ later.events }

/-! ### A session -/

/-- A session: the two directions and the transcript. The handshake gives the two states opposite
directions, and nothing changes a direction afterwards. -/
structure SecureConnection where
  receiveState : DirectionState
  sendState : DirectionState
  transcriptHash : Bytes transcriptHashSize
  directions :
    (receiveState.direction = directionServerToClient ∧
        sendState.direction = directionClientToServer) ∨
      (receiveState.direction = directionClientToServer ∧
        sendState.direction = directionServerToClient)

theorem SecureConnection.directions_ne (c : SecureConnection) :
    c.sendState.direction ≠ c.receiveState.direction := by
  rcases c.directions with ⟨hr, hs⟩ | ⟨hr, hs⟩ <;> rw [hr, hs] <;> decide

/-- The client's end of a session with given counters for its two directions. -/
def exampleClient (sent received : UInt64) : SecureConnection where
  receiveState := ⟨⟨List.replicate 32 2, rfl⟩, directionServerToClient, ⟨[5, 6, 7, 8], rfl⟩,
    received⟩
  sendState := ⟨⟨List.replicate 32 1, rfl⟩, directionClientToServer, ⟨[1, 2, 3, 4], rfl⟩, sent⟩
  transcriptHash := ⟨List.replicate 32 9, rfl⟩
  directions := .inl ⟨rfl, rfl⟩

/-- The server's end of the same session. -/
def exampleServer (sent received : UInt64) : SecureConnection where
  receiveState := (exampleClient received sent).sendState
  sendState := (exampleClient received sent).receiveState
  transcriptHash := (exampleClient received sent).transcriptHash
  directions := .inr ⟨rfl, rfl⟩

variable {cr transcriptHash} {state state' : DirectionState}

/-! ### One call, evaluated -/

/-- `send` once the counter is known not to be exhausted. -/
theorem send_eq {next : UInt64} (h : checkedSucc state.sequence = some next)
    (plaintext : List UInt8) :
    send cr transcriptHash state plaintext =
      encrypt cr state.cipher state.nonce (state.aad transcriptHash) plaintext >>= fun ciphertext =>
        writeFrame (encryptedFrame (toBeBytes state.sequence) ciphertext) >>= fun _ =>
          .pure { state with sequence := next } := by
  rw [send, h]
  rfl

theorem splitFrame_encryptedFrame {sequenceBytes : Bytes sequenceSize} {ciphertext : List UInt8}
    (h : aeadTagSize ≤ ciphertext.length) :
    splitFrame (encryptedFrame sequenceBytes ciphertext) = .ok (sequenceBytes, ciphertext) := by
  have hs : sequenceBytes.val.length = 8 := sequenceBytes.property
  have hlen : ¬ (encryptedFrame sequenceBytes ciphertext).length < minEncryptedFrameSize := by
    simp only [encryptedFrame, List.length_append, List.length_singleton, hs]
    change ¬ 1 + 8 + ciphertext.length < 25
    change 16 ≤ ciphertext.length at h
    omega
  rw [splitFrame, dif_neg hlen]
  refine congrArg Except.ok (Prod.ext (Subtype.ext ?_) ?_)
  · exact List.take_left' hs
  · change (sequenceBytes.val ++ ciphertext).drop 8 = ciphertext
    exact List.drop_left' hs

/-- A frame of the next sequence number that decrypts is accepted. -/
theorem openFrame_encryptedFrame {next : UInt64} {ciphertext plaintext : List UInt8}
    (hnext : checkedSucc state.sequence = some next) (hlen : aeadTagSize ≤ ciphertext.length)
    (hdec : cr.decrypt state.cipher state.nonce (state.aad transcriptHash) ciphertext
      = some plaintext) :
    openFrame cr transcriptHash state (encryptedFrame (toBeBytes state.sequence) ciphertext) =
      .note (.decrypt state.cipher state.nonce (state.aad transcriptHash) ciphertext
          (some plaintext))
        (.pure (plaintext, { state with sequence := next })) := by
  rw [openFrame, splitFrame_encryptedFrame hlen]
  simp only [ofExcept_ok, pure_bind, fromBeBytes_toBeBytes, ne_eq, not_true_eq_false, if_false,
    decrypt, note_bind]
  rw [show cr.decrypt state.cipher (makeNonce state.noncePrefix (toBeBytes state.sequence))
      (makeAad state.direction (toBeBytes state.sequence) transcriptHash) ciphertext
        = some plaintext from hdec, hnext]
  rfl

/-- What a successful `receive` has checked of its frame: it carries the next sequence number, and
its ciphertext decrypts under the direction's key, nonce and associated data. -/
theorem openFrame_ok {frame plaintext : List UInt8} {feed : Feed Error}
    (h : ((openFrame cr transcriptHash state frame).run feed).result = .ok (plaintext, state')) :
    ∃ ciphertext next, checkedSucc state.sequence = some next ∧
      state' = { state with sequence := next } ∧
      (openFrame cr transcriptHash state frame).run feed =
        ⟨.ok (plaintext, state'), feed, [],
          [.decrypt state.cipher state.nonce (state.aad transcriptHash) ciphertext
            (some plaintext)]⟩ := by
  rw [openFrame] at h ⊢
  cases hsplit : splitFrame frame with
  | error e => simp [hsplit, run] at h
  | ok parts =>
    obtain ⟨sequenceBytes, ciphertext⟩ := parts
    simp only [hsplit, ofExcept_ok, pure_bind] at h ⊢
    split_ifs at h ⊢ with hseq
    · simp [run] at h
    · obtain rfl : sequenceBytes = toBeBytes state.sequence := by
        rw [← not_ne_iff.mp hseq, toBeBytes_fromBeBytes]
      simp only [decrypt, note_bind, run] at h ⊢
      refine ⟨ciphertext, ?_⟩
      cases hdec : cr.decrypt state.cipher
          (makeNonce state.noncePrefix (toBeBytes state.sequence))
          (makeAad state.direction (toBeBytes state.sequence) transcriptHash) ciphertext with
      | none => simp [hdec, run] at h
      | some plaintext' =>
        simp only [hdec, okOrElse_some, pure_bind] at h ⊢
        cases hnext : checkedSucc state.sequence with
        | none => simp [hnext, run] at h
        | some next =>
          simp only [hnext, okOrElse_some, pure_bind, pure_eq, run, Except.ok.injEq,
            Prod.mk.injEq] at h ⊢
          obtain ⟨rfl, rfl⟩ := h
          exact ⟨next, rfl, rfl, rfl⟩

end Security

end Taunicorn
