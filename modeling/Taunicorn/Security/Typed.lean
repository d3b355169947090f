import Taunicorn.Security.Delivery

/-!
# Typed messages

`send_msgpack` serializes a value and sends it as one message; `receive_msgpack` receives one
message and deserializes it. Each can fail in a place of its own, and the place decides what is left
of the session. A value that does not serialize, or is too large for a frame, has no message: the
counter stays, and nothing is handed over. A message that does not deserialize has been received:
the counter has advanced, and the call that gets the error has used up exactly that message.

So values of any kind can be sent one after the other, whatever becomes of each, and the receiver
gets those that had a message, each as if it were the only one. The two types need not be the same.

What serde makes of a value is a parameter.

## Main definitions

* `Codec` — the two conversions
* `sendMsgpack`, `receiveMsgpack` — one call
* `sendMsgpackCalls`, `receiveMsgpackCalls` — any number of them

## Main results

* `send_run_oversized` — a message that has no frame
* `sendMsgpackCalls_run`, `receiveMsgpackCalls_run` — the two ends
* `typed_messages_isolated` — no value disturbs another
-/

namespace Taunicorn

namespace Security

open StreamProg

variable {σ τ : Type}

/-- What `rmp_serde` makes of the values of one type, and of bytes for another, each with the text
of its error. -/
structure Codec (σ τ : Type) where
  toVecNamed : σ → Except String (List UInt8)
  fromSlice : List UInt8 → Except String τ

/-- The message of a value: what it serializes to, where that fits into a frame. -/
def Codec.message (codec : Codec σ τ) (value : σ) : Option (List UInt8) :=
  match codec.toVecNamed value with
  | .ok plaintext => if plaintext.length ≤ maxPlaintextSize then some plaintext else none
  | .error _ => none

/-- What a caller of `receive_msgpack` makes of a message. -/
def Codec.decode (codec : Codec σ τ) (plaintext : List UInt8) : Except Error τ :=
  (codec.fromSlice plaintext).mapError .msg

variable (cr : Crypto) (transcriptHash : Bytes transcriptHashSize) (codec : Codec σ τ)

/-- `SecureConnection::send_msgpack`. -/
def sendMsgpack (state : DirectionState) (value : σ) : Prog DirectionState := do
  let plaintext ← ofExcept ((codec.toVecNamed value).mapError .msg)
  send cr transcriptHash state plaintext

/-- `SecureConnection::receive_msgpack`. The state has advanced before the message is deserialized,
and stays so where that fails. -/
def receiveMsgpack (state : DirectionState) : Prog (Except Error τ × DirectionState) := do
  let (plaintext, state) ← receive cr transcriptHash state
  return (codec.decode plaintext, state)

/-- What a sequence of `send_msgpack` calls leaves behind. -/
structure TypedSends where
  results : List (Except Error Unit)
  state : DirectionState
  sent : List UInt8

/-- Successive calls of `send_msgpack`. A call that fails leaves the state. -/
def sendMsgpackCalls : List σ → DirectionState → TypedSends
  | [], state => ⟨[], state, []⟩
  | value :: rest, state =>
    let call := (sendMsgpack cr transcriptHash codec state value).run []
    match call.result with
    | .ok state' =>
      let later := sendMsgpackCalls rest state'
      ⟨.ok () :: later.results, later.state, call.sent ++ later.sent⟩
    | .error e =>
      let later := sendMsgpackCalls rest state
      ⟨.error e :: later.results, later.state, call.sent ++ later.sent⟩

/-- What a sequence of `receive_msgpack` calls leaves behind. -/
structure TypedReceives (τ : Type) where
  results : List (Except Error τ)
  state : DirectionState
  rest : Feed Error

/-- Successive calls of `receive_msgpack` on one stream. -/
def receiveMsgpackCalls : ℕ → DirectionState → Feed Error → TypedReceives τ
  | 0, state, feed => ⟨[], state, feed⟩
  | n + 1, state, feed =>
    let call := (receiveMsgpack cr transcriptHash codec state).run feed
    match call.result with
    | .ok (outcome, state') =>
      let later := receiveMsgpackCalls n state' call.rest
      { later with results := outcome :: later.results }
    | .error e =>
      let later := receiveMsgpackCalls n state call.rest
      { later with results := .error e :: later.results }

variable {cr codec} (state : DirectionState)

/-! ### One call -/

/-- **A message that has no frame** is not sent, and leaves the state. -/
theorem send_run_oversized (haead : cr.AeadCorrect) {plaintext : List UInt8}
    (hlen : maxPlaintextSize < plaintext.length) (feed : Feed Error) :
    ∃ e notes, (send cr transcriptHash state plaintext).run feed = ⟨.error e, feed, [], notes⟩ := by
  cases hnext : checkedSucc state.sequence with
  | none =>
    refine ⟨.msg "secure session send sequence exhausted", [], ?_⟩
    rw [send, hnext, okOrElse_none]
    rfl
  | some next =>
    rw [send_eq hnext, encrypt]
    cases hct : cr.encrypt state.cipher state.nonce (state.aad transcriptHash) plaintext with
    | none =>
      refine ⟨.msg "message encryption failed",
        [.encrypt state.cipher state.nonce (state.aad transcriptHash) plaintext none], ?_⟩
      rw [okOrElse_none]
      rfl
    | some ciphertext =>
      have hctlen := haead.length_encrypt _ _ _ _ _ hct
      have htoolong : maxFrameSize
          < (encryptedFrame (toBeBytes state.sequence) ciphertext).length := by
        rw [length_encryptedFrame, hctlen]
        change 67108839 < plaintext.length at hlen
        change 67108864 < 9 + (plaintext.length + 16)
        omega
      obtain ⟨e, he⟩ : ∃ e, frame (encryptedFrame (toBeBytes state.sequence) ciphertext)
          = .error e := by
        rw [frame, if_neg (by simp [encryptedFrame]), if_pos htoolong]
        exact ⟨_, rfl⟩
      refine ⟨e, [.encrypt state.cipher state.nonce (state.aad transcriptHash) plaintext
        (some ciphertext)], ?_⟩
      rw [okOrElse_some, note_bind, pure_bind, writeFrame, he]
      rfl

/-- A value that has a message is sent as that message, -/
theorem sendMsgpack_of_message {value : σ} {plaintext : List UInt8}
    (h : codec.message value = some plaintext) :
    plaintext.length ≤ maxPlaintextSize ∧
      sendMsgpack cr transcriptHash codec state value
        = send cr transcriptHash state plaintext := by
  unfold Codec.message at h
  split at h
  · next bytes hbytes =>
    split_ifs at h with hlen
    obtain rfl := Option.some.inj h
    refine ⟨hlen, ?_⟩
    rw [sendMsgpack, hbytes]
    rfl
  · exact absurd h.symm (Option.some_ne_none _)

/-- and one that has none is not sent. -/
theorem sendMsgpack_run_none (haead : cr.AeadCorrect) {value : σ}
    (h : codec.message value = none) (feed : Feed Error) :
    ∃ e notes, (sendMsgpack cr transcriptHash codec state value).run feed
      = ⟨.error e, feed, [], notes⟩ := by
  unfold Codec.message at h
  split at h
  · next bytes hbytes =>
    split_ifs at h with hlen
    obtain ⟨e, notes, hrun⟩ :=
      send_run_oversized transcriptHash state haead (Nat.lt_of_not_le hlen) feed
    refine ⟨e, notes, ?_⟩
    rw [sendMsgpack, hbytes]
    exact hrun
  · next e he =>
    refine ⟨.msg e, [], ?_⟩
    rw [sendMsgpack, he]
    rfl

/-! ### The two ends -/

/-- **The sender.** The frames of the values that have a message, one after the other. -/
theorem sendMsgpackCalls_run (haead : cr.AeadCorrect) {values : List σ}
    (hseq : state.sequence.toNat + (values.filterMap codec.message).length ≤ 2 ^ 64 - 1) :
    ∃ results bytes final,
      Frames cr transcriptHash state (values.filterMap codec.message) bytes final ∧
      sendMsgpackCalls cr transcriptHash codec values state
        = ⟨results, { state with sequence := final }, bytes⟩ ∧
      results.map Except.isOk = values.map fun value => (codec.message value).isSome := by
  induction values generalizing state with
  | nil => exact ⟨[], [], _, .nil state, rfl, rfl⟩
  | cons value rest ih =>
    cases hmessage : codec.message value with
    | none =>
      rw [List.filterMap_cons_none hmessage] at hseq ⊢
      obtain ⟨e, notes, hrun⟩ := sendMsgpack_run_none transcriptHash state haead hmessage []
      obtain ⟨results, bytes, final, hframes, hcalls, hresults⟩ := ih state hseq
      refine ⟨.error e :: results, bytes, final, hframes, ?_, ?_⟩
      · rw [sendMsgpackCalls, hrun]
        simp only [hcalls, List.nil_append]
      · rw [List.map_cons, List.map_cons, hresults, hmessage]
        rfl
    | some plaintext =>
      rw [List.filterMap_cons_some hmessage] at hseq ⊢
      rw [List.length_cons] at hseq
      obtain ⟨hlen, hsend⟩ :=
        @sendMsgpack_of_message _ _ cr transcriptHash codec state _ _ hmessage
      obtain ⟨first, hframe⟩ := exists_isFrameOf haead transcriptHash state hlen
      obtain ⟨next, hnext⟩ : ∃ next, checkedSucc state.sequence = some next := by
        refine Option.ne_none_iff_exists'.mp fun hnone => ?_
        have hfull := checkedSucc_eq_none_iff.mp hnone
        omega
      have hvalue := checkedSucc_eq_some_iff.mp hnext
      obtain ⟨notes, hrun⟩ := send_run hframe hnext []
      obtain ⟨results, bytes, final, hframes, hcalls, hresults⟩ :=
        ih { state with sequence := next } (by dsimp only; omega)
      refine ⟨.ok () :: results, first ++ bytes, final, .cons hframe hnext hframes, ?_, ?_⟩
      · rw [sendMsgpackCalls, hsend, hrun]
        simp only [hcalls]
      · rw [List.map_cons, List.map_cons, hresults, hmessage]
        rfl

variable {transcriptHash state}

/-- **The receiver.** Each message, deserialized by itself. -/
theorem receiveMsgpackCalls_run (haead : cr.AeadCorrect) {plaintexts : List (List UInt8)}
    {bytes after : List UInt8} {final : UInt64} {feed : Feed Error}
    (h : Frames cr transcriptHash state plaintexts bytes final)
    (hcut : Cut (bytes ++ after) feed) :
    ∃ feed', Cut after feed' ∧
      receiveMsgpackCalls cr transcriptHash codec plaintexts.length state feed =
        ⟨plaintexts.map codec.decode, { state with sequence := final }, feed'⟩ := by
  induction h generalizing feed with
  | nil state => exact ⟨feed, hcut, rfl⟩
  | cons hframe hnext _ ih =>
    rw [List.append_assoc] at hcut
    obtain ⟨feed₁, notes, hcut₁, hcall⟩ := receive_run haead hframe hnext hcut
    obtain ⟨feed₂, hcut₂, hcalls⟩ := ih hcut₁
    refine ⟨feed₂, hcut₂, ?_⟩
    rw [List.length_cons, receiveMsgpackCalls, receiveMsgpack, run_bind, hcall]
    simp only [Run.andThen, Pure.pure, run, hcalls, List.map_cons]

/-- **No value disturbs another.** Between two ends whose states for one direction match, send any
list of values. The calls that succeed are those of the values that have a message. However the
transport cuts the bytes, as many calls of `receive_msgpack` return what these messages deserialize
to, each by itself and in order, errors among them; they use exactly the bytes written, whatever
follows; and both counters end at the same number, advanced by the messages alone. -/
theorem typed_messages_isolated (haead : cr.AeadCorrect) {sender receiver : SecureConnection}
    (hstate : sender.sendState = receiver.receiveState)
    (hhash : sender.transcriptHash = receiver.transcriptHash) (codec : Codec σ τ) (values : List σ)
    (hseq : sender.sendState.sequence.toNat + (values.filterMap codec.message).length
      ≤ 2 ^ 64 - 1) :
    ∃ results final bytes,
      sendMsgpackCalls cr sender.transcriptHash codec values sender.sendState
        = ⟨results, final, bytes⟩ ∧
      results.map Except.isOk = (values.map fun value => (codec.message value).isSome) ∧
      final.sequence.toNat
        = sender.sendState.sequence.toNat + (values.filterMap codec.message).length ∧
      ∀ after feed, Cut (bytes ++ after) feed → ∃ feed', Cut after feed' ∧
        receiveMsgpackCalls cr receiver.transcriptHash codec
            (values.filterMap codec.message).length receiver.receiveState feed
          = ⟨(values.filterMap codec.message).map codec.decode, final, feed'⟩ := by
  obtain ⟨results, bytes, final, hframes, hcalls, hresults⟩ :=
    sendMsgpackCalls_run sender.transcriptHash sender.sendState haead hseq
  refine ⟨results, _, bytes, hcalls, hresults, hframes.final_eq, fun after feed hcut => ?_⟩
  rw [hhash, hstate] at hframes
  rw [hstate]
  exact receiveMsgpackCalls_run haead hframes hcut

/-- Numbers below 200 serialize to one byte, and what is above 99 does not deserialize. -/
def smallNumbers : Codec ℕ ℕ where
  toVecNamed n := if n < 200 then .ok [UInt8.ofNat n] else .error "too large"
  fromSlice bytes :=
    match bytes with
    | [byte] => if byte.toNat < 100 then .ok byte.toNat else .error "unexpected number"
    | _ => .error "unexpected length"

theorem typed_messages_isolated_example :
    ∃ results final bytes,
      sendMsgpackCalls .transparent (exampleClient 1 1).transcriptHash smallNumbers
          [7, 500, 150, 8] (exampleClient 1 1).sendState = ⟨results, final, bytes⟩ ∧
      results.map Except.isOk = [true, false, true, true] ∧ final.sequence.toNat = 4 ∧
      ∀ after feed, Cut (bytes ++ after) feed → ∃ feed', Cut after feed' ∧
        receiveMsgpackCalls .transparent (exampleServer 1 1).transcriptHash smallNumbers 3
            (exampleServer 1 1).receiveState feed
          = ⟨[.ok 7, .error (.msg "unexpected number"), .ok 8], final, feed'⟩ :=
  typed_messages_isolated Crypto.transparent_aeadCorrect
    (show (exampleClient 1 1).sendState = (exampleServer 1 1).receiveState from rfl) rfl
    smallNumbers [7, 500, 150, 8] (by decide)

end Security

end Taunicorn
