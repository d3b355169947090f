import Taunicorn.Security.SecureConnection

/-!
# Delivery of messages from a sender to its receiver

Two ends whose states for one direction are equal, and a byte stream between them that may be cut
anywhere. Sending a list of plaintexts and receiving as many messages gives the list back, uses
the bytes that were written and no others, and leaves the two counters equal.

The two limits sit at the same place on both sides. A plaintext of `maxFrameSize - 25` bytes
becomes a frame of exactly `maxFrameSize`, which is the most either side accepts; and the sender
stops at the number the receiver cannot count past.

## Main results

* `send_run`, `receive_run` — one message
* `sendAll_run`, `receiveCalls_run` — a list of messages, on any cut
* `receiveCalls_sendAll` — delivery
-/

namespace Taunicorn

namespace Security

open StreamProg

variable {cr : Crypto} {transcriptHash : Bytes transcriptHashSize} {state : DirectionState}

/-- The largest plaintext that fits into a frame. -/
abbrev maxPlaintextSize : ℕ := maxFrameSize - minEncryptedFrameSize

/-! ### One message -/

theorem length_encryptedFrame (sequenceBytes : Bytes sequenceSize) (ciphertext : List UInt8) :
    (encryptedFrame sequenceBytes ciphertext).length
      = encryptedFrameHeaderSize + ciphertext.length := by
  simp only [encryptedFrame, List.length_append, Bytes.length, List.length_singleton]

/-- A plaintext within the limit has a frame. -/
theorem exists_isFrameOf (haead : cr.AeadCorrect)
    (transcriptHash : Bytes transcriptHashSize) (state : DirectionState) {plaintext : List UInt8}
    (hlen : plaintext.length ≤ maxPlaintextSize) :
    ∃ bytes, IsFrameOf cr transcriptHash state plaintext bytes := by
  have hfits : plaintext.length ≤ maxFrameSize := hlen.trans (Nat.sub_le _ _)
  obtain ⟨ciphertext, hct⟩ := Option.isSome_iff_exists.mp (haead.encrypt_isSome state.cipher
    state.nonce (state.aad transcriptHash) plaintext hfits)
  have hctlen := haead.length_encrypt _ _ _ _ _ hct
  refine ⟨_, ciphertext, hct, frame_of_length (by simp [encryptedFrame]) ?_⟩
  rw [length_encryptedFrame, hctlen]
  change plaintext.length ≤ 67108839 at hlen
  change 9 + (plaintext.length + 16) ≤ 67108864
  omega

/-- Sending one message writes its frame and advances the counter. -/
theorem send_run {plaintext bytes : List UInt8} {next : UInt64}
    (hframe : IsFrameOf cr transcriptHash state plaintext bytes)
    (hnext : checkedSucc state.sequence = some next) (feed : Feed Error) :
    ∃ notes, (send cr transcriptHash state plaintext).run feed =
      ⟨.ok { state with sequence := next }, feed, bytes, notes⟩ := by
  obtain ⟨ciphertext, hct, hbytes⟩ := hframe
  refine ⟨[.encrypt state.cipher state.nonce (state.aad transcriptHash) plaintext
    (some ciphertext)], ?_⟩
  rw [send_eq hnext, encrypt, hct]
  simp only [okOrElse_some, note_bind, pure_bind, writeFrame, hbytes, ofExcept_ok, send_bind, run,
    List.append_nil]

/-- On any cut of the frame of the next message and what follows it, `receive` returns the
plaintext, advances the counter and leaves a cut of what follows. -/
theorem receive_run (haead : cr.AeadCorrect) {plaintext bytes after : List UInt8} {next : UInt64}
    {feed : Feed Error} (hframe : IsFrameOf cr transcriptHash state plaintext bytes)
    (hnext : checkedSucc state.sequence = some next) (hcut : Cut (bytes ++ after) feed) :
    ∃ feed' notes, Cut after feed' ∧ (receive cr transcriptHash state).run feed =
      ⟨.ok (plaintext, { state with sequence := next }), feed', [], notes⟩ := by
  obtain ⟨ciphertext, hct, hbytes⟩ := hframe
  obtain ⟨feed', hcut', hread⟩ := readFrame_run hbytes hcut
  have hctlen := haead.length_encrypt _ _ _ _ _ hct
  have hopen := openFrame_encryptedFrame hnext (by rw [hctlen]; exact Nat.le_add_left _ _)
    (haead.decrypt_encrypt _ _ _ _ _ hct)
  refine ⟨feed', [.decrypt state.cipher state.nonce (state.aad transcriptHash) ciphertext
    (some plaintext)], hcut', ?_⟩
  rw [receive, run_bind, hread]
  simp only [Run.andThen, hopen, run, List.nil_append]

/-! ### A list of messages -/

/-- `Frames state plaintexts bytes final`: from `state`, the messages' frames one after the other
are `bytes`, and the counter ends at `final`. -/
inductive Frames (cr : Crypto) (transcriptHash : Bytes transcriptHashSize) :
    DirectionState → List (List UInt8) → List UInt8 → UInt64 → Prop
  | nil (state : DirectionState) : Frames cr transcriptHash state [] [] state.sequence
  | cons {state : DirectionState} {plaintext bytes more : List UInt8}
      {rest : List (List UInt8)} {next final : UInt64} :
      IsFrameOf cr transcriptHash state plaintext bytes →
      checkedSucc state.sequence = some next →
      Frames cr transcriptHash { state with sequence := next } rest more final →
      Frames cr transcriptHash state (plaintext :: rest) (bytes ++ more) final

theorem Frames.final_eq {plaintexts : List (List UInt8)} {bytes : List UInt8} {final : UInt64}
    (h : Frames cr transcriptHash state plaintexts bytes final) :
    final.toNat = state.sequence.toNat + plaintexts.length := by
  induction h with
  | nil state => simp
  | cons hframe hnext _ ih =>
    rw [ih, List.length_cons, checkedSucc_eq_some_iff.mp hnext]
    omega

/-- Plaintexts within the size limit have frames, as long as the counter can count them. -/
theorem exists_frames (haead : cr.AeadCorrect)
    (transcriptHash : Bytes transcriptHashSize) (state : DirectionState)
    {plaintexts : List (List UInt8)}
    (hlen : ∀ plaintext ∈ plaintexts, plaintext.length ≤ maxPlaintextSize)
    (hseq : state.sequence.toNat + plaintexts.length ≤ 2 ^ 64 - 1) :
    ∃ bytes final, Frames cr transcriptHash state plaintexts bytes final := by
  induction plaintexts generalizing state with
  | nil => exact ⟨[], _, .nil state⟩
  | cons plaintext rest ih =>
    rw [List.length_cons] at hseq
    obtain ⟨bytes, hframe⟩ := exists_isFrameOf haead transcriptHash state
      (hlen plaintext List.mem_cons_self)
    cases hnext : checkedSucc state.sequence with
    | none => have := checkedSucc_eq_none_iff.mp hnext; omega
    | some next =>
      have hval := checkedSucc_eq_some_iff.mp hnext
      obtain ⟨more, final, hmore⟩ := ih { state with sequence := next }
        (fun p hp => hlen p (List.mem_cons_of_mem _ hp)) (by dsimp only; omega)
      exact ⟨_, final, .cons hframe hnext hmore⟩

theorem sendAll_run {plaintexts : List (List UInt8)} {bytes : List UInt8} {final : UInt64}
    (h : Frames cr transcriptHash state plaintexts bytes final) (feed : Feed Error) :
    ∃ notes, (sendAll cr transcriptHash state plaintexts).run feed =
      ⟨.ok { state with sequence := final }, feed, bytes, notes⟩ := by
  induction h with
  | nil state => exact ⟨[], rfl⟩
  | cons hframe hnext _ ih =>
    obtain ⟨notes, hsend⟩ := send_run hframe hnext feed
    obtain ⟨more, hrest⟩ := ih
    refine ⟨notes ++ more, ?_⟩
    rw [sendAll, run_bind, hsend]
    simp only [Run.andThen, hrest]

theorem receiveCalls_run (haead : cr.AeadCorrect) {plaintexts : List (List UInt8)}
    {bytes after : List UInt8} {final : UInt64} {feed : Feed Error}
    (h : Frames cr transcriptHash state plaintexts bytes final)
    (hcut : Cut (bytes ++ after) feed) :
    ∃ feed' events, Cut after feed' ∧
      receiveCalls cr transcriptHash plaintexts.length state feed =
        ⟨plaintexts.map .ok, { state with sequence := final }, feed', events⟩ := by
  induction h generalizing feed with
  | nil state => exact ⟨feed, [], hcut, rfl⟩
  | cons hframe hnext _ ih =>
    rw [List.append_assoc] at hcut
    obtain ⟨feed₁, notes, hcut₁, hcall⟩ := receive_run haead hframe hnext hcut
    obtain ⟨feed₂, events, hcut₂, hcalls⟩ := ih hcut₁
    refine ⟨feed₂, notes ++ events, hcut₂, ?_⟩
    rw [List.length_cons, receiveCalls, hcall]
    simp only [hcalls, List.map_cons]

theorem receive_run_nil :
    (receive cr transcriptHash state).run [] =
      ⟨.error (.msg "connection closed while reading a frame"), [], [], []⟩ := by
  rw [receive, run_bind, readFrame_run_nil]
  rfl

/-- **Delivery.** Between two ends whose states for one direction match, a list of plaintexts
within the size limit that the counter can count is sent, and then received whole and in order,
however the transport cuts the bytes. Receiving uses exactly the bytes written, whatever follows
them; both counters end at the same number; and once the stream is closed a further `receive`
returns an error. -/
theorem receiveCalls_sendAll (haead : cr.AeadCorrect) {sender receiver : SecureConnection}
    (hstate : sender.sendState = receiver.receiveState)
    (hhash : sender.transcriptHash = receiver.transcriptHash) (plaintexts : List (List UInt8))
    (hlen : ∀ plaintext ∈ plaintexts, plaintext.length ≤ maxFrameSize - 25)
    (hseq : sender.sendState.sequence.toNat + plaintexts.length ≤ 2 ^ 64 - 1) :
    ∃ final bytes,
      final.sequence.toNat = sender.sendState.sequence.toNat + plaintexts.length ∧
      (∀ feed, ∃ notes, (sendAll cr sender.transcriptHash sender.sendState plaintexts).run feed =
        ⟨.ok final, feed, bytes, notes⟩) ∧
      (∀ after feed, Cut (bytes ++ after) feed → ∃ feed' events, Cut after feed' ∧
        receiveCalls cr receiver.transcriptHash plaintexts.length receiver.receiveState feed =
          ⟨plaintexts.map .ok, final, feed', events⟩) ∧
      (receive cr receiver.transcriptHash final).run [] =
        ⟨.error (.msg "connection closed while reading a frame"), [], [], []⟩ := by
  obtain ⟨bytes, final, hframes⟩ := exists_frames haead sender.transcriptHash
    sender.sendState hlen hseq
  refine ⟨{ sender.sendState with sequence := final }, bytes, hframes.final_eq,
    sendAll_run hframes, fun after feed hcut => ?_, receive_run_nil⟩
  rw [hhash, hstate] at hframes
  rw [hstate]
  exact receiveCalls_run haead hframes hcut

/-- Delivery of an empty message and of a short one, up to the last number the counter can
count. -/
theorem receiveCalls_sendAll_last :
    ∃ final bytes,
      final.sequence.toNat = 0xfffffffffffffffd + 2 ∧
      (∀ feed, ∃ notes, (sendAll .transparent (exampleClient 0xfffffffffffffffd 1).transcriptHash
          (exampleClient 0xfffffffffffffffd 1).sendState [[], [104, 105]]).run feed =
        ⟨.ok final, feed, bytes, notes⟩) ∧
      (∀ after feed, Cut (bytes ++ after) feed → ∃ feed' events, Cut after feed' ∧
        receiveCalls .transparent (exampleServer 1 0xfffffffffffffffd).transcriptHash 2
            (exampleServer 1 0xfffffffffffffffd).receiveState feed =
          ⟨[.ok [], .ok [104, 105]], final, feed', events⟩) ∧
      (receive .transparent (exampleServer 1 0xfffffffffffffffd).transcriptHash final).run [] =
        ⟨.error (.msg "connection closed while reading a frame"), [], [], []⟩ :=
  receiveCalls_sendAll Crypto.transparent_aeadCorrect
    (show (exampleClient 0xfffffffffffffffd 1).sendState
      = (exampleServer 1 0xfffffffffffffffd).receiveState from rfl)
    rfl [[], [104, 105]] (by decide) (by decide)

end Security

end Taunicorn
