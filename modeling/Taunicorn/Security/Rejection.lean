import Taunicorn.Security.Delivery
import Taunicorn.Security.Grammar

/-!
# Rejected frames

What a failed `SecureConnection::receive` leaves behind. The sequence number is stored in place, by
the last statement before the plaintext is returned, so `receiveStores` writes the function down
with that store noted where it stands; a call that fails has not reached it.

A frame that was read is consumed whatever is wrong with it. So a stream into which somebody has
put frames of his own is still a stream of the sender's frames for the receiver, with an error in
between for each of the others.

## Main definitions

* `receiveStores` — `receive`, with the store to the sequence number noted
* `Authentic` — a frame the receiver takes for its next message
* `Mixed` — a sender's frames with other frames between them

## Main results

* `receiveStores_run` — the store happens exactly if the call succeeds
* `receive_rejects` — a rejected frame is consumed and nothing else
* `receiveCalls_mixed`, `rejected_frames` — every message of the sender comes back
-/

namespace Taunicorn

namespace Security

open StreamProg

variable (cr : Crypto) (transcriptHash : Bytes transcriptHashSize)

/-! ### The store -/

/-- `SecureConnection::receive` behind its read of a frame, with what it stores as the next sequence
number noted. -/
def openFrameStores (state : DirectionState) (frame : List UInt8) :
    StreamProg Error UInt64 (List UInt8) := do
  let (sequenceBytes, ciphertext) ← ofExcept (splitFrame frame)
  let receivedSequence := fromBeBytes sequenceBytes
  if receivedSequence ≠ state.sequence then
    .fail (.msg
      s!"invalid message sequence: expected {state.sequence}, received {receivedSequence}")
  else
    let nonce := makeNonce state.noncePrefix sequenceBytes
    let aad := makeAad state.direction sequenceBytes transcriptHash
    match cr.decrypt state.cipher nonce aad ciphertext with
    | none => .fail (.msg "message authentication failed")
    | some plaintext =>
      match checkedSucc state.sequence with
      | none => .fail (.msg "secure session receive sequence exhausted")
      | some next => .note next (.pure plaintext)

/-- `SecureConnection::receive`, with its store noted. -/
def receiveStores (state : DirectionState) : StreamProg Error UInt64 (List UInt8) := do
  let frame ← readFrame.silence
  openFrameStores cr transcriptHash state frame

/-- What a call has stored, by its outcome. -/
def storesOf : Except Error (List UInt8 × DirectionState) → List UInt64
  | .ok parts => [parts.2.sequence]
  | .error _ => []

/-- The sequence number in the connection's state when a call is over. -/
def sequenceAfter (state : DirectionState) (feed : Feed Error) : UInt64 :=
  ((receiveStores cr transcriptHash state).run feed).notes.getLastD state.sequence

/-! ### Frames that are not the next message -/

/-- The receiver takes the payload of a frame for its next message: it carries the next sequence
number, and its ciphertext decrypts under the direction's key, nonce and associated data. -/
def Authentic (state : DirectionState) (payload : List UInt8) : Prop :=
  ∃ ciphertext plaintext, payload = encryptedFrame (toBeBytes state.sequence) ciphertext ∧
    cr.decrypt state.cipher state.nonce (state.aad transcriptHash) ciphertext = some plaintext

/-- One frame of a mixed stream: a message of the sender, or what somebody has put in. -/
inductive Item where
  | genuine (plaintext : List UInt8)
  | inserted (payload : List UInt8)
  deriving DecidableEq

/-- The sender's messages. -/
def plaintextsOf : List Item → List (List UInt8)
  | [] => []
  | .genuine plaintext :: items => plaintext :: plaintextsOf items
  | .inserted _ :: items => plaintextsOf items

/-- What a call of `receive` makes of one frame: the message, or an error. -/
def Item.Outcome : Item → Except Error (List UInt8) → Prop
  | .genuine plaintext, result => result = .ok plaintext
  | .inserted _, result => ∃ e, result = .error e

/-- `Mixed state items sent bytes final`: from `state`, a sender has sent the genuine items as
`sent`, with the counter ending at `final`; and `bytes` is that stream with the frames of the
inserted items between the sender's, none of which authenticates as the message that is next where
it stands. -/
inductive Mixed : DirectionState → List Item → List UInt8 → List UInt8 → UInt64 → Prop
  | nil (state : DirectionState) : Mixed state [] [] [] state.sequence
  | genuine {state : DirectionState} {plaintext frame sent bytes : List UInt8} {items : List Item}
      {next final : UInt64} :
      IsFrameOf cr transcriptHash state plaintext frame →
      checkedSucc state.sequence = some next →
      Mixed { state with sequence := next } items sent bytes final →
      Mixed state (.genuine plaintext :: items) (frame ++ sent) (frame ++ bytes) final
  | inserted {state : DirectionState} {payload sent bytes : List UInt8} {items : List Item}
      {final : UInt64} :
      1 ≤ payload.length → payload.length ≤ maxFrameSize →
      ¬ Authentic cr transcriptHash state payload →
      Mixed state items sent bytes final →
      Mixed state (.inserted payload :: items) sent
        (BigEndian.toBytes frameLengthSize payload.length ++ payload ++ bytes) final

variable {cr transcriptHash} {state : DirectionState}

/-! ### One frame -/

theorem splitFrame_eq_ok {frame ciphertext : List UInt8} {sequenceBytes : Bytes sequenceSize}
    (h : splitFrame frame = .ok (sequenceBytes, ciphertext)) :
    frame = encryptedFrame sequenceBytes ciphertext := by
  rw [splitFrame] at h
  split_ifs at h with hshort
  dsimp only at h
  split_ifs at h with hversion
  obtain ⟨rfl, rfl⟩ := Prod.mk.inj (Except.ok.inj h)
  rcases frame with _ | ⟨b, body⟩
  · exact absurd (show [].length < minEncryptedFrameSize by decide) hshort
  · obtain rfl : b = version := not_ne_iff.mp hversion
    exact congrArg (version :: ·) (List.take_append_drop sequenceSize body).symm

variable (cr transcriptHash) in
/-- Behind its read of a frame, `receive` uses the transport no more, and what it returns was
authentic. -/
theorem openFrame_run (state : DirectionState) (payload : List UInt8) (feed : Feed Error) :
    ∃ result notes, (openFrame cr transcriptHash state payload).run feed
        = ⟨result, feed, [], notes⟩ ∧
      ∀ plaintext state', result = .ok (plaintext, state') →
        Authentic cr transcriptHash state payload := by
  rw [openFrame]
  cases hsplit : splitFrame payload with
  | error e => exact ⟨_, _, rfl, fun _ _ h => absurd h (by simp)⟩
  | ok parts =>
    obtain ⟨sequenceBytes, ciphertext⟩ := parts
    simp only [ofExcept_ok, pure_bind]
    split_ifs with hseq
    · exact ⟨_, _, rfl, fun _ _ h => absurd h (by simp)⟩
    · obtain rfl : sequenceBytes = toBeBytes state.sequence := by
        rw [← not_ne_iff.mp hseq, toBeBytes_fromBeBytes]
      simp only [decrypt, note_bind]
      cases hdec : cr.decrypt state.cipher
          (makeNonce state.noncePrefix (toBeBytes state.sequence))
          (makeAad state.direction (toBeBytes state.sequence) transcriptHash) ciphertext with
      | none => exact ⟨_, _, rfl, fun _ _ h => absurd h (by simp [run])⟩
      | some plaintext =>
        have hauth : Authentic cr transcriptHash state payload :=
          ⟨ciphertext, plaintext, splitFrame_eq_ok hsplit, hdec⟩
        cases hnext : checkedSucc state.sequence with
        | none => exact ⟨_, _, rfl, fun _ _ _ => hauth⟩
        | some next => exact ⟨_, _, rfl, fun _ _ _ => hauth⟩

/-- **A rejected frame is consumed and nothing else.** On any cut of a stream that starts with a
frame, a call leaves a cut of what follows the frame, whether it succeeds or not; and it fails if
the frame does not authenticate as the next message. -/
theorem receive_rejects {bytes payload : List UInt8} {feed : Feed Error}
    (hstarts : StartsWithFrame bytes payload) (hcut : Cut bytes feed) :
    ∃ result feed' notes, (receive cr transcriptHash state).run feed = ⟨result, feed', [], notes⟩ ∧
      Cut (bytes.drop (frameLengthSize + payload.length)) feed' ∧
      (¬ Authentic cr transcriptHash state payload → ∃ e, result = .error e) := by
  rcases readFrame_cases hcut with ⟨payload', feed', hstarts', hcut', hrun⟩ |
    ⟨-, -, hbad, -⟩ | ⟨-, hshort, -⟩
  · obtain rfl := hstarts.unique hstarts'
    obtain ⟨result, notes, hopen, hauth⟩ := openFrame_run cr transcriptHash state payload feed'
    refine ⟨result, feed', notes, ?_, hcut', ?_⟩
    · rw [receive, run_bind, hrun]
      simp only [Run.andThen, hopen, List.append_nil, List.nil_append]
    · intro hnot
      cases result with
      | error e => exact ⟨e, rfl⟩
      | ok parts => exact absurd (hauth parts.1 parts.2 rfl) hnot
  · exact absurd hbad hstarts.not_badLength
  · exact absurd hshort hstarts.not_truncated

/-! ### The store happens exactly if the call succeeds -/

theorem openFrameStores_run (state : DirectionState) (payload : List UInt8) (feed : Feed Error) :
    (openFrameStores cr transcriptHash state payload).run feed
      = ⟨((openFrame cr transcriptHash state payload).run feed).result.map Prod.fst, feed, [],
        storesOf ((openFrame cr transcriptHash state payload).run feed).result⟩ := by
  rw [openFrame, openFrameStores]
  cases hsplit : splitFrame payload with
  | error e => rfl
  | ok parts =>
    obtain ⟨sequenceBytes, ciphertext⟩ := parts
    simp only [ofExcept_ok, pure_bind]
    split_ifs with hseq
    · rfl
    · simp only [decrypt, note_bind]
      cases hdec : cr.decrypt state.cipher (makeNonce state.noncePrefix sequenceBytes)
          (makeAad state.direction sequenceBytes transcriptHash) ciphertext with
      | none => rfl
      | some plaintext =>
        cases hnext : checkedSucc state.sequence with
        | none => rfl
        | some next => rfl

variable (cr transcriptHash) in
/-- **The store happens exactly if the call succeeds.** A call of `receive` stores the next sequence
number and returns, or returns an error and stores nothing. -/
theorem receiveStores_run (state : DirectionState) (feed : Feed Error) :
    ((receiveStores cr transcriptHash state).run feed).result
        = ((receive cr transcriptHash state).run feed).result.map Prod.fst ∧
      ((receiveStores cr transcriptHash state).run feed).rest
        = ((receive cr transcriptHash state).run feed).rest ∧
      ((receiveStores cr transcriptHash state).run feed).notes
        = storesOf ((receive cr transcriptHash state).run feed).result := by
  rw [receiveStores, receive, run_bind, run_bind, run_silence]
  cases hread : (readFrame.run feed).result with
  | error e => simp [Run.andThen, hread, Except.map, storesOf]
  | ok payload =>
    obtain ⟨result, notes, hopen, -⟩ := openFrame_run cr transcriptHash state payload
      (readFrame.run feed).rest
    simp [Run.andThen, hread, openFrameStores_run, hopen]

/-- A call that fails leaves the sequence number, -/
theorem sequenceAfter_of_error {feed : Feed Error} {e : Error}
    (h : ((receive cr transcriptHash state).run feed).result = .error e) :
    sequenceAfter cr transcriptHash state feed = state.sequence := by
  obtain ⟨-, -, hnotes⟩ := receiveStores_run cr transcriptHash state feed
  rw [sequenceAfter, hnotes, h]
  rfl

/-- and one that succeeds leaves that of the state it returns. -/
theorem sequenceAfter_of_ok {feed : Feed Error} {plaintext : List UInt8} {state' : DirectionState}
    (h : ((receive cr transcriptHash state).run feed).result = .ok (plaintext, state')) :
    sequenceAfter cr transcriptHash state feed = state'.sequence := by
  obtain ⟨-, -, hnotes⟩ := receiveStores_run cr transcriptHash state feed
  rw [sequenceAfter, hnotes, h]
  rfl

/-! ### Replays -/

theorem encryptedFrame_inj {sequenceBytes sequenceBytes' : Bytes sequenceSize}
    {ciphertext ciphertext' : List UInt8}
    (h : encryptedFrame sequenceBytes ciphertext = encryptedFrame sequenceBytes' ciphertext') :
    sequenceBytes = sequenceBytes' ∧ ciphertext = ciphertext' := by
  rw [encryptedFrame, encryptedFrame, List.append_assoc, List.append_assoc] at h
  obtain ⟨hseq, hcipher⟩ := List.append_inj (List.append_cancel_left h) (by simp)
  exact ⟨Subtype.ext hseq, hcipher⟩

/-- A frame under another number, such as a replay of an earlier one, is not the next message. -/
theorem not_authentic_of_ne {sequence : UInt64} (hne : sequence ≠ state.sequence)
    (ciphertext : List UInt8) :
    ¬ Authentic cr transcriptHash state (encryptedFrame (toBeBytes sequence) ciphertext) := by
  rintro ⟨ciphertext', -, hframe, -⟩
  exact hne (toBeBytes_injective (encryptedFrame_inj hframe).1)

/-! ### Mixed streams -/

theorem startsWithFrame_of_frame {payload bytes after : List UInt8}
    (h : frame payload = .ok bytes) : StartsWithFrame (bytes ++ after) payload := by
  obtain ⟨hne, hle, rfl⟩ := frame_eq_ok h
  exact ⟨List.length_pos_iff.mpr hne, hle, List.prefix_append _ _⟩

/-- The genuine items are what a sender writes for its messages. -/
theorem Mixed.frames {items : List Item} {sent bytes : List UInt8} {final : UInt64}
    (h : Mixed cr transcriptHash state items sent bytes final) :
    Frames cr transcriptHash state (plaintextsOf items) sent final := by
  induction h with
  | nil state => exact .nil state
  | genuine hframe hnext _ ih => exact .cons hframe hnext ih
  | inserted _ _ _ _ ih => exact ih

/-- **Resynchronisation.** On any cut of a mixed stream, as many calls as it has frames return the
sender's messages in order, with an error for each of the other frames where it stands. -/
theorem receiveCalls_mixed (haead : cr.AeadCorrect) {items : List Item}
    {sent bytes after : List UInt8} {final : UInt64} {feed : Feed Error}
    (h : Mixed cr transcriptHash state items sent bytes final)
    (hcut : Cut (bytes ++ after) feed) :
    ∃ results feed' events, Cut after feed' ∧ List.Forall₂ Item.Outcome items results ∧
      receiveCalls cr transcriptHash items.length state feed =
        ⟨results, { state with sequence := final }, feed', events⟩ := by
  induction h generalizing feed with
  | nil state => exact ⟨[], feed, [], hcut, .nil, rfl⟩
  | genuine hframe hnext _ ih =>
    rw [List.append_assoc] at hcut
    obtain ⟨feed₁, notes, hcut₁, hcall⟩ := receive_run haead hframe hnext hcut
    obtain ⟨results, feed₂, events, hcut₂, hresults, hcalls⟩ := ih hcut₁
    refine ⟨.ok _ :: results, feed₂, notes ++ events, hcut₂, .cons rfl hresults, ?_⟩
    rw [List.length_cons, receiveCalls, hcall]
    simp only [hcalls]
  | @inserted state payload sent bytes items final hpos hle hnot _ ih =>
    rw [List.append_assoc] at hcut
    have hframe := frame_of_length (List.length_pos_iff.mp hpos) hle
    obtain ⟨result, feed₁, notes, hcall, hcut₁, hfails⟩ :=
      receive_rejects (startsWithFrame_of_frame hframe) hcut
    obtain ⟨e, rfl⟩ := hfails hnot
    have hlen : frameLengthSize + payload.length
        = (BigEndian.toBytes frameLengthSize payload.length ++ payload).length := by
      rw [List.length_append, BigEndian.length_toBytes]
    rw [hlen, List.drop_left] at hcut₁
    obtain ⟨results, feed₂, events, hcut₂, hresults, hcalls⟩ := ih hcut₁
    refine ⟨.error e :: results, feed₂, notes ++ events, hcut₂, .cons ⟨e, rfl⟩ hresults, ?_⟩
    rw [List.length_cons, receiveCalls, hcall]
    simp only [hcalls]

/-- **A rejected frame changes nothing but the read position.** A call of `receive` that returns an
error leaves the sequence number; and if the stream started with a frame, exactly that frame has
been consumed. So on any cut of a sender's stream with frames inserted that do not authenticate as
the message that is next, successive calls return all messages the sender has sent, in order, with
one error for each inserted frame. A frame under an earlier number is such a frame. And what was
said of the sequence number is said of the same function: with its store noted it returns and reads
the same, and it stores exactly if it succeeds. -/
theorem rejected_frames (haead : cr.AeadCorrect) (transcriptHash : Bytes transcriptHashSize) :
    (∀ state feed e, ((receive cr transcriptHash state).run feed).result = .error e →
      sequenceAfter cr transcriptHash state feed = state.sequence) ∧
    (∀ state bytes feed payload e, Cut bytes feed → StartsWithFrame bytes payload →
      ((receive cr transcriptHash state).run feed).result = .error e →
        Cut (bytes.drop (frameLengthSize + payload.length))
          ((receive cr transcriptHash state).run feed).rest) ∧
    (∀ (state : DirectionState) (items : List Item) (sent bytes : List UInt8) (final : UInt64),
      Mixed cr transcriptHash state items sent bytes final →
      (∀ feed, ∃ notes, (sendAll cr transcriptHash state (plaintextsOf items)).run feed =
        ⟨.ok { state with sequence := final }, feed, sent, notes⟩) ∧
      ∀ after feed, Cut (bytes ++ after) feed →
        ∃ results feed' events, Cut after feed' ∧ List.Forall₂ Item.Outcome items results ∧
          receiveCalls cr transcriptHash items.length state feed =
            ⟨results, { state with sequence := final }, feed', events⟩) ∧
    (∀ (state : DirectionState) (sequence : UInt64) (ciphertext : List UInt8),
      sequence < state.sequence →
      ¬ Authentic cr transcriptHash state (encryptedFrame (toBeBytes sequence) ciphertext)) ∧
    ∀ state feed,
      ((receiveStores cr transcriptHash state).run feed).result
          = ((receive cr transcriptHash state).run feed).result.map Prod.fst ∧
        ((receiveStores cr transcriptHash state).run feed).rest
          = ((receive cr transcriptHash state).run feed).rest ∧
        ((receiveStores cr transcriptHash state).run feed).notes
          = storesOf ((receive cr transcriptHash state).run feed).result := by
  refine ⟨fun state feed e h => sequenceAfter_of_error h, ?_, ?_, ?_,
    receiveStores_run cr transcriptHash⟩
  · intro state bytes feed payload e hcut hstarts _
    obtain ⟨result, feed', notes, hrun, hcut', -⟩ := receive_rejects hstarts hcut
    rwa [hrun]
  · intro state items sent bytes final hmixed
    exact ⟨sendAll_run hmixed.frames, fun after feed hcut => receiveCalls_mixed haead hmixed hcut⟩
  · intro state sequence ciphertext hlt
    refine not_authentic_of_ne ?_ ciphertext
    rintro rfl
    exact UInt64.lt_irrefl _ hlt

/-- A sender's second message behind a replay of its first and a frame that is too short. -/
theorem rejected_frames_replay :
    let state := (exampleClient 6 0).sendState
    let hash := (exampleClient 6 0).transcriptHash
    let replayed := encryptedFrame (toBeBytes 5) (List.replicate 16 0)
    let items := [Item.inserted replayed, .inserted [2], .genuine [104, 105]]
    ∃ sent bytes,
      (∀ feed, ∃ notes, (sendAll .transparent hash state [[104, 105]]).run feed =
        ⟨.ok { state with sequence := 7 }, feed, sent, notes⟩) ∧
      ∀ after feed, Cut (bytes ++ after) feed →
        ∃ results feed' events, Cut after feed' ∧ List.Forall₂ Item.Outcome items results ∧
          receiveCalls .transparent hash 3 state feed =
            ⟨results, { state with sequence := 7 }, feed', events⟩ := by
  intro state hash replayed items
  have hshort : ¬ Authentic .transparent hash state [2] := by
    rintro ⟨ciphertext, -, hframe, -⟩
    have hlen := congrArg List.length hframe
    rw [length_encryptedFrame] at hlen
    change 1 = 9 + ciphertext.length at hlen
    omega
  have hreplayed : ¬ Authentic .transparent hash state replayed :=
    (rejected_frames Crypto.transparent_aeadCorrect hash).2.2.2.1 state 5 _ (by decide)
  obtain ⟨frame, hframe⟩ := exists_isFrameOf Crypto.transparent_aeadCorrect hash state
    (show ([104, 105] : List UInt8).length ≤ maxPlaintextSize by decide)
  have hmixed : Mixed .transparent hash state items _ _ 7 :=
    .inserted (by decide) (by decide) hreplayed
      (.inserted (by decide) (by decide) hshort (.genuine hframe (by decide) (.nil _)))
  exact ⟨_, _, (rejected_frames Crypto.transparent_aeadCorrect hash).2.2.1 state items _ _ 7 hmixed⟩

end Security

end Taunicorn
