import Taunicorn.Lib.StreamProgram
import Taunicorn.Security.Crypto

/-!
# Framing

`read_exact`, `read_frame` and `write_frame`: one length-prefixed message over an ordered byte
stream.

A read of the transport returns whatever is there, so reassembly is a loop over reads and its
outcome must not depend on where the transport cuts the stream. `readFrame_run` says so: on any
cut of a frame followed by other bytes, the frame is returned and a cut of the other bytes is
left.

## Main results

* `readLoop_run` — the reassembly loop, on any cut
* `readFrame_run` — a frame comes back whole
* `readFrame_silent` — framing calls no primitive
-/

namespace Taunicorn

namespace Security

open StreamProg

/-- A program of the secure layer. -/
abbrev Prog := StreamProg Error Event

/-! ### Reading -/

/-- The loop of `read_exact`, with `got` collected so far. Every pass collects at least one byte,
so `size` passes are enough and the fuel never decides. The offset cannot overflow, since it never
passes `size`. -/
def readLoop (size : ℕ) : ℕ → List UInt8 → Prog (List UInt8)
  | 0, got => .pure got
  | fuel + 1, got =>
    if got.length < size then
      .receive (size - got.length) fun
        | .data [] => .fail (.msg "zero-length transport read while awaiting frame data")
        | .data chunk => readLoop size fuel (got ++ chunk)
        | .endOfStream => .fail (.msg "connection closed while reading a frame")
    else .pure got

/-- Reassemble exactly `size` bytes. -/
def readExact (size : ℕ) : Prog (List UInt8) := readLoop size size []

/-- Read one frame: a 32-bit big-endian length, then that many bytes. -/
def readFrame : Prog (List UInt8) := do
  let header ← readExact frameLengthSize
  let size := BigEndian.ofBytes header
  if size = 0 then
    .fail (.msg "zero-length frame is invalid")
  else if size > maxFrameSize then
    .fail (.msg s!"frame exceeds maximum size: {size} > {maxFrameSize}")
  else
    readExact size

/-! ### Writing -/

/-- The frame `write_frame` submits, or its error. A length within the limit fits into a `u32`. -/
def frame (payload : List UInt8) : Except Error (List UInt8) :=
  if payload.isEmpty then .error (.msg "zero-length frame is invalid")
  else if payload.length > maxFrameSize then
    .error (.msg s!"frame exceeds maximum size: {payload.length} > {maxFrameSize}")
  else .ok (BigEndian.toBytes frameLengthSize payload.length ++ payload)

/-- Write one frame, prefix and payload in one transport operation. -/
def writeFrame (payload : List UInt8) : Prog Unit := do
  let bytes ← ofExcept (frame payload)
  .send bytes (.pure ())

/-! ### Reassembly does not see the cuts -/

/-- One pass of the loop collects a part of what is there, and not more than is missing. -/
theorem readLoop_pass {size fuel : ℕ} {got bytes : List UInt8} {feed : Feed Error}
    (hlt : got.length < size) (hne : bytes ≠ []) (hcut : Cut bytes feed) :
    ∃ chunk rest feed', bytes = chunk ++ rest ∧ 0 < chunk.length ∧
      got.length + chunk.length ≤ size ∧ Cut rest feed' ∧
      (readLoop size (fuel + 1) got).run feed = (readLoop size fuel (got ++ chunk)).run feed' := by
  obtain ⟨chunk, rest, feed', hbytes, hchunk, hle, hcut', hrun⟩ :=
    hcut.receive hne (show 0 < size - got.length by omega)
      (fun
        | .data [] => .fail (.msg "zero-length transport read while awaiting frame data")
        | .data chunk => readLoop size fuel (got ++ chunk)
        | .endOfStream => .fail (.msg "connection closed while reading a frame"))
  refine ⟨chunk, rest, feed', hbytes, List.length_pos_iff.mpr hchunk, by omega, hcut', ?_⟩
  rw [readLoop, if_pos hlt, hrun]
  cases chunk with
  | nil => exact absurd rfl hchunk
  | cons b chunk => rfl

/-- **The loop, on any cut.** With enough fuel for the bytes that are missing, they are collected
and a cut of what follows is left. -/
theorem readLoop_run {size fuel : ℕ} {got missing after : List UInt8} {feed : Feed Error}
    (hsize : got.length + missing.length = size) (hfuel : missing.length ≤ fuel)
    (hcut : Cut (missing ++ after) feed) :
    ∃ feed', Cut after feed' ∧
      (readLoop size fuel got).run feed = ⟨.ok (got ++ missing), feed', [], []⟩ := by
  induction fuel generalizing got missing feed with
  | zero =>
    obtain rfl : missing = [] := List.length_eq_zero_iff.mp (by omega)
    exact ⟨feed, hcut, by simp [readLoop, run]⟩
  | succ fuel ih =>
    by_cases hmissing : missing = []
    · subst hmissing
      refine ⟨feed, hcut, ?_⟩
      have hnot : ¬ got.length < size := by simp at hsize; omega
      simp [readLoop, hnot, run]
    · have hpos : 0 < missing.length := List.length_pos_iff.mpr hmissing
      obtain ⟨chunk, rest, feed', hbytes, hlen, hle, hcut', hrun⟩ :=
        readLoop_pass (show got.length < size by omega) (by simp [hmissing]) hcut
      -- the read asked for no more than the missing bytes, so the chunk lies inside them
      obtain ⟨later, rfl, rfl⟩ : ∃ later, missing = chunk ++ later ∧ rest = later ++ after := by
        rcases List.append_eq_append_iff.mp hbytes with ⟨x, hx, hy⟩ | ⟨x, hx, hy⟩
        · have hlen := congrArg List.length hx
          simp only [List.length_append] at hlen
          obtain rfl : x = [] := List.length_eq_zero_iff.mp (by omega)
          exact ⟨[], by simpa using hx.symm, by simpa using hy.symm⟩
        · exact ⟨x, hx, hy⟩
      simp only [List.length_append] at hsize hfuel
      obtain ⟨feed'', hcut'', hloop⟩ := ih (show (got ++ chunk).length + later.length = size by
        rw [List.length_append]; omega) (by omega) hcut'
      refine ⟨feed'', hcut'', ?_⟩
      rw [hrun, hloop, List.append_assoc]

theorem readExact_run {wanted after : List UInt8} {feed : Feed Error}
    (hcut : Cut (wanted ++ after) feed) :
    ∃ feed', Cut after feed' ∧
      (readExact wanted.length).run feed = ⟨.ok wanted, feed', [], []⟩ :=
  readLoop_run (by simp) le_rfl hcut

/-- A stream that has ended gives no byte. -/
theorem readExact_run_nil {size : ℕ} (h : 0 < size) :
    (readExact size).run [] =
      ⟨.error (.msg "connection closed while reading a frame"), [], [], []⟩ := by
  obtain ⟨n, rfl⟩ := Nat.exists_eq_succ_of_ne_zero h.ne'
  simp [readExact, readLoop, run]

theorem readFrame_run_nil :
    readFrame.run [] = ⟨.error (.msg "connection closed while reading a frame"), [], [], []⟩ := by
  rw [readFrame, run_bind, readExact_run_nil (by decide)]
  rfl

theorem frame_eq_ok {payload bytes : List UInt8} (h : frame payload = .ok bytes) :
    payload ≠ [] ∧ payload.length ≤ maxFrameSize ∧
      bytes = BigEndian.toBytes frameLengthSize payload.length ++ payload := by
  rw [frame] at h
  split_ifs at h with hempty hlong
  exact ⟨by simpa using hempty, Nat.le_of_not_lt hlong, (Except.ok.inj h).symm⟩

theorem frame_of_length {payload : List UInt8} (hne : payload ≠ [])
    (hle : payload.length ≤ maxFrameSize) :
    frame payload = .ok (BigEndian.toBytes frameLengthSize payload.length ++ payload) := by
  rw [frame, if_neg (by simpa using hne), if_neg (Nat.not_lt.mpr hle)]

/-- **A frame comes back whole.** On any cut of a frame and what follows it, reading returns the
payload and leaves a cut of what follows. -/
theorem readFrame_run {payload bytes after : List UInt8} {feed : Feed Error}
    (hframe : frame payload = .ok bytes) (hcut : Cut (bytes ++ after) feed) :
    ∃ feed', Cut after feed' ∧ readFrame.run feed = ⟨.ok payload, feed', [], []⟩ := by
  obtain ⟨hne, hle, rfl⟩ := frame_eq_ok hframe
  have hbound : payload.length < 256 ^ frameLengthSize :=
    Nat.lt_of_le_of_lt hle (by norm_num)
  rw [List.append_assoc] at hcut
  obtain ⟨feed₁, hcut₁, hheader⟩ := readExact_run hcut
  obtain ⟨feed₂, hcut₂, hbody⟩ := readExact_run hcut₁
  rw [BigEndian.length_toBytes] at hheader
  have hpos : payload.length ≠ 0 := by simpa using hne
  refine ⟨feed₂, hcut₂, ?_⟩
  rw [readFrame, run_bind, hheader]
  simp only [Run.andThen, BigEndian.ofBytes_toBytes hbound, hpos, if_false, gt_iff_lt,
    Nat.not_lt.mpr hle, hbody, List.append_nil]

/-! ### Framing calls no primitive -/

theorem readLoop_silent (size fuel : ℕ) (got : List UInt8) : (readLoop size fuel got).Silent := by
  induction fuel generalizing got with
  | zero => trivial
  | succ fuel ih =>
    rw [readLoop]
    split
    · rintro ((_ | ⟨b, chunk⟩) | _)
      · trivial
      · exact ih _
      · trivial
    · trivial

theorem readFrame_silent : readFrame.Silent := by
  refine (readLoop_silent _ _ _).bind fun header => ?_
  dsimp only
  split_ifs
  · trivial
  · trivial
  · exact readLoop_silent _ _ _

theorem writeFrame_silent (payload : List UInt8) : (writeFrame payload).Silent :=
  (silent_ofExcept _).bind fun _ => trivial

end Security

end Taunicorn
