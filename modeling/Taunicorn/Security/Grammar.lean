import Taunicorn.Security.Framing

/-!
# The grammar of a frame

`Framing` shows that a frame comes back whole. Here is the converse and everything between: what
`read_frame` returns and consumes on an arbitrary byte stream, when `write_frame` succeeds, and how
the loop of `read_exact` behaves.

What the loop allocates and where its offset stands is not visible in its result, so the readers
are written down a second time with these steps noted. `readFrameSteps_silence` says that the notes
are the only difference.

## Main results

* `readFrame_cases` — every byte stream, on any cut
* `readLoop_fuel` — the fuel of the loop never decides
* `readLoopSteps_bounds` — passes and offsets of the loop
* `framing_exact` — framing accepts exactly its grammar
-/

namespace Taunicorn

namespace Security

open StreamProg

/-! ### The steps of a reader -/

/-- What the readers do besides returning: allocate a buffer, evaluate the loop condition with some
offset, call the transport. -/
inductive ReadStep where
  | allocate (size : ℕ)
  | offset (offset : ℕ)
  | receive
  deriving DecidableEq

/-- The loop of `read_exact`, with its steps noted. -/
def readLoopSteps (size : ℕ) : ℕ → List UInt8 → StreamProg Error ReadStep (List UInt8)
  | 0, got => .note (.offset got.length) (.pure got)
  | fuel + 1, got =>
    .note (.offset got.length) <|
      if got.length < size then
        .note .receive <| .receive (size - got.length) fun
          | .data [] => .fail (.msg "zero-length transport read while awaiting frame data")
          | .data chunk => readLoopSteps size fuel (got ++ chunk)
          | .endOfStream => .fail (.msg "connection closed while reading a frame")
      else .pure got

/-- `read_exact`, with its steps noted. -/
def readExactSteps (size : ℕ) : StreamProg Error ReadStep (List UInt8) :=
  .note (.allocate size) (readLoopSteps size size [])

/-- `read_frame`, with its steps noted. -/
def readFrameSteps : StreamProg Error ReadStep (List UInt8) := do
  let header ← readExactSteps frameLengthSize
  let size := BigEndian.ofBytes header
  if size = 0 then
    .fail (.msg "zero-length frame is invalid")
  else if size > maxFrameSize then
    .fail (.msg s!"frame exceeds maximum size: {size} > {maxFrameSize}")
  else
    readExactSteps size

theorem readLoopSteps_silence (size fuel : ℕ) (got : List UInt8) :
    (readLoopSteps size fuel got).silence = readLoop size fuel got := by
  induction fuel generalizing got with
  | zero => rfl
  | succ fuel ih =>
    rw [readLoopSteps, readLoop, silence]
    split
    · rw [silence, silence]
      congr 1
      funext r
      rcases r with (_ | ⟨b, chunk⟩) | _
      · rfl
      · exact ih _
      · rfl
    · rfl

theorem readExactSteps_silence (size : ℕ) : (readExactSteps size).silence = readExact size :=
  readLoopSteps_silence size size []

/-- The notes are the only difference between the two readers. -/
theorem readFrameSteps_silence : readFrameSteps.silence = readFrame := by
  rw [readFrameSteps, silence_bind, readExactSteps_silence, readFrame]
  congr 1
  funext header
  dsimp only
  split_ifs
  · rfl
  · rfl
  · exact readExactSteps_silence _

/-! ### The loop -/

/-- **The fuel never decides.** Every pass collects a byte, so any two amounts of fuel that cover
the missing bytes give the same program. -/
theorem readLoop_fuel {size fuel fuel' : ℕ} {got : List UInt8} (h : size ≤ got.length + fuel)
    (h' : size ≤ got.length + fuel') : readLoop size fuel got = readLoop size fuel' got := by
  induction fuel generalizing got fuel' with
  | zero =>
    have hnot : ¬ got.length < size := by omega
    cases fuel' with
    | zero => rfl
    | succ fuel' => rw [readLoop, readLoop, if_neg hnot]
  | succ fuel ih =>
    cases fuel' with
    | zero =>
      have hnot : ¬ got.length < size := by omega
      rw [readLoop, readLoop, if_neg hnot]
    | succ fuel' =>
      rw [readLoop, readLoop]
      split
      · congr 1
        funext r
        rcases r with (_ | ⟨b, chunk⟩) | _
        · rfl
        · refine ih ?_ ?_ <;> rw [List.length_append, List.length_cons] <;> omega
        · rfl
      · rfl

/-- **Passes and offsets.** Whatever the transport delivers, the loop reads at most once for every
missing byte, its offset never passes `size`, and it returns only when the buffer is full. -/
theorem readLoopSteps_bounds {size fuel : ℕ} {got : List UInt8} (hgot : got.length ≤ size)
    (hfuel : size ≤ got.length + fuel) (feed : Feed Error) :
    got.length + ((readLoopSteps size fuel got).run feed).notes.count .receive ≤ size ∧
      (∀ step ∈ ((readLoopSteps size fuel got).run feed).notes,
        step = .receive ∨ ∃ o ≤ size, step = .offset o) ∧
      ∀ bytes, ((readLoopSteps size fuel got).run feed).result = .ok bytes →
        bytes.length = size := by
  induction fuel generalizing got feed with
  | zero =>
    have hlen : got.length = size := by omega
    refine ⟨by simpa [readLoopSteps, run] using hgot, ?_, ?_⟩
    · intro step hstep
      exact Or.inr ⟨got.length, hgot, by simpa [readLoopSteps, run] using hstep⟩
    · intro bytes hbytes
      obtain rfl : got = bytes := by simpa [readLoopSteps, run] using hbytes
      exact hlen
  | succ fuel ih =>
    rw [readLoopSteps]
    by_cases hlt : got.length < size
    · rw [if_pos hlt]
      rcases feed with _ | ⟨e | chunk, feed⟩
      · simp [run]
        omega
      · simp [run]
        omega
      · simp only [run]
        cases htake : chunk.take (size - got.length) with
        | nil =>
          simp [run]
          omega
        | cons b rest =>
          have hle : (b :: rest).length ≤ size - got.length := by
            rw [← htake]
            exact List.length_take_le _ _
          rw [List.length_cons] at hle
          obtain ⟨hcount, hsteps, hresult⟩ := @ih (got ++ b :: rest)
            (by rw [List.length_append, List.length_cons]; omega)
            (by rw [List.length_append, List.length_cons]; omega)
            (leftover (size - got.length) chunk feed)
          rw [List.length_append, List.length_cons] at hcount
          refine ⟨?_, ?_, hresult⟩
          · simp only [List.count_cons, reduceCtorEq, beq_iff_eq, if_false, if_true]
            omega
          · intro step hstep
            rcases List.mem_cons.mp hstep with rfl | hstep
            · exact Or.inr ⟨got.length, hgot, rfl⟩
            · rcases List.mem_cons.mp hstep with rfl | hstep
              · exact Or.inl rfl
              · exact hsteps step hstep
    · rw [if_neg hlt]
      simp [run]
      omega

theorem readExactSteps_bounds (size : ℕ) (feed : Feed Error) :
    ((readLoopSteps size size []).run feed).notes.count .receive ≤ size ∧
      (∀ step ∈ ((readLoopSteps size size []).run feed).notes,
        step = .receive ∨ ∃ o ≤ size, step = .offset o) ∧
      ∀ bytes, ((readLoopSteps size size []).run feed).result = .ok bytes →
        bytes.length = size := by
  have hbounds := @readLoopSteps_bounds size size [] (Nat.zero_le size) (by simp) feed
  rwa [List.length_nil, Nat.zero_add] at hbounds

/-! ### Every stream, on any cut -/

/-- The loop on a stream that ends before it has what it wants. -/
theorem readLoop_run_short {size fuel : ℕ} {got missing : List UInt8} {feed : Feed Error}
    (hshort : got.length + missing.length < size) (hfuel : missing.length < fuel)
    (hcut : Cut missing feed) :
    (readLoop size fuel got).run feed =
      ⟨.error (.msg "connection closed while reading a frame"), [], [], []⟩ := by
  induction fuel generalizing got missing feed with
  | zero => omega
  | succ fuel ih =>
    have hlt : got.length < size := by omega
    by_cases hmissing : missing = []
    · subst hmissing
      rw [hcut.eq_nil, readLoop, if_pos hlt]
      rfl
    · obtain ⟨chunk, rest, feed', rfl, hlen, -, hcut', hrun⟩ :=
        readLoop_pass hlt hmissing hcut
      rw [List.length_append] at hshort hfuel
      rw [hrun]
      exact ih (by rw [List.length_append]; omega) (by omega) hcut'

theorem readExact_run_short {size : ℕ} {bytes : List UInt8} {feed : Feed Error}
    (hshort : bytes.length < size) (hcut : Cut bytes feed) :
    (readExact size).run feed =
      ⟨.error (.msg "connection closed while reading a frame"), [], [], []⟩ :=
  readLoop_run_short (by simpa using hshort) hshort hcut

/-- A stream starts with the frame of a payload: its length in four bytes, then the payload, which
is neither empty nor beyond the limit. -/
def StartsWithFrame (bytes payload : List UInt8) : Prop :=
  1 ≤ payload.length ∧ payload.length ≤ maxFrameSize ∧
    BigEndian.toBytes frameLengthSize payload.length ++ payload <+: bytes

/-- The length field of a stream is one that no frame has. -/
def BadLength (bytes : List UInt8) : Prop :=
  frameLengthSize ≤ bytes.length ∧
    (BigEndian.ofBytes (bytes.take frameLengthSize) = 0 ∨
      maxFrameSize < BigEndian.ofBytes (bytes.take frameLengthSize))

/-- A stream ends before its length field does, or before as many bytes as it announces. -/
def Truncated (bytes : List UInt8) : Prop :=
  bytes.length < frameLengthSize + BigEndian.ofBytes (bytes.take frameLengthSize)

/-- `read_frame` behind the header it has read. -/
theorem readFrame_run_header {bytes : List UInt8} {feed : Feed Error}
    (hlen : frameLengthSize ≤ bytes.length) (hcut : Cut bytes feed) :
    ∃ feed', Cut (bytes.drop frameLengthSize) feed' ∧
      (readExact frameLengthSize).run feed = ⟨.ok (bytes.take frameLengthSize), feed', [], []⟩ ∧
      readFrame.run feed =
        (if BigEndian.ofBytes (bytes.take frameLengthSize) = 0 then
          .fail (.msg "zero-length frame is invalid")
        else if BigEndian.ofBytes (bytes.take frameLengthSize) > maxFrameSize then
          .fail (.msg (s!"frame exceeds maximum size: "
            ++ s!"{BigEndian.ofBytes (bytes.take frameLengthSize)} > {maxFrameSize}"))
        else readExact (BigEndian.ofBytes (bytes.take frameLengthSize)) :
          Prog (List UInt8)).run feed' := by
  have htake : (bytes.take frameLengthSize).length = frameLengthSize := by
    rw [List.length_take]
    omega
  rw [← List.take_append_drop frameLengthSize bytes] at hcut
  obtain ⟨feed', hcut', hrun⟩ := readExact_run hcut
  rw [htake] at hrun
  refine ⟨feed', hcut', hrun, ?_⟩
  rw [readFrame, run_bind, hrun]
  rfl

/-- **Every byte stream, on any cut.** A frame is returned and what follows it is left. A length
field that no frame has is all that is consumed. A stream that ends too early is consumed whole. -/
theorem readFrame_cases {bytes : List UInt8} {feed : Feed Error} (hcut : Cut bytes feed) :
    (∃ payload feed', StartsWithFrame bytes payload ∧
        Cut (bytes.drop (frameLengthSize + payload.length)) feed' ∧
        readFrame.run feed = ⟨.ok payload, feed', [], []⟩) ∨
      (∃ e feed', BadLength bytes ∧ Cut (bytes.drop frameLengthSize) feed' ∧
        readFrame.run feed = ⟨.error e, feed', [], []⟩) ∨
      (¬ BadLength bytes ∧ Truncated bytes ∧ readFrame.run feed =
        ⟨.error (.msg "connection closed while reading a frame"), [], [], []⟩) := by
  by_cases hlen : frameLengthSize ≤ bytes.length
  · obtain ⟨feed', hcut', -, hrun⟩ := readFrame_run_header hlen hcut
    set size := BigEndian.ofBytes (bytes.take frameLengthSize) with hsize
    by_cases hzero : size = 0
    · rw [if_pos hzero] at hrun
      exact Or.inr (Or.inl ⟨_, feed', ⟨hlen, Or.inl hzero⟩, hcut', hrun⟩)
    · rw [if_neg hzero] at hrun
      by_cases hlarge : size > maxFrameSize
      · rw [if_pos hlarge] at hrun
        exact Or.inr (Or.inl ⟨_, feed', ⟨hlen, Or.inr hlarge⟩, hcut', hrun⟩)
      · rw [if_neg hlarge] at hrun
        by_cases hshort : (bytes.drop frameLengthSize).length < size
        · refine Or.inr (Or.inr ⟨?_, ?_, hrun.trans (readExact_run_short hshort hcut')⟩)
          · rintro ⟨-, hbad⟩
            exact hbad.elim hzero hlarge
          · rw [List.length_drop] at hshort
            rw [Truncated, ← hsize]
            omega
        · -- the header and the payload it announces, and what follows them
          have hpayload : ((bytes.drop frameLengthSize).take size).length = size := by
            rw [List.length_take]
            omega
          have hheader : BigEndian.toBytes frameLengthSize size = bytes.take frameLengthSize := by
            have htake : (bytes.take frameLengthSize).length = frameLengthSize := by
              rw [List.length_take]
              omega
            have hround := BigEndian.toBytes_ofBytes (bytes.take frameLengthSize)
            rwa [htake, ← hsize] at hround
          have hsplit := List.take_append_drop size (bytes.drop frameLengthSize)
          rw [← hsplit] at hcut'
          obtain ⟨feed'', hcut'', hbody⟩ := readExact_run hcut'
          rw [hpayload] at hbody
          refine Or.inl ⟨(bytes.drop frameLengthSize).take size, feed'', ⟨?_, ?_, ?_⟩, ?_,
            hrun.trans hbody⟩
          · omega
          · omega
          · rw [hpayload, hheader, ← List.take_add]
            exact List.take_prefix _ _
          · rwa [hpayload, ← List.drop_drop]
  · have hshort : bytes.length < frameLengthSize := by omega
    refine Or.inr (Or.inr ⟨fun hbad => hlen hbad.1, by rw [Truncated]; omega, ?_⟩)
    rw [readFrame, run_bind, readExact_run_short hshort hcut]
    rfl

theorem StartsWithFrame.length {bytes payload : List UInt8} (h : StartsWithFrame bytes payload) :
    frameLengthSize + payload.length ≤ bytes.length ∧
      BigEndian.ofBytes (bytes.take frameLengthSize) = payload.length ∧
      payload = (bytes.drop frameLengthSize).take payload.length := by
  obtain ⟨-, hle, after, rfl⟩ := h
  have hheader : (BigEndian.toBytes frameLengthSize payload.length).length = frameLengthSize :=
    BigEndian.length_toBytes _ _
  have hbound : payload.length < 256 ^ frameLengthSize := Nat.lt_of_le_of_lt hle (by norm_num)
  rw [List.append_assoc]
  refine ⟨?_, ?_, ?_⟩
  · simp only [List.length_append, hheader]
    omega
  · rw [List.take_left' hheader, BigEndian.ofBytes_toBytes hbound]
  · rw [List.drop_left' hheader, List.take_left]

/-- A stream starts with one frame at most. -/
theorem StartsWithFrame.unique {bytes p q : List UInt8} (hp : StartsWithFrame bytes p)
    (hq : StartsWithFrame bytes q) : p = q := by
  obtain ⟨-, hsize, hfield⟩ := hp.length
  obtain ⟨-, hsize', hfield'⟩ := hq.length
  rw [hfield, hfield', ← hsize, ← hsize']

theorem StartsWithFrame.not_badLength {bytes payload : List UInt8}
    (h : StartsWithFrame bytes payload) : ¬ BadLength bytes := by
  rintro ⟨-, hbad⟩
  obtain ⟨-, hsize, -⟩ := h.length
  obtain ⟨hpos, hle, -⟩ := h
  omega

theorem StartsWithFrame.not_truncated {bytes payload : List UInt8}
    (h : StartsWithFrame bytes payload) : ¬ Truncated bytes := by
  obtain ⟨hlen, hsize, -⟩ := h.length
  rw [Truncated, hsize]
  omega

/-! ### What is allocated -/

/-- `read_exact` allocates once, its buffer. -/
theorem allocate_of_readExactSteps {size n : ℕ} {feed : Feed Error}
    (h : .allocate n ∈ ((readExactSteps size).run feed).notes) : n = size := by
  rcases List.mem_cons.mp h with h | h
  · exact ReadStep.allocate.inj h
  · obtain ⟨-, hsteps, -⟩ := readExactSteps_bounds size feed
    rcases hsteps _ h with h | ⟨o, -, h⟩
    · exact absurd h (by simp)
    · exact absurd h (by simp)

/-- No buffer is allocated for a length that no frame has. -/
theorem allocate_of_badLength {bytes : List UInt8} {feed : Feed Error} (hcut : Cut bytes feed)
    (hbad : BadLength bytes) {n : ℕ} (h : .allocate n ∈ (readFrameSteps.run feed).notes) :
    n = frameLengthSize := by
  obtain ⟨hlen, hsize⟩ := hbad
  obtain ⟨feed', -, hheader, -⟩ := readFrame_run_header hlen hcut
  have hresult : ((readExactSteps frameLengthSize).run feed).result
      = .ok (bytes.take frameLengthSize) := by
    have hrun :
        ((readExactSteps frameLengthSize).silence : StreamProg Error Event _).run feed = _ :=
      run_silence (readExactSteps frameLengthSize) feed
    rw [readExactSteps_silence, hheader] at hrun
    exact (congrArg Run.result hrun).symm
  rw [readFrameSteps, run_bind, Run.andThen, hresult] at h
  dsimp only at h
  -- the length is refused by one of the two checks, before a second buffer
  rcases hsize with hzero | hlarge
  · rw [if_pos hzero] at h
    exact allocate_of_readExactSteps (by simpa [run] using h)
  · have hne : BigEndian.ofBytes (bytes.take frameLengthSize) ≠ 0 := by omega
    rw [if_neg hne, if_pos hlarge] at h
    exact allocate_of_readExactSteps (by simpa [run] using h)

/-! ### Writing -/

theorem writeFrame_run_ok {payload bytes : List UInt8} (h : frame payload = .ok bytes)
    (feed : Feed Error) : (writeFrame payload).run feed = ⟨.ok (), feed, bytes, []⟩ := by
  simp [writeFrame, h, run]

/-- On a transport that accepts everything, writing succeeds exactly within the limits. -/
theorem writeFrame_ok_iff (payload : List UInt8) (feed : Feed Error) :
    ((writeFrame payload).run feed).result = .ok () ↔
      1 ≤ payload.length ∧ payload.length ≤ maxFrameSize := by
  constructor
  · intro h
    cases hframe : frame payload with
    | error e => simp [writeFrame, hframe, run] at h
    | ok bytes =>
      obtain ⟨hne, hle, -⟩ := frame_eq_ok hframe
      exact ⟨List.length_pos_iff.mpr hne, hle⟩
  · rintro ⟨hpos, hle⟩
    rw [writeFrame_run_ok (frame_of_length (List.length_pos_iff.mp hpos) hle)]

/-! ### The grammar -/

/-- **Framing accepts exactly its grammar.** On any cut of any byte stream, `read_frame` returns a
payload exactly if the stream starts with its frame, and has then consumed the frame; otherwise it
returns an error, having consumed and allocated no body if the length is one that no frame has, and
having met the end of the stream if it has not. Writing succeeds exactly within the limits, and
what it writes is read back whole, whatever follows. The loop of `read_exact` needs no more passes
than bytes, and its offset stays within the buffer, whatever the transport does. -/
theorem framing_exact :
    (∀ (bytes : List UInt8) (feed : Feed Error), Cut bytes feed →
      (∀ payload, (readFrame.run feed).result = .ok payload ↔ StartsWithFrame bytes payload) ∧
      (∀ payload, (readFrame.run feed).result = .ok payload →
        Cut (bytes.drop (frameLengthSize + payload.length)) (readFrame.run feed).rest) ∧
      ∀ e, (readFrame.run feed).result = .error e →
        (BadLength bytes ∧ Cut (bytes.drop frameLengthSize) (readFrame.run feed).rest ∧
          ∀ n, .allocate n ∈ (readFrameSteps.run feed).notes → n = frameLengthSize) ∨
        (¬ BadLength bytes ∧ Truncated bytes ∧ (readFrame.run feed).rest = [])) ∧
    (∀ payload feed, ((writeFrame payload).run feed).result = .ok () ↔
      1 ≤ payload.length ∧ payload.length ≤ maxFrameSize) ∧
    (∀ (payload after : List UInt8) (feed feed' : Feed Error),
      ((writeFrame payload).run feed).result = .ok () →
      Cut (((writeFrame payload).run feed).sent ++ after) feed' →
        (readFrame.run feed').result = .ok payload ∧ Cut after (readFrame.run feed').rest) ∧
    ∀ (size : ℕ) (feed : Feed Error),
      ((readExactSteps size).run feed).notes.count .receive ≤ size ∧
      (∀ o, .offset o ∈ ((readExactSteps size).run feed).notes → o ≤ size) ∧
      (∀ fuel, size ≤ fuel → readLoop size fuel [] = readExact size) ∧
      (readExactSteps size).silence = readExact size ∧ readFrameSteps.silence = readFrame := by
  refine ⟨?_, writeFrame_ok_iff, ?_, ?_⟩
  · intro bytes feed hcut
    rcases readFrame_cases hcut with ⟨payload, feed', hstarts, hcut', hrun⟩ |
      ⟨e, feed', hbad, hcut', hrun⟩ | ⟨hgood, hshort, hrun⟩
    · rw [hrun]
      refine ⟨fun p => ⟨?_, ?_⟩, ?_, ?_⟩
      · intro hp
        rwa [← Except.ok.inj hp]
      · intro hp
        rw [hstarts.unique hp]
      · intro p hp
        rwa [← Except.ok.inj hp]
      · intro e he
        exact absurd he (by simp)
    · rw [hrun]
      refine ⟨fun p => ⟨?_, ?_⟩, ?_, ?_⟩
      · intro hp
        exact absurd hp (by simp)
      · intro hp
        exact absurd hbad hp.not_badLength
      · intro p hp
        exact absurd hp (by simp)
      · intro _ _
        exact Or.inl ⟨hbad, hcut', fun n => allocate_of_badLength hcut hbad⟩
    · rw [hrun]
      refine ⟨fun p => ⟨?_, ?_⟩, ?_, ?_⟩
      · intro hp
        exact absurd hp (by simp)
      · intro hp
        exact absurd hshort hp.not_truncated
      · intro p hp
        exact absurd hp (by simp)
      · intro _ _
        exact Or.inr ⟨hgood, hshort, rfl⟩
  · intro payload after feed feed' hok hcut
    obtain ⟨hpos, hle⟩ := (writeFrame_ok_iff payload feed).mp hok
    have hframe := frame_of_length (List.length_pos_iff.mp hpos) hle
    rw [writeFrame_run_ok hframe] at hcut
    obtain ⟨feed'', hcut', hrun⟩ := readFrame_run hframe hcut
    rw [hrun]
    exact ⟨rfl, hcut'⟩
  · intro size feed
    obtain ⟨hcount, hsteps, -⟩ := readExactSteps_bounds size feed
    refine ⟨?_, ?_, ?_, readExactSteps_silence size, readFrameSteps_silence⟩
    · simpa [readExactSteps, run] using hcount
    · intro o ho
      rcases List.mem_cons.mp ho with ho | ho
      · exact absurd ho (by simp)
      · rcases hsteps _ ho with ho | ⟨o', hle, ho⟩
        · exact absurd ho (by simp)
        · rwa [ReadStep.offset.inj ho]
    · intro fuel hfuel
      exact readLoop_fuel (by simpa using hfuel) (by simp)

/-- A frame cut in the middle of its length and of its payload, with a byte behind it. -/
def splitFeed : Feed Error := [.ok [0, 0], .ok [0, 2, 7], .ok [8, 9]]

theorem framing_exact_split :
    ((writeFrame [7, 8]).run []).result = .ok () ∧
      (readFrame.run splitFeed).result = .ok [7, 8] ∧ Cut [9] (readFrame.run splitFeed).rest := by
  obtain ⟨hreads, hwrites, -⟩ := framing_exact
  have hcut : Cut ([0, 0] ++ ([0, 2, 7] ++ ([8, 9] ++ []))) splitFeed :=
    .cons (by simp) (.cons (by simp) (.cons (by simp) .nil))
  have hstarts : StartsWithFrame [0, 0, 0, 2, 7, 8, 9] [7, 8] :=
    ⟨by decide, by decide, [9], rfl⟩
  obtain ⟨hread, hrest, -⟩ := hreads _ splitFeed hcut
  have hok := (hread [7, 8]).mpr hstarts
  exact ⟨(hwrites [7, 8] []).mpr ⟨by decide, by decide⟩, hok, hrest _ hok⟩

end Security

end Taunicorn
