import Taunicorn.Transport.Core

/-!
# What one step of a call can do

`Polled` lists the steps of a call, each with the condition under which it is taken, and
`polled_of_poll` says that there are no others. Every invariant of the connection is derived from
this list and not from the step function.

## Main results

* `polled_of_poll` — the list is complete
* `Polled.place` — how a step moves a call at the write gate
* `Polled.sound` — what a call has handed over, at every program counter
* `Polled.past` — a writing call reaches the raw stream only through the checks behind the gate
* `forall_calls_of_runs` — what every step of a call keeps holds of every call
-/

namespace Taunicorn

namespace Transport

open FifoMutex

variable {ι : Type}

/-- The operations that hand over their whole buffer or fail. -/
def Op.whole : Op → Bool
  | .send _ => true
  | .sendTimeout _ _ => true
  | _ => false

/-- `Polled sh id op pc w effect pc' w'`: a call of `op` at `pc`, with `w` bytes handed over, can
step to `pc'` and `w'`. -/
inductive Polled (sh : Shared ι) (id : ι) (op : Op) : PC → ℕ → Effect → PC → ℕ → Prop
  | entered {w : ℕ} : Polled sh id op .start w .none op.enter w
  | eof {w : ℕ} (b : Bool) : sh.state.peerSentEof = true →
      Polled sh id op (.eof b) w .none (.finish b (.ok .endOfStream)) w
  | notEof {w : ℕ} (b : Bool) : sh.state.peerSentEof = false →
      Polled sh id op (.eof b) w .none (.ensure b .closed) w
  | refused {w : ℕ} (b : Bool) (flag : Flag) : sh.state.load flag = true →
      Polled sh id op (.ensure b flag) w .none (.finish b (.error (.msg flag.text))) w
  | passed {w : ℕ} (b : Bool) (flag : Flag) : sh.state.load flag = false →
      Polled sh id op (.ensure b flag) w .none (op.afterEnsure b flag) w
  | idle {w : ℕ} (b : Bool) (flag : Flag) : sh.state.load flag = true →
      Polled sh id op (.idle b flag) w .none (.finish b (.ok .unit)) w
  | busy {w : ℕ} (b : Bool) (flag : Flag) : sh.state.load flag = false →
      Polled sh id op (.idle b flag) w .none (op.afterIdle b flag) w
  | dated {w : ℕ} {data : List UInt8} {timeout : Duration} : op = .sendTimeout data timeout →
      Polled sh id op .deadline w .none .gate w
  | overflowed {w : ℕ} {data : List UInt8} {timeout : Duration} : op = .sendTimeout data timeout →
      Polled sh id op .deadline w .none .panicked w
  | requested {w : ℕ} : Polled sh id op .gate w .request .gateWait w
  | gaveUp {w : ℕ} (e : Error) : op.reads = true ∨ sh.closeToken = true →
      Polled sh id op .gate w .none (.done (.error e)) w
  | granted {w : ℕ} : (sh.gate op).holder = some id →
      Polled sh id op .gateWait w .none op.enterGate w
  | withdrew {w : ℕ} (e : Error) :
      op.reads = true ∨ sh.closeToken = true ∨ (∃ data timeout, op = .sendTimeout data timeout) →
      Polled sh id op .gateWait w .leave (.done (.error e)) w
  | stored {w : ℕ} {pc : PC} {effect : Effect} : op.stored = some (pc, effect) →
      Polled sh id op .store w effect pc w
  | readCancelled {w : ℕ} : Polled sh id op .cancelRead w .cancelRead (.done (.ok .unit)) w
  | closedSeen {w : ℕ} (e : Error) : sh.state.closed = true →
      Polled sh id op .streamClosed w .none (.unwind (.error e)) w
  | openSeen {w : ℕ} : sh.state.closed = false → Polled sh id op .streamClosed w .none .stream w
  | noStream {w : ℕ} (e : Error) : sh.stream = false →
      Polled sh id op .stream w .none (.unwind (.error e)) w
  | stream {w : ℕ} : sh.stream = true → Polled sh id op .stream w .none .io w
  | interrupted {w : ℕ} (e : Error) : op.reads = true ∨ sh.closeToken = true →
      Polled sh id op .io w .none (.unwind (.error e)) w
  | accepted {w : ℕ} (n : ℕ) : op.whole = true → 0 < n → w + n < op.buffer.length →
      Polled sh id op .io w (.write ((op.buffer.drop w).take n)) .io (w + n)
  | completed {w : ℕ} (n : ℕ) : op.whole = true → 0 < n → w + n = op.buffer.length →
      Polled sh id op .io w (.write ((op.buffer.drop w).take n)) (.unwind (.ok .unit)) (w + n)
  | acceptedOnce {w : ℕ} (data : List UInt8) (n : ℕ) : op = .writeOnce data → 0 < n →
      n ≤ data.length → Polled sh id op .io w (.write (data.take n)) (.unwind (.ok (.count n))) n
  | failed {w : ℕ} (e : Error) : op ≠ .close →
      Polled sh id op .io w .none (.closing .closed false (some e)) w
  | readEof {w : ℕ} : op.reads = true → Polled sh id op .io w .none .storeEof w
  | answered {w : ℕ} (outcome : Outcome) : op.buffer = [] → op.whole = false →
      Polled sh id op .io w .none (.unwind outcome) w
  | eofStored {w : ℕ} :
      Polled sh id op .storeEof w (.store .peerSentEof true) (.unwind (.ok .endOfStream)) w
  | closing {w : ℕ} (stage : CloseStage) (first : Bool) (error : Option Error) :
      Polled sh id op (.closing stage first error) w (pollClosing sh stage first error).2
        (pollClosing sh stage first error).1 w
  | released {w : ℕ} (outcome : Outcome) :
      Polled sh id op (.unwind outcome) w .leave (.done outcome) w

/-- An availability check that a writing call makes behind the gate. -/
inductive Barrier where
  /-- The first of them, the load of `closed`. -/
  | closed
  /-- The last of them, the slot of the raw stream. -/
  | stream
  deriving DecidableEq, Repr

/-- Where the check is made. -/
def Barrier.pc : Barrier → PC
  | .closed => .ensure true .closed
  | .stream => .stream

/-- The check refuses whoever makes it. -/
def Barrier.up (barrier : Barrier) (sh : Shared ι) : Bool :=
  match barrier with
  | .closed => sh.state.closed
  | .stream => !sh.stream

variable {sh : Shared ι} {id : ι} {op : Op} {pc pc' : PC} {w w' : ℕ} {choice : Choice}
  {effect : Effect} {call call' : Call}

/-- The stores that are operations of their own. -/
inductive Op.Stores : Op → PC → Effect → Prop
  | shutdownRead : Stores .shutdownRead .cancelRead (.store .readShutdown true)
  | shutdownWrite : Stores .shutdownWrite .streamClosed (.store .writeShutdown true)
  | pause : Stores .pause (.done (.ok .unit)) (.store .paused true)
  | resume : Stores .resume (.done (.ok .unit)) (.store .paused false)

theorem Op.stores_of_stored (h : op.stored = some (pc, effect)) : op.Stores pc effect := by
  cases op <;> simp only [Op.stored, Option.some.injEq, Prod.mk.injEq, reduceCtorEq] at h
    <;> obtain ⟨rfl, rfl⟩ := h
  · exact .shutdownRead
  · exact .shutdownWrite
  · exact .pause
  · exact .resume

/-- A token's branch is ready only when the token is cancelled. -/
theorem giveUp_eq_some {e : Error} (h : op.giveUp sh choice = some e) :
    op.reads = true ∨ sh.closeToken = true := by
  unfold Op.giveUp at h
  split at h
  · split_ifs at h with hready
    exact Or.inr (Bool.and_eq_true_iff.mp hready).2
  · split_ifs at h with hready
    exact Or.inl (Bool.and_eq_true_iff.mp hready).1
  · exact absurd h nofun

theorem interrupted_eq_some {e : Error} (h : op.interrupted sh w choice = some e) :
    op.reads = true ∨ sh.closeToken = true := by
  unfold Op.interrupted at h
  split at h
  · split_ifs at h with hready
    exact Or.inr hready
  · split_ifs at h with hready
    exact Or.inr hready
  · exact giveUp_eq_some h

/-- Where the deadline does not fire, the write loop of `send_timeout` is that of `send`. -/
theorem pollSendTimeout_eq (data : List UInt8) (w : ℕ) (h : choice ≠ .timeout) :
    pollSendTimeout data w choice = pollSend data w choice := by
  cases choice <;> first | rfl | exact absurd rfl h

/-- The answers to a raw write of `send`. -/
theorem polled_of_pollSend (hwhole : op.whole = true)
    (h : pollSend op.buffer w choice = some (pc', w', effect)) :
    Polled sh id op .io w effect pc' w' := by
  have hop : op ≠ .close := by
    rintro rfl
    exact absurd hwhole nofun
  unfold pollSend at h
  split at h
  · next n =>
    split_ifs at h with hzero hle hlt
    · cases h; exact .failed _ hop
    · cases h; exact .accepted n hwhole (Nat.pos_of_ne_zero hzero) hlt
    · cases h; exact .completed n hwhole (Nat.pos_of_ne_zero hzero) (by omega)
  · cases h; exact .failed _ hop
  · exact absurd h nofun

/-- The answers to a raw write of `send_timeout`. -/
theorem polled_of_pollSendTimeout (hwhole : op.whole = true)
    (h : pollSendTimeout op.buffer w choice = some (pc', w', effect)) :
    Polled sh id op .io w effect pc' w' := by
  by_cases htimeout : choice = .timeout
  · subst htimeout
    cases h
    exact .failed _ fun hop => by simp [hop, Op.whole] at hwhole
  · rw [pollSendTimeout_eq op.buffer w htimeout] at h
    exact polled_of_pollSend hwhole h

theorem polled_of_pollIo (h : pollIo op w choice = some (pc', w', effect)) :
    Polled sh id op .io w effect pc' w' := by
  unfold pollIo at h
  split at h
  case h_1 =>
    split_ifs at h
    · cases h; exact .readEof rfl
    · cases h; exact .answered _ rfl rfl
  case h_2 data _ =>
    split_ifs at h with hzero hle
    · cases h; exact .failed _ nofun
    · cases h; exact .acceptedOnce data _ rfl (Nat.pos_of_ne_zero hzero) hle
  case h_3 => exact polled_of_pollSend rfl h
  case h_4 => exact polled_of_pollSendTimeout rfl h
  case h_5 => cases h; exact .answered _ rfl rfl
  case h_6 => cases h; exact .answered _ rfl rfl
  case h_7 => cases h; exact .answered _ rfl rfl
  case h_8 => cases h; exact .answered _ rfl rfl
  case h_9 => cases h; exact .failed _ nofun
  case h_10 => cases h; exact .failed _ nofun
  case h_11 => cases h; exact .failed _ nofun
  case h_12 => cases h; exact .failed _ nofun
  case h_13 => exact absurd h nofun

/-- **The list is complete.** -/
theorem polled_of_poll [DecidableEq ι] (h : call.poll sh id choice = some (call', effect)) :
    call'.op = call.op ∧
      Polled sh id call.op call.pc call.written effect call'.pc call'.written := by
  obtain ⟨op, pc, w⟩ := call
  dsimp only
  unfold Call.poll at h
  dsimp only at h
  split at h
  case h_1 => cases h; exact ⟨rfl, .entered⟩
  case h_2 b =>
    cases h
    refine ⟨rfl, ?_⟩
    split
    · next hset => exact .eof b hset
    · next hclear => exact .notEof b (by simpa using hclear)
  case h_3 b flag =>
    cases h
    refine ⟨rfl, ?_⟩
    dsimp only
    split
    · next hset => exact .refused b flag hset
    · next hclear => exact .passed b flag (by simpa using hclear)
  case h_4 b flag =>
    cases h
    refine ⟨rfl, ?_⟩
    dsimp only
    split
    · next hset => exact .idle b flag hset
    · next hclear => exact .busy b flag (by simpa using hclear)
  case h_5 =>
    split at h
    · cases h
      refine ⟨rfl, ?_⟩
      dsimp only
      split
      · exact .dated rfl
      · exact .overflowed rfl
    · exact absurd h nofun
  case h_6 => cases h; exact ⟨rfl, .requested⟩
  case h_7 =>
    obtain ⟨e, hready, he⟩ := Option.map_eq_some_iff.mp h
    cases he; exact ⟨rfl, .gaveUp e (giveUp_eq_some hready)⟩
  case h_8 =>
    split_ifs at h with hholder
    cases h; exact ⟨rfl, .granted hholder⟩
  case h_9 =>
    split at h
    · next data timeout =>
      cases h; exact ⟨rfl, .withdrew _ (Or.inr (Or.inr ⟨data, timeout, rfl⟩))⟩
    · exact absurd h nofun
  case h_10 =>
    obtain ⟨e, hready, he⟩ := Option.map_eq_some_iff.mp h
    cases he; exact ⟨rfl, .withdrew e ((giveUp_eq_some hready).imp_right Or.inl)⟩
  case h_11 =>
    obtain ⟨⟨pc, effect⟩, hstored, he⟩ := Option.map_eq_some_iff.mp h
    cases he; exact ⟨rfl, .stored hstored⟩
  case h_12 => cases h; exact ⟨rfl, .readCancelled⟩
  case h_13 =>
    cases h
    refine ⟨rfl, ?_⟩
    dsimp only
    split
    · next hclosed => exact .closedSeen _ hclosed
    · next hopen => exact .openSeen (by simpa using hopen)
  case h_14 =>
    cases h
    refine ⟨rfl, ?_⟩
    dsimp only
    split
    · next hstream => exact .stream hstream
    · next hstream => exact .noStream _ (by simpa using hstream)
  case h_15 =>
    split at h
    · next e he => cases h; exact ⟨rfl, .interrupted e (interrupted_eq_some he)⟩
    · obtain ⟨⟨pc, w', effect⟩, hio, he⟩ := Option.map_eq_some_iff.mp h
      cases he; exact ⟨rfl, polled_of_pollIo hio⟩
  case h_16 => cases h; exact ⟨rfl, .eofStored⟩
  case h_17 stage first error => cases h; exact ⟨rfl, .closing stage first error⟩
  case h_18 outcome => cases h; exact ⟨rfl, .released outcome⟩
  case h_19 => exact absurd h nofun

/-! ### Types of program counters -/

/-- Which operations stand at a program counter, where it matters. -/
def Op.Typed (op : Op) : PC → Prop
  | .eof _ => op.reads = true
  | .ensure _ flag => flag = .closed ∨ flag = .paused ∨ flag = op.flag
  | .idle behindGate _ => op.buffer = [] ∧ (behindGate = true → op = .shutdownWrite)
  | .deadline => ∃ data timeout, op = .sendTimeout data timeout
  | .store => op.buffer = []
  | .cancelRead => op.buffer = []
  | .storeEof => op.reads = true
  | .closing _ _ error => error = none → op = .close
  | _ => True

theorem Op.buffer_eq_nil_of_reads (h : op.reads = true) : op.buffer = [] := by
  cases op <;> first | rfl | exact absurd h nofun

/-- Where an operation can start. -/
theorem Op.enter_cases (op : Op) :
    (∃ v, op.enter = .done (.ok v) ∧ op.buffer = []) ∨ (op.enter = .eof false ∧ op.reads = true) ∨
      op.enter = .ensure false .closed ∨ (op.enter = .idle false .closed ∧ op.buffer = []) ∨
      (op.enter = .closing .closed false none ∧ op = .close) := by
  cases op <;> simp [Op.enter, Op.buffer, Op.reads] <;> split <;> simp_all

/-- What follows the checks ahead of the gate. -/
theorem Op.afterChecks_cases (op : Op) :
    (op.afterChecks = .deadline ∧ ∃ data timeout, op = .sendTimeout data timeout) ∨
      op.afterChecks = .gate := by
  cases op with
  | sendTimeout data timeout => exact Or.inl ⟨rfl, data, timeout, rfl⟩
  | _ => exact Or.inr rfl

/-- What follows an `ensure` load that finds its flag clear. -/
theorem Op.afterEnsure_cases (op : Op) (b : Bool) (flag : Flag) :
    (∃ next, op.afterEnsure b flag = .ensure b next) ∨
      (op.afterEnsure b flag = .streamClosed ∧ b = true) ∨
      (b = false ∧ ((op.afterEnsure b flag = .deadline ∧
        ∃ data timeout, op = .sendTimeout data timeout) ∨ op.afterEnsure b flag = .gate)) := by
  rcases op.afterChecks_cases with ⟨h, data, timeout, rfl⟩ | h <;>
    cases b <;> cases flag <;> simp [Op.afterEnsure, h]

/-- Where a full close can be after one of its stages. -/
theorem pollClosing_cases (sh : Shared ι) (stage : CloseStage) (first : Bool)
    (error : Option Error) :
    (∃ stage' first', stage' ≠ .closed ∧
        (pollClosing sh stage first error).1 = .closing stage' first' error) ∨
      (∃ e, error = some e ∧ (pollClosing sh stage first error).1 = .unwind (.error e)) ∨
      (error = none ∧ ((pollClosing sh stage first error).1 = .gate ∨
        (pollClosing sh stage first error).1 = .done (.ok .unit))) := by
  cases stage <;> cases first <;> cases error <;> simp [pollClosing]

theorem Polled.typed (h : Polled sh id op pc w effect pc' w') (htyped : op.Typed pc) :
    op.Typed pc' := by
  cases h with
  | entered =>
    rcases op.enter_cases with ⟨v, h, -⟩ | ⟨h, hreads⟩ | h | ⟨h, hbuffer⟩ | ⟨h, hclose⟩ <;> rw [h]
    · trivial
    · exact hreads
    · exact Or.inl rfl
    · exact ⟨hbuffer, nofun⟩
    · exact fun _ => hclose
  | eof b => cases b <;> trivial
  | notEof b => exact Or.inl rfl
  | refused b flag _ => cases b <;> trivial
  | passed b flag _ =>
    rcases op.afterChecks_cases with ⟨h, hop⟩ | h <;>
      cases b <;> cases flag <;> simp_all [Op.afterEnsure, Op.Typed]
  | idle b flag => cases b <;> trivial
  | busy b flag =>
    cases op <;> cases flag <;> cases b <;> simp_all [Op.afterIdle, Op.Typed, Op.buffer]
  | dated _ => trivial
  | overflowed _ => trivial
  | requested => trivial
  | gaveUp e _ => trivial
  | granted _ => cases op <;> simp [Op.enterGate, Op.Typed, Op.reads, Op.buffer]
  | withdrew e => trivial
  | stored hstored =>
    cases Op.stores_of_stored hstored <;> trivial
  | readCancelled => trivial
  | closedSeen e => trivial
  | openSeen _ => trivial
  | noStream e => trivial
  | stream _ => trivial
  | interrupted e _ => trivial
  | accepted n _ _ _ => trivial
  | completed n _ _ _ => trivial
  | acceptedOnce data n _ _ _ => trivial
  | failed e _ => exact nofun
  | readEof hreads => exact hreads
  | answered outcome _ _ => trivial
  | eofStored => trivial
  | closing stage first error =>
    rcases pollClosing_cases sh stage first error with ⟨stage', first', -, h⟩ | ⟨e, -, h⟩ |
      ⟨-, h | h⟩ <;> rw [h]
    · exact htyped
    all_goals trivial
  | released outcome => trivial

/-! ### The write gate -/

/-- Where a call stands at the write gate. -/
def Op.place (op : Op) (pc : PC) : Place :=
  if op.reads then .away
  else match pc with
    | .start => .away
    | .eof behindGate => if behindGate then .holding else .away
    | .ensure behindGate _ => if behindGate then .holding else .away
    | .idle behindGate _ => if behindGate then .holding else .away
    | .deadline => .away
    | .gate => .away
    | .gateWait => .waiting
    | .store => if op = .shutdownWrite then .holding else .away
    | .cancelRead => .away
    | .streamClosed => .holding
    | .stream => .holding
    | .io => .holding
    | .storeEof => .holding
    | .closing _ _ error => if error.isSome then .holding else .away
    | .unwind _ => .holding
    | .done _ => .left
    | .dropped => .left
    | .panicked => .left

theorem Op.place_of_reads (h : op.reads = true) (pc : PC) : op.place pc = .away := by
  unfold Op.place
  rw [if_pos h]

theorem Shared.perform_of_reads [DecidableEq ι] (sh : Shared ι) (id : ι) (h : op.reads = true)
    (effect : Effect) : (sh.perform id op effect).writeGate = sh.writeGate := by
  cases effect <;> simp [Shared.perform, Shared.onGate, h]

/-- **How a step moves a call at the write gate.** -/
theorem Polled.move [DecidableEq ι] (h : Polled sh id op pc w effect pc' w')
    (htyped : op.Typed pc) :
    sh.writeGate.Move id (op.place pc) (sh.perform id op effect).writeGate (op.place pc') := by
  cases hreads : op.reads with
  | true =>
    rw [Op.place_of_reads hreads, Op.place_of_reads hreads, sh.perform_of_reads id hreads]
    exact .stay _
  | false =>
    have hplace : ∀ {pc pc' : PC}, op.place pc' = op.place pc →
        sh.writeGate.Move id (op.place pc) sh.writeGate (op.place pc') := by
      intro pc pc' heq
      rw [heq]
      exact .stay _
    have hstart : op.place .start = .away := by simp [Op.place, hreads]
    have hfinish : ∀ b outcome, sh.writeGate.Move id (if b then .holding else .away) sh.writeGate
        (op.place (.finish b outcome)) := by
      intro b outcome
      cases b with
      | false => simpa [Op.place, PC.finish, hreads] using .giveUp
      | true => simpa [Op.place, PC.finish, hreads] using .stay _
    cases h with
    | entered =>
      rw [hstart]
      rcases op.enter_cases with ⟨v, h, -⟩ | ⟨-, h⟩ | h | ⟨h, -⟩ | ⟨h, -⟩
      · simpa [h, Op.place, hreads, Shared.perform] using Move.giveUp
      · simp [hreads] at h
      all_goals simpa [h, Op.place, hreads, Shared.perform] using Move.stay _
    | eof b => simpa [Op.place, hreads, Shared.perform] using hfinish b _
    | notEof b => exact hplace (by simp [Op.place, hreads])
    | refused b flag _ => simpa [Op.place, hreads, Shared.perform] using hfinish b _
    | passed b flag _ =>
      refine hplace ?_
      rcases op.afterEnsure_cases b flag with ⟨next, h⟩ | ⟨h, rfl⟩ | ⟨rfl, ⟨h, -⟩ | h⟩ <;>
        simp [Op.place, hreads, h]
    | idle b flag => simpa [Op.place, hreads, Shared.perform] using hfinish b _
    | busy b flag =>
      refine hplace ?_
      cases b with
      | false => cases op <;> cases flag <;> simp [Op.place, Op.reads, Op.afterIdle]
      | true =>
        obtain rfl := htyped.2 rfl
        cases flag <;> rfl
    | dated _ => exact hplace (by simp [Op.place, hreads])
    | overflowed _ => simpa [Op.place, hreads, Shared.perform] using Move.giveUp
    | requested => simpa [Op.place, hreads, Shared.perform, Shared.onGate] using Move.request
    | gaveUp e _ => simpa [Op.place, hreads, Shared.perform] using Move.giveUp
    | granted hholder =>
      have hgate : op.place op.enterGate = .holding := by
        cases op <;> first | rfl | exact absurd hreads nofun
      have hwait : op.place .gateWait = .waiting := by simp [Op.place, hreads]
      rw [hgate, hwait]
      exact .granted (by simpa [Shared.gate, hreads] using hholder)
    | withdrew e => simpa [Op.place, hreads, Shared.perform, Shared.onGate] using Move.leave _
    | stored hstored =>
      cases Op.stores_of_stored hstored
      · exact .stay _
      · exact .stay _
      · exact .giveUp
      · exact .giveUp
    | readCancelled => simpa [Op.place, hreads, Shared.perform] using Move.giveUp
    | closedSeen e => exact hplace (by simp [Op.place, hreads])
    | openSeen _ => exact hplace (by simp [Op.place, hreads])
    | noStream e => exact hplace (by simp [Op.place, hreads])
    | stream _ => exact hplace (by simp [Op.place, hreads])
    | interrupted e _ => exact hplace (by simp [Op.place, hreads])
    | accepted n _ _ _ => exact hplace rfl
    | completed n _ _ _ => exact hplace (by simp [Op.place, hreads])
    | acceptedOnce data n _ _ _ => exact hplace (by simp [Op.place, hreads])
    | failed e _ => exact hplace (by simp [Op.place, hreads])
    | readEof h => simp [hreads] at h
    | answered outcome _ _ => exact hplace (by simp [Op.place, hreads])
    | eofStored => exact hplace (by simp [Op.place, hreads])
    | closing stage first error =>
      have hgate : (sh.perform id op (pollClosing sh stage first error).2).writeGate
          = sh.writeGate := by
        cases stage <;> rfl
      rw [hgate]
      rcases pollClosing_cases sh stage first error with ⟨stage', first', -, h⟩ | ⟨e, rfl, h⟩ |
        ⟨rfl, h | h⟩ <;> rw [h]
      · exact hplace (by simp [Op.place, hreads])
      · exact hplace (by simp [Op.place, hreads])
      · exact hplace (by simp [Op.place, hreads])
      · simpa [Op.place, hreads] using Move.giveUp
    | released outcome =>
      simpa [Op.place, hreads, Shared.perform, Shared.onGate] using Move.leave _

/-! ### What a call has handed over -/

/-- The bytes an operation has handed over when it returns a value. -/
def Op.delivered : Op → Value → List UInt8
  | .writeOnce data, .count n => data.take n
  | .send data, .unit => data
  | .sendTimeout data _, .unit => data
  | _, _ => []

/-- What is known of a call whose outcome is fixed. If it succeeds it has handed over what it
reports, and that is the whole buffer unless it says otherwise; if it fails it has handed over
nothing, or a proper prefix of a whole buffer, and then the connection is closed. -/
def Op.Settled (op : Op) (closed : Bool) (w : ℕ) : Outcome → Prop
  | .ok v => op.buffer.take w = op.delivered v ∧ (op.whole = true → op.delivered v = op.buffer)
  | .error _ => w = 0 ∨ (op.whole = true ∧ w < op.buffer.length ∧ closed = true)

/-- What is known of the bytes a call has handed over, where it stands: none before the raw
stream, and a proper prefix of a whole buffer there and in a failure. -/
def Op.Sound (op : Op) (closed : Bool) (w : ℕ) : PC → Prop
  | .io => w = 0 ∨ (op.whole = true ∧ w < op.buffer.length)
  | .closing stage _ _ =>
    (w = 0 ∨ (op.whole = true ∧ w < op.buffer.length)) ∧ (stage ≠ .closed → closed = true)
  | .unwind outcome => op.Settled closed w outcome
  | .done outcome => op.Settled closed w outcome
  | .dropped => w = 0 ∨ (op.whole = true ∧ w < op.buffer.length)
  | _ => w = 0

theorem Op.delivered_eq_nil (h : op.buffer = []) (v : Value) : op.delivered v = [] := by
  cases op <;> cases v <;> simp_all [Op.delivered, Op.buffer]

theorem Op.settled_ok (h : op.buffer = []) (closed : Bool) (v : Value) :
    op.Settled closed w (.ok v) := by
  simp [Op.Settled, h, Op.delivered_eq_nil h]

/-- An effect that does not store a flag leaves it. -/
theorem Shared.perform_load [DecidableEq ι] (sh : Shared ι) (id : ι) (op : Op) {flag : Flag}
    (hstore : ∀ v, effect ≠ .store flag v) :
    (sh.perform id op effect).state.load flag = sh.state.load flag := by
  cases effect with
  | store flag' value =>
    cases flag <;> cases flag' <;> first | rfl | exact absurd rfl (hstore value)
  | request => simp [Shared.perform]
  | leave => simp [Shared.perform]
  | _ => rfl

/-- Effects that touch neither `closed` nor the close token. -/
theorem Shared.perform_closed [DecidableEq ι] (sh : Shared ι) (id : ι) (op : Op) (effect : Effect)
    (hstore : ∀ v, effect ≠ .store .closed v) (hcancel : effect ≠ .cancelClose) :
    (sh.perform id op effect).state.closed = sh.state.closed ∧
      (sh.perform id op effect).closeToken = sh.closeToken := by
  cases effect with
  | none => exact ⟨rfl, rfl⟩
  | store flag value =>
    cases flag
    · exact absurd rfl (hstore value)
    all_goals exact ⟨rfl, rfl⟩
  | cancelClose => exact absurd rfl hcancel
  | cancelRead => exact ⟨rfl, rfl⟩
  | takeStream => exact ⟨rfl, rfl⟩
  | request => simp [Shared.perform]
  | leave => simp [Shared.perform]
  | write bytes => exact ⟨rfl, rfl⟩

/-- `closed` is never cleared, and the close token is cancelled only behind it. -/
theorem Polled.closed [DecidableEq ι] (h : Polled sh id op pc w effect pc' w')
    (hsound : op.Sound sh.state.closed w pc)
    (htoken : sh.closeToken = true → sh.state.closed = true) :
    (sh.state.closed = true → (sh.perform id op effect).state.closed = true) ∧
      ((sh.perform id op effect).closeToken = true →
        (sh.perform id op effect).state.closed = true) := by
  have hother : (∀ v, effect ≠ .store .closed v) → effect ≠ .cancelClose →
      (sh.state.closed = true → (sh.perform id op effect).state.closed = true) ∧
        ((sh.perform id op effect).closeToken = true →
          (sh.perform id op effect).state.closed = true) := by
    intro hstore hcancel
    obtain ⟨hclosed, htok⟩ := sh.perform_closed id op effect hstore hcancel
    rw [hclosed, htok]
    exact ⟨fun h => h, htoken⟩
  cases h with
  | stored hstored =>
    cases Op.stores_of_stored hstored <;> exact hother nofun nofun
  | closing stage first error =>
    cases stage with
    | closed => exact ⟨fun _ => rfl, fun _ => rfl⟩
    | closeToken => exact ⟨fun h => h, fun _ => hsound.2 nofun⟩
    | paused => exact hother nofun nofun
    | readShutdown => exact hother nofun nofun
    | writeShutdown => exact hother nofun nofun
    | readShutdownToken => exact hother nofun nofun
    | stream => exact hother nofun nofun
  | _ => exact hother nofun nofun

/-- More is known of a call once the connection is closed. -/
theorem Op.Sound.mono {closed closed' : Bool} (h : op.Sound closed w pc)
    (hclosed : closed = true → closed' = true) : op.Sound closed' w pc := by
  have hsettled : ∀ outcome, op.Settled closed w outcome → op.Settled closed' w outcome := by
    rintro (e | v) hs
    · exact hs.imp_right fun ⟨hwhole, hlt, hc⟩ => ⟨hwhole, hlt, hclosed hc⟩
    · exact hs
  cases pc with
  | closing stage first error => exact ⟨h.1, fun hne => hclosed (h.2 hne)⟩
  | unwind outcome => exact hsettled outcome h
  | done outcome => exact hsettled outcome h
  | _ => exact h

/-- **What a call has handed over stays known.** -/
theorem Polled.sound [DecidableEq ι] (h : Polled sh id op pc w effect pc' w')
    (htyped : op.Typed pc) (hsound : op.Sound sh.state.closed w pc)
    (htoken : sh.closeToken = true → sh.state.closed = true) :
    op.Sound (sh.perform id op effect).state.closed w' pc' := by
  have hclosed := h.closed hsound htoken
  have hmono : op.Sound sh.state.closed w' pc' →
      op.Sound (sh.perform id op effect).state.closed w' pc' := fun hs => hs.mono hclosed.1
  have hfinish : ∀ b outcome, op.Settled sh.state.closed w outcome →
      op.Sound sh.state.closed w (.finish b outcome) := by
    intro b outcome hs
    cases b <;> exact hs
  have hfail : ∀ e, w = 0 → op.Settled sh.state.closed w (.error e) := fun e h0 => Or.inl h0
  have hok : op.buffer = [] → ∀ v, op.Settled sh.state.closed w (.ok v) :=
    fun hbuffer v => op.settled_ok hbuffer _ v
  cases h with
  | entered =>
    refine hmono ?_
    rcases op.enter_cases with ⟨v, h, hbuffer⟩ | ⟨h, -⟩ | h | ⟨h, -⟩ | ⟨h, -⟩ <;> rw [h]
    · exact hok hbuffer v
    · exact hsound
    · exact hsound
    · exact hsound
    · exact ⟨Or.inl hsound, fun hne => absurd rfl hne⟩
  | eof b => exact hmono (hfinish b _ (hok (op.buffer_eq_nil_of_reads htyped) _))
  | notEof b => exact hmono hsound
  | refused b flag _ => exact hmono (hfinish b _ (hfail _ hsound))
  | passed b flag _ =>
    refine hmono ?_
    rcases op.afterEnsure_cases b flag with ⟨next, h⟩ | ⟨h, -⟩ | ⟨-, ⟨h, -⟩ | h⟩ <;>
      simpa [Op.Sound, h] using hsound
  | idle b flag => exact hmono (hfinish b _ (hok htyped.1 _))
  | busy b flag =>
    refine hmono ?_
    cases op <;> cases flag <;> cases b <;> exact hsound
  | dated _ => exact hmono hsound
  | overflowed _ => exact hmono hsound
  | requested => exact hmono hsound
  | gaveUp e _ => exact hmono (hfail e hsound)
  | granted _ =>
    refine hmono ?_
    cases op <;> first | exact hsound | exact Or.inl hsound
  | withdrew e => exact hmono (hfail e hsound)
  | stored hstored =>
    refine hmono ?_
    cases Op.stores_of_stored hstored
    · exact hsound
    · exact hsound
    · exact hok rfl _
    · exact hok rfl _
  | readCancelled => exact hmono (hok htyped _)
  | closedSeen e => exact hmono (hfail e hsound)
  | openSeen _ => exact hmono hsound
  | noStream e => exact hmono (hfail e hsound)
  | stream _ => exact hmono (Or.inl hsound)
  | interrupted e hready =>
    -- the token's branch interrupts a send only where the connection is closed
    refine hmono ?_
    rcases hsound with h0 | ⟨hwhole, hlt⟩
    · exact hfail e h0
    · refine Or.inr ⟨hwhole, hlt, htoken (hready.resolve_left fun hreads => ?_)⟩
      rw [op.buffer_eq_nil_of_reads hreads] at hlt
      exact absurd hlt (Nat.not_lt_zero _)
  | accepted n hwhole _ hlt => exact hmono (Or.inr ⟨hwhole, hlt⟩)
  | completed n hwhole _ hlen =>
    refine hmono ?_
    have hdelivered : op.delivered .unit = op.buffer := by
      cases op <;> first | rfl | exact absurd hwhole nofun
    refine ⟨?_, fun _ => hdelivered⟩
    rw [hlen, List.take_length, hdelivered]
  | acceptedOnce data n hop _ _ => subst hop; exact hmono ⟨rfl, nofun⟩
  | failed e _ => exact hmono ⟨hsound, fun hne => absurd rfl hne⟩
  | readEof hreads =>
    refine hmono ?_
    rcases hsound with h0 | ⟨-, hlt⟩
    · exact h0
    · rw [op.buffer_eq_nil_of_reads hreads] at hlt
      exact absurd hlt (Nat.not_lt_zero _)
  | answered outcome hbuffer _ =>
    refine hmono ?_
    cases outcome with
    | ok v => exact hok hbuffer v
    | error e =>
      rcases hsound with h0 | ⟨-, hlt⟩
      · exact hfail e h0
      · rw [hbuffer] at hlt
        exact absurd hlt (Nat.not_lt_zero _)
  | eofStored => exact hmono (hok (op.buffer_eq_nil_of_reads htyped) _)
  | closing stage first error =>
    have hset : (sh.perform id op (pollClosing sh stage first error).2).state.closed = true := by
      by_cases hstage : stage = .closed
      · subst hstage; rfl
      · exact hclosed.1 (hsound.2 hstage)
    rcases pollClosing_cases sh stage first error with ⟨stage', first', hne, h⟩ | ⟨e, -, h⟩ |
      ⟨hnone, h⟩
    · rw [h]; exact ⟨hsound.1, fun _ => hset⟩
    · rw [h]
      exact hsound.1.imp_right fun ⟨hwhole, hlt⟩ => ⟨hwhole, hlt, hset⟩
    · obtain rfl := htyped hnone
      have h0 : w = 0 := hsound.1.resolve_right nofun
      rcases h with h | h <;> rw [h]
      · exact h0
      · exact hok rfl _
  | released outcome => exact hmono hsound

/-- **What one step adds to the wire** is what it adds to the call's own bytes. -/
theorem Polled.handed [DecidableEq ι] (h : Polled sh id op pc w effect pc' w')
    (hsound : op.Sound sh.state.closed w pc) :
    ∃ bytes, (sh.perform id op effect).wire = sh.wire ++ bytes ∧
      op.buffer.take w' = op.buffer.take w ++ bytes ∧
      (bytes ≠ [] → pc = .io ∧ op.buffer ≠ []) := by
  have hquiet : (∀ bytes, effect ≠ .write bytes) → w' = w →
      ∃ bytes, (sh.perform id op effect).wire = sh.wire ++ bytes ∧
        op.buffer.take w' = op.buffer.take w ++ bytes ∧
        (bytes ≠ [] → pc = .io ∧ op.buffer ≠ []) := by
    rintro hwrite rfl
    refine ⟨[], ?_, by simp, fun h => absurd rfl h⟩
    cases effect with
    | request => simp [Shared.perform]
    | leave => simp [Shared.perform]
    | write bytes => exact absurd rfl (hwrite bytes)
    | _ => simp [Shared.perform]
  have hadded : ∀ n, ∃ bytes, sh.wire ++ (op.buffer.drop w).take n = sh.wire ++ bytes ∧
      op.buffer.take (w + n) = op.buffer.take w ++ bytes ∧
      (bytes ≠ [] → PC.io = .io ∧ op.buffer ≠ []) := by
    intro n
    refine ⟨_, rfl, List.take_add, fun hne => ⟨rfl, ?_⟩⟩
    rintro hbuffer
    simp [hbuffer] at hne
  cases h with
  | accepted n _ _ _ => exact hadded n
  | completed n _ _ _ => exact hadded n
  | acceptedOnce data n hop _ _ =>
    subst hop
    obtain rfl : w = 0 := hsound.resolve_right fun h => absurd h.1 nofun
    have h := hadded w'
    rw [List.drop_zero, Nat.zero_add] at h
    exact h
  | stored hstored =>
    cases Op.stores_of_stored hstored <;> exact hquiet nofun rfl
  | closing stage first error => cases stage <;> exact hquiet nofun rfl
  | _ => exact hquiet nofun rfl

/-! ### Behind the last availability check -/

/-- A call can still step. -/
def PC.Live : PC → Prop
  | .done _ => False
  | .dropped => False
  | .panicked => False
  | _ => True

theorem Polled.live (h : Polled sh id op pc w effect pc' w') : pc.Live := by
  cases h <;> trivial

/-- Only a drop drops a call. -/
theorem Polled.not_dropped (h : Polled sh id op pc w effect pc' w') : pc' ≠ .dropped := by
  cases h with
  | entered =>
    rcases op.enter_cases with ⟨v, h, -⟩ | ⟨h, -⟩ | h | ⟨h, -⟩ | ⟨h, -⟩ <;> rw [h] <;> exact nofun
  | eof b => cases b <;> exact nofun
  | refused b flag _ => cases b <;> exact nofun
  | passed b flag _ =>
    rcases op.afterEnsure_cases b flag with ⟨next, h⟩ | ⟨h, -⟩ | ⟨-, ⟨h, -⟩ | h⟩ <;> simp [h]
  | idle b flag => cases b <;> exact nofun
  | busy b flag => cases op <;> cases flag <;> cases b <;> exact nofun
  | granted _ => cases op <;> exact nofun
  | stored hstored =>
    cases Op.stores_of_stored hstored <;> exact nofun
  | closing stage first error =>
    rcases pollClosing_cases sh stage first error with ⟨stage', first', -, h⟩ | ⟨e, -, h⟩ |
      ⟨-, h | h⟩ <;> rw [h] <;> exact nofun
  | _ => exact nofun

/-- Where a writing call stands once it has passed the check. -/
def Past (barrier : Barrier) : PC → Prop
  | .ensure behindGate flag => barrier = .closed ∧ behindGate = true ∧ flag ≠ .closed
  | .streamClosed => barrier = .closed
  | .stream => barrier = .closed
  | .io => True
  | _ => False

/-- **The only way past a barrier** is a check that finds it down. -/
theorem Polled.past {barrier : Barrier} (h : Polled sh id op pc w effect pc' w')
    (htyped : op.Typed pc) (hbuffer : op.buffer ≠ []) (hpast : Past barrier pc') :
    Past barrier pc ∨ (pc = barrier.pc ∧ barrier.up sh = false) := by
  have hreads : ∀ {P : Prop}, op.reads = true → P :=
    fun h => absurd (op.buffer_eq_nil_of_reads h) hbuffer
  have hfinish : ∀ {P : Prop} {b : Bool} {outcome : Outcome},
      Past barrier (.finish b outcome) → P := by
    intro P b outcome h
    cases b <;> exact absurd h nofun
  cases h with
  | entered =>
    rcases op.enter_cases with ⟨v, h, -⟩ | ⟨h, -⟩ | h | ⟨h, -⟩ | ⟨h, -⟩ <;> rw [h] at hpast
    all_goals exact absurd hpast (by simp [Past])
  | eof b => exact hfinish hpast
  | notEof b => exact hreads htyped
  | refused b flag _ => exact hfinish hpast
  | passed b flag hclear =>
    have hown : op.flag = .writeShutdown := by
      cases op <;> first | rfl | exact absurd rfl hbuffer
    cases b with
    | false =>
      exfalso
      rcases op.afterChecks_cases with ⟨h, -⟩ | h <;>
        cases flag <;> simp [Op.afterEnsure, Past, h] at hpast
    | true =>
      rcases htyped with rfl | rfl | rfl
      · obtain rfl := hpast.1
        exact Or.inr ⟨rfl, hclear⟩
      · exact Or.inl ⟨hpast.1, rfl, nofun⟩
      · rw [hown] at hpast ⊢
        exact Or.inl ⟨hpast, rfl, nofun⟩
  | idle b flag => exact hfinish hpast
  | busy b flag => exact absurd htyped.1 hbuffer
  | granted _ =>
    exfalso
    cases op <;> first | exact absurd rfl hbuffer | simp [Op.enterGate, Past] at hpast
  | stored _ => exact absurd htyped hbuffer
  | openSeen _ => exact Or.inl hpast
  | stream hstream =>
    cases barrier with
    | closed => exact Or.inl rfl
    | stream => exact Or.inr ⟨rfl, by rw [Barrier.up, hstream]; rfl⟩
  | accepted n _ _ _ => exact Or.inl trivial
  | closing stage first error =>
    rcases pollClosing_cases sh stage first error with ⟨stage', first', -, h⟩ | ⟨e, -, h⟩ |
      ⟨-, h | h⟩ <;> rw [h] at hpast <;> exact absurd hpast nofun
  | _ => exact absurd hpast nofun

/-! ### The steps of the connection -/

/-- The steps of the connection, each with the call that makes it. -/
inductive Core.Stepped [DecidableEq ι] (core : Core ι) : Label ι → ι → Call → Core ι → Prop
  | called (id : ι) (op : Op) : core.calls id = none →
      Stepped core (.call id op) id { op }
        { core with calls := Function.update core.calls id (some { op }) }
  | polled (id : ι) (choice : Choice) (call call' : Call) (effect : Effect) :
      core.calls id = some call → call'.op = call.op →
      Polled core.shared id call.op call.pc call.written effect call'.pc call'.written →
      Stepped core (.poll id choice) id call'
        { shared := core.shared.perform id call.op effect
          calls := Function.update core.calls id (some call') }
  | dropped (id : ι) (call : Call) (effect : Effect) : core.calls id = some call →
      call.drop = some effect →
      Stepped core (.drop id) id { call with pc := .dropped }
        { shared := core.shared.perform id call.op effect
          calls := Function.update core.calls id (some { call with pc := .dropped }) }

theorem Core.stepped [DecidableEq ι] {core core' : Core ι} {label : Label ι}
    (h : core.step label = some core') : ∃ id call, core.Stepped label id call core' := by
  unfold Core.step at h
  split at h
  case h_1 id op =>
    split at h
    · next hnone => cases h; exact ⟨id, _, .called id op hnone⟩
    · exact absurd h nofun
  case h_2 id choice =>
    split at h
    · exact absurd h nofun
    · next call hcall =>
      obtain ⟨⟨call', effect⟩, hpoll, rfl⟩ := Option.map_eq_some_iff.mp h
      obtain ⟨hop, hpolled⟩ := polled_of_poll hpoll
      exact ⟨id, call', .polled id choice call call' effect hcall hop hpolled⟩
  case h_3 id =>
    split at h
    · exact absurd h nofun
    · next call hcall =>
      obtain ⟨effect, hdrop, rfl⟩ := Option.map_eq_some_iff.mp h
      exact ⟨id, _, .dropped id call effect hcall hdrop⟩

/-- A call is dropped before its first poll, in the queue of its gate, or in an operation of the
raw stream, and then leaves the gate or has not asked for it. -/
theorem drop_eq_some (h : call.drop = some effect) :
    (call.pc = .start ∨ call.pc = .gateWait ∨ call.pc = .io) ∧
      (effect = .none ∨ effect = .leave) := by
  unfold Call.drop at h
  split at h <;> simp_all

/-- A drop leaves the flags as they are. -/
theorem state_of_drop [DecidableEq ι] (sh : Shared ι) (id : ι) (h : call.drop = some effect) :
    (sh.perform id call.op effect).state = sh.state := by
  rcases (drop_eq_some h).2 with rfl | rfl
  · rfl
  · exact sh.onGate_state call.op _

/-- A call that steps is live, keeps its operation, and is the only one to move. -/
theorem Core.Stepped.calls [DecidableEq ι] {core core' : Core ι} {label : Label ι}
    (h : core.Stepped label id call core') :
    core'.calls = Function.update core.calls id (some call) ∧
      ∀ c, core.calls id = some c → c.pc.Live ∧ call.op = c.op := by
  cases h with
  | called id op hnone => exact ⟨rfl, by simp [hnone]⟩
  | polled id choice call call' effect hcall hop hpolled =>
    refine ⟨rfl, fun c hc => ?_⟩
    obtain rfl := Option.some.inj (hcall.symm.trans hc)
    exact ⟨hpolled.live, hop⟩
  | dropped id call effect hcall hdrop =>
    refine ⟨rfl, fun c hc => ?_⟩
    obtain rfl := Option.some.inj (hcall.symm.trans hc)
    refine ⟨?_, rfl⟩
    rcases (drop_eq_some hdrop).1 with h | h | h <;> rw [h] <;> trivial

/-- Where a call comes from: it has just been made, or was there and keeps its operation. Only a
drop drops it, and nothing revives it. -/
theorem Core.call_of_step [DecidableEq ι] {core core' : Core ι} {label : Label ι}
    (h : core.step label = some core') (hcall : core'.calls id = some call') :
    (label = .call id call'.op ∧ call'.pc = .start) ∨
      ∃ call, core.calls id = some call ∧ call'.op = call.op ∧
        (call'.pc.Live → call.pc.Live) ∧
        (call'.pc = .dropped → call.pc = .dropped ∨ label = .drop id) := by
  obtain ⟨i, c, hstepped⟩ := Core.stepped h
  obtain ⟨hcalls, hlive⟩ := hstepped.calls
  rw [hcalls] at hcall
  by_cases hi : id = i
  · subst hi
    rw [Function.update_self, Option.some.injEq] at hcall
    subst hcall
    cases hstepped with
    | called id op hnone => exact Or.inl ⟨rfl, rfl⟩
    | polled id choice call call' effect hcall hop hpolled =>
      exact Or.inr ⟨call, hcall, hop, fun _ => (hlive call hcall).1,
        fun hdropped => absurd hdropped hpolled.not_dropped⟩
    | dropped id call effect hcall hdrop =>
      exact Or.inr ⟨call, hcall, rfl, fun _ => (hlive call hcall).1, fun _ => Or.inr rfl⟩
  · rw [Function.update_of_ne hi] at hcall
    exact Or.inr ⟨call', hcall, rfl, fun h => h, Or.inl⟩

/-- No call goes away. -/
theorem Core.calls_ne_none_of_step [DecidableEq ι] {core core' : Core ι} {label : Label ι}
    (h : core.step label = some core') (hcall : core.calls id ≠ none) : core'.calls id ≠ none := by
  obtain ⟨i, c, hstepped⟩ := Core.stepped h
  rw [hstepped.calls.1]
  by_cases hi : id = i
  · subst hi
    rw [Function.update_self]
    exact Option.some_ne_none c
  · rwa [Function.update_of_ne hi]

/-- **What every step of a call keeps holds of every call.** -/
theorem forall_calls_of_runs [DecidableEq ι] {allowed : Core ι → Label ι → Prop} {core : Core ι}
    (P : Op → PC → Prop) (h : Runs Core.step allowed {} core) (hstart : ∀ op, P op .start)
    (hdropped : ∀ op, P op .dropped)
    (hpolled : ∀ {sh : Shared ι} {id op pc w effect pc' w'},
      Polled sh id op pc w effect pc' w' → P op pc → P op pc') :
    ∀ id call, core.calls id = some call → P call.op call.pc := by
  refine h.invariant (fun core => ∀ id call, core.calls id = some call → P call.op call.pc)
    (fun _ _ h => absurd h nofun) ?_
  rintro core label core' hinv - hstep i c hc
  obtain ⟨id, call, hstepped⟩ := Core.stepped hstep
  rw [hstepped.calls.1] at hc
  by_cases hi : i = id
  · subst hi
    rw [Function.update_self, Option.some.injEq] at hc
    subst hc
    cases hstepped with
    | called id op hnone => exact hstart op
    | polled id choice call call' effect hcall hop hpoll =>
      rw [hop]
      exact hpolled hpoll (hinv _ call hcall)
    | dropped id call effect hcall hdrop => exact hdropped _
  · rw [Function.update_of_ne hi] at hc
    exact hinv i c hc

end Transport

end Taunicorn
