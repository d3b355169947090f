import Taunicorn.Transport.Tasks

/-!
# Two tasks that nothing disturbs

What happens to two tasks on connections that nobody closes, pauses or shuts down, where no raw
operation fails and no deadline passes. What is left to chance is the interleaving, and how the raw
stream cuts the bytes.

A call has one way then: through the checks, the gate, the checks again and the slot, to the raw
stream and back. Nobody else asks for its gate. So a run can only stop where both programs have
ended or wait for each other, and two programs that follow one script never do that.

## The measure

Every step is an operation of a program, or brings a call further on its way: `PC.distance` counts
what is left of the way to the next operation. It is longer for a call that has its outcome than for
one that has not been made, because between the two lies an operation of the program.

## Main results

* `proceeds_of_poll` — the way of a call
* `TasksCalm.step` — what a step keeps, and the measure
* `TasksCalm.exists_step` — where a run can stop
* `tasks_settle` — two programs that follow one script both return
-/

namespace Taunicorn

namespace Transport

open StreamProg

variable {ι : Type} {sh : Shared ι} {id : ι} {op : Op} {pc pc' : PC} {w w' : ℕ} {choice : Choice}
  {effect : Effect} {call call' : Call}

/-! ### The way of a call -/

/-- The answers of an environment that disturbs nothing. -/
def Choice.Calm : Choice → Prop
  | .go => True
  | .gate => True
  | .accept n => n ≠ 0
  | .read chunk => chunk ≠ []
  | _ => False

/-- Flags, tokens and slot are what they were when the connection was made. -/
structure Shared.Calm (sh : Shared ι) : Prop where
  state : sh.state = {}
  closeToken : sh.closeToken = false
  readShutdownToken : sh.readShutdownToken = false
  stream : sh.stream = true

/-- The operations of a task. -/
def Op.Carries (op : Op) : Prop := (∃ max, op = .receive max) ∨ ∃ data, op = .send data

/-- What such an operation returns where it has not failed or found the end of the stream. -/
def Op.Returns : Op → Value → Prop
  | .receive _, .data _ => True
  | .send _, .unit => True
  | _, _ => False

/-- The stations of a call that nothing disturbs. Behind the first of them there is something to
read or to write. -/
def Op.OnWay (op : Op) : PC → Prop
  | .start => True
  | .unwind outcome => ∃ v, outcome = .ok v ∧ op.Returns v
  | .done outcome => ∃ v, outcome = .ok v ∧ op.Returns v
  | .eof _ => op.reads = true
  | .ensure _ _ => op.reads = true ∨ op.buffer ≠ []
  | .gate => op.reads = true ∨ op.buffer ≠ []
  | .gateWait => op.reads = true ∨ op.buffer ≠ []
  | .streamClosed => op.reads = true ∨ op.buffer ≠ []
  | .stream => op.reads = true ∨ op.buffer ≠ []
  | .io => op.reads = true ∨ op.buffer ≠ []
  | _ => False

/-- The call has asked for its gate, and not let go of it. -/
def PC.behind : PC → Bool
  | .eof behindGate => behindGate
  | .ensure behindGate _ => behindGate
  | .gateWait => true
  | .streamClosed => true
  | .stream => true
  | .io => true
  | .unwind _ => true
  | _ => false

/-- How far a call is from the raw stream, or from its return. -/
def PC.distance : PC → ℕ
  | .done _ => 31
  | .unwind _ => 32
  | .start => 20
  | .eof behindGate => if behindGate then 13 else 19
  | .ensure behindGate .closed => if behindGate then 12 else 18
  | .ensure behindGate .paused => if behindGate then 11 else 17
  | .ensure behindGate _ => if behindGate then 10 else 16
  | .gate => 15
  | .gateWait => 14
  | .streamClosed => 9
  | .stream => 8
  | .io => 7
  | _ => 0

/-- The steps of a call on its way. -/
inductive Proceeds (op : Op) : PC → ℕ → Effect → PC → ℕ → Prop
  | entered {w : ℕ} : Proceeds op .start w .none op.enter w
  | notEof {w : ℕ} (b : Bool) : Proceeds op (.eof b) w .none (.ensure b .closed) w
  | passed {w : ℕ} (b : Bool) (flag : Flag) :
      Proceeds op (.ensure b flag) w .none (op.afterEnsure b flag) w
  | requested {w : ℕ} : Proceeds op .gate w .request .gateWait w
  | granted {w : ℕ} : Proceeds op .gateWait w .none op.enterGate w
  | openSeen {w : ℕ} : Proceeds op .streamClosed w .none .stream w
  | stream {w : ℕ} : Proceeds op .stream w .none .io w
  | part {w : ℕ} (data : List UInt8) (n : ℕ) : op = .send data → 0 < n → w + n < data.length →
      Proceeds op .io w (.write ((data.drop w).take n)) .io (w + n)
  | rest {w : ℕ} (data : List UInt8) (n : ℕ) : op = .send data → 0 < n → w + n = data.length →
      Proceeds op .io w (.write ((data.drop w).take n)) (.unwind (.ok .unit)) (w + n)
  | read {w : ℕ} (chunk : List UInt8) : op.reads = true →
      Proceeds op .io w .none (.unwind (.ok (.data chunk))) w
  | released {w : ℕ} (v : Value) : Proceeds op (.unwind (.ok v)) w .leave (.done (.ok v)) w

/-- No branch of a token is ready. -/
theorem giveUp_eq_none (hcalm : sh.Calm) : op.giveUp sh choice = none := by
  unfold Op.giveUp
  rw [hcalm.closeToken, hcalm.readShutdownToken]
  cases choice <;> simp

theorem interrupted_eq_none (hcalm : sh.Calm) : op.interrupted sh w choice = none := by
  unfold Op.interrupted
  rw [hcalm.closeToken]
  split
  · simp
  · simp
  · exact giveUp_eq_none hcalm

/-- **The way of a call.** -/
theorem proceeds_of_poll [DecidableEq ι] (hcalm : sh.Calm) (hop : call.op.Carries)
    (hway : call.op.OnWay call.pc) (hchoice : choice.Calm)
    (h : call.poll sh id choice = some (call', effect)) :
    call'.op = call.op ∧
      Proceeds call.op call.pc call.written effect call'.pc call'.written := by
  obtain ⟨op, pc, w⟩ := call
  dsimp only at hop hway ⊢
  have hflag : ∀ flag, sh.state.load flag = false := by
    intro flag
    rw [hcalm.state]
    cases flag <;> rfl
  have heof : sh.state.peerSentEof = false := hflag .peerSentEof
  have hclosed : sh.state.closed = false := hflag .closed
  unfold Call.poll at h
  dsimp only at h
  split at h
  case h_1 => cases h; exact ⟨rfl, .entered⟩
  case h_2 b =>
    cases h
    rw [heof]
    exact ⟨rfl, .notEof b⟩
  case h_3 b flag =>
    cases h
    rw [hflag]
    exact ⟨rfl, .passed b flag⟩
  case h_4 => exact hway.elim
  case h_5 => exact hway.elim
  case h_6 => cases h; exact ⟨rfl, .requested⟩
  case h_7 => rw [giveUp_eq_none hcalm] at h; exact absurd h.symm (Option.some_ne_none _)
  case h_8 =>
    split_ifs at h
    cases h; exact ⟨rfl, .granted⟩
  case h_9 => exact hchoice.elim
  case h_10 => rw [giveUp_eq_none hcalm] at h; exact absurd h.symm (Option.some_ne_none _)
  case h_11 => exact hway.elim
  case h_12 => exact hway.elim
  case h_13 =>
    cases h
    rw [hclosed]
    exact ⟨rfl, .openSeen⟩
  case h_14 =>
    cases h
    rw [hcalm.stream]
    exact ⟨rfl, .stream⟩
  case h_15 =>
    rw [interrupted_eq_none hcalm] at h
    obtain ⟨⟨pc, w', effect⟩, hio, he⟩ := Option.map_eq_some_iff.mp h
    cases he
    refine ⟨rfl, ?_⟩
    rcases hop with ⟨max, rfl⟩ | ⟨data, rfl⟩
    · cases choice with
      | read chunk =>
        simp only [pollIo] at hio
        split_ifs at hio with hlen hempty
        · exact absurd (List.isEmpty_iff.mp hempty) hchoice
        · cases hio
          exact .read chunk rfl
      | fail text => exact hchoice.elim
      | _ => exact absurd hio.symm (Option.some_ne_none _)
    · cases choice with
      | accept n =>
        simp only [pollIo, pollSend] at hio
        split_ifs at hio with hzero hle hlt
        · exact absurd hzero hchoice
        · cases hio; exact .part data n rfl (Nat.pos_of_ne_zero hzero) hlt
        · cases hio; exact .rest data n rfl (Nat.pos_of_ne_zero hzero) (by omega)
      | fail text => exact hchoice.elim
      | _ => exact absurd hio.symm (Option.some_ne_none _)
  case h_16 => exact hway.elim
  case h_17 => exact hway.elim
  case h_18 outcome =>
    obtain ⟨v, rfl, -⟩ := hway
    cases h
    exact ⟨rfl, .released v⟩
  case h_19 => exact absurd h.symm (Option.some_ne_none _)

/-! ### What a step of a call keeps -/

/-- Nobody is at the gates but one call, at its own, if it has asked for it. -/
def Shared.Held (sh : Shared ι) (id : ι) (op : Op) (behind : Bool) : Prop :=
  sh.readGate.queue = (if op.reads && behind then [id] else []) ∧
    sh.writeGate.queue = (if !op.reads && behind then [id] else [])

theorem Op.Carries.enter (h : op.Carries) :
    (op.enter = .eof false ∧ op.reads = true) ∨
      (op.enter = .ensure false .closed ∧ op.buffer ≠ []) ∨
      ∃ v, op.enter = .done (.ok v) ∧ op.Returns v := by
  rcases h with ⟨max, rfl⟩ | ⟨data, rfl⟩
  · by_cases hmax : max = 0
    · exact Or.inr (Or.inr ⟨_, if_pos hmax, trivial⟩)
    · exact Or.inl ⟨if_neg hmax, rfl⟩
  · by_cases hdata : data = []
    · exact Or.inr (Or.inr ⟨_, if_pos (List.isEmpty_iff.mpr hdata), trivial⟩)
    · exact Or.inr (Or.inl ⟨if_neg fun h => hdata (List.isEmpty_iff.mp h), hdata⟩)

theorem Op.Carries.afterChecks (h : op.Carries) : op.afterChecks = .gate := by
  rcases h with ⟨max, rfl⟩ | ⟨data, rfl⟩ <;> rfl

theorem Op.Carries.enterGate (h : op.Carries) :
    (op.enterGate = .eof true ∧ op.reads = true) ∨ op.enterGate = .ensure true .closed := by
  rcases h with ⟨max, rfl⟩ | ⟨data, rfl⟩
  · exact Or.inl ⟨rfl, rfl⟩
  · exact Or.inr rfl

/-- A call on its way has not failed, and has not found the end of the stream. -/
theorem Op.OnWay.not_broken (h : call.op.OnWay call.pc) : ¬call.Broken := by
  unfold Call.Broken
  rintro (⟨e, he⟩ | hend)
  · cases hpc : call.pc <;> rw [hpc] at h he <;> simp_all [PC.outcome, Op.OnWay]
  · cases hpc : call.pc <;> rw [hpc] at h hend <;> simp_all [PC.outcome, Op.OnWay, Op.Returns]

/-- A call stays on its way. -/
theorem Proceeds.onWay (h : Proceeds op pc w effect pc' w') (hop : op.Carries)
    (hway : op.OnWay pc) : op.OnWay pc' := by
  cases h with
  | entered =>
    rcases hop.enter with ⟨h, hreads⟩ | ⟨h, hbuffer⟩ | ⟨v, h, hv⟩ <;> rw [h]
    · exact hreads
    · exact Or.inr hbuffer
    · exact ⟨v, rfl, hv⟩
  | notEof b => exact Or.inl hway
  | passed b flag =>
    cases b <;> cases flag <;> simp only [Op.afterEnsure, hop.afterChecks] <;> exact hway
  | granted =>
    rcases hop.enterGate with ⟨h, hreads⟩ | h <;> rw [h]
    · exact hreads
    · exact hway
  | rest data n hdata _ _ => exact ⟨_, rfl, hdata ▸ trivial⟩
  | read chunk hreads =>
    refine ⟨_, rfl, ?_⟩
    rcases hop with ⟨max, rfl⟩ | ⟨data, rfl⟩
    · trivial
    · exact absurd hreads Bool.false_ne_true
  | released v => exact hway
  | _ => exact hway

/-- A call moves at its gate, and leaves everything else in the shared state but the bytes. -/
theorem Proceeds.keeps [DecidableEq ι] (h : Proceeds op pc w effect pc' w') (hop : op.Carries)
    (hcalm : sh.Calm) (hheld : sh.Held id op pc.behind) :
    (sh.perform id op effect).Calm ∧ (sh.perform id op effect).Held id op pc'.behind := by
  obtain ⟨hstate, hclose, hread, hstream⟩ := hcalm
  cases h with
  | entered =>
    refine ⟨⟨hstate, hclose, hread, hstream⟩, ?_⟩
    rcases hop.enter with ⟨h, -⟩ | ⟨h, -⟩ | ⟨v, h, -⟩ <;> rw [h] <;> exact hheld
  | passed b flag =>
    refine ⟨⟨hstate, hclose, hread, hstream⟩, ?_⟩
    cases b <;> cases flag <;> simp only [Op.afterEnsure, hop.afterChecks] <;> exact hheld
  | granted =>
    refine ⟨⟨hstate, hclose, hread, hstream⟩, ?_⟩
    rcases hop.enterGate with ⟨h, -⟩ | h <;> rw [h] <;> exact hheld
  | requested =>
    refine ⟨⟨?_, ?_, ?_, ?_⟩, ?_⟩
    · rw [Shared.perform, Shared.onGate_state, hstate]
    · rw [Shared.perform, Shared.onGate_closeToken, hclose]
    · rw [Shared.perform, Shared.onGate_readShutdownToken, hread]
    · rw [Shared.perform, Shared.onGate_stream, hstream]
    · unfold Shared.Held at hheld ⊢
      unfold Shared.perform Shared.onGate
      cases hreads : op.reads <;> simp_all [PC.behind, FifoMutex.request]
  | released v =>
    refine ⟨⟨?_, ?_, ?_, ?_⟩, ?_⟩
    · rw [Shared.perform, Shared.onGate_state, hstate]
    · rw [Shared.perform, Shared.onGate_closeToken, hclose]
    · rw [Shared.perform, Shared.onGate_readShutdownToken, hread]
    · rw [Shared.perform, Shared.onGate_stream, hstream]
    · unfold Shared.Held at hheld ⊢
      unfold Shared.perform Shared.onGate
      cases hreads : op.reads <;>
        simp_all [PC.behind, FifoMutex.leave, FifoMutex.holder]
  | _ => exact ⟨⟨hstate, hclose, hread, hstream⟩, hheld⟩

/-- **The measure of a call.** -/
theorem Proceeds.distance (h : Proceeds op pc w effect pc' w') (hop : op.Carries)
    (houtcome : pc'.outcome = pc.outcome) (hquiet : ∀ bytes, effect = .write bytes → bytes = []) :
    pc'.distance < pc.distance := by
  cases h with
  | entered =>
    rcases hop.enter with ⟨h, -⟩ | ⟨h, -⟩ | ⟨v, h, -⟩
    · rw [h]; decide
    · rw [h]; decide
    · rw [h] at houtcome; exact absurd houtcome (by simp [PC.outcome])
  | notEof b => cases b <;> decide
  | passed b flag =>
    rcases hop with ⟨max, rfl⟩ | ⟨data, rfl⟩ <;> cases b <;> cases flag <;>
      simp [Op.afterEnsure, Op.afterChecks, Op.flag, PC.distance]
  | granted => rcases hop.enterGate with ⟨h, -⟩ | h <;> rw [h] <;> decide
  | part data n hdata hpos hlt =>
    have hlen := congrArg List.length (hquiet _ rfl)
    rw [List.length_take, List.length_drop, List.length_nil] at hlen
    omega
  | rest data n _ _ _ => exact absurd houtcome (by simp [PC.outcome])
  | read chunk _ => exact absurd houtcome (by simp [PC.outcome])
  | _ => simp [PC.distance]

/-- **Where a call can be stuck**: where it has returned, and at a raw read. -/
theorem exists_poll [DecidableEq ι] (hcalm : sh.Calm) (hop : call.op.Carries)
    (hway : call.op.OnWay call.pc) (hheld : sh.Held id call.op call.pc.behind)
    (hwritten : call.pc = .io → call.op.buffer ≠ [] → call.written < call.op.buffer.length)
    (hdone : ∀ outcome, call.pc ≠ .done outcome) :
    (call.pc = .io ∧ ∃ max, call.op = .receive max) ∨
      ∃ choice, choice.Calm ∧ choice.chunk = [] ∧ (call.poll sh id choice).isSome := by
  obtain ⟨op, pc, w⟩ := call
  dsimp only at hop hway hheld hwritten hdone ⊢
  cases pc with
  | gate => exact Or.inr ⟨.gate, trivial, rfl, rfl⟩
  | gateWait =>
    have hholder : (sh.gate op).holder = some id := by
      unfold Shared.gate FifoMutex.holder
      cases hreads : op.reads <;> simp_all [Shared.Held, PC.behind]
    exact Or.inr ⟨.gate, trivial, rfl, by simp [Call.poll, hholder]⟩
  | io =>
    rcases hop with ⟨max, rfl⟩ | ⟨data, rfl⟩
    · exact Or.inl ⟨rfl, max, rfl⟩
    · have hlt : w + 1 ≤ data.length :=
        hwritten rfl (hway.resolve_left Bool.false_ne_true)
      refine Or.inr ⟨.accept 1, one_ne_zero, rfl, ?_⟩
      simp [Call.poll, interrupted_eq_none hcalm, pollIo, pollSend, hlt]
  | done outcome => exact absurd rfl (hdone outcome)
  | start => exact Or.inr ⟨.go, trivial, rfl, rfl⟩
  | eof b => exact Or.inr ⟨.go, trivial, rfl, rfl⟩
  | ensure b flag => exact Or.inr ⟨.go, trivial, rfl, rfl⟩
  | streamClosed => exact Or.inr ⟨.go, trivial, rfl, rfl⟩
  | stream => exact Or.inr ⟨.go, trivial, rfl, rfl⟩
  | unwind outcome => exact Or.inr ⟨.go, trivial, rfl, rfl⟩
  | _ => exact hway.elim

/-! ### What a step of two tasks keeps -/

variable {κ ν α : Type} {s s' : Tasks κ ν α} {side : Side} {core : Core (ℕ ⊕ κ)} {task : Task ν α}

/-- The steps that disturb nothing. -/
def TaskLabel.Calm : TaskLabel κ → Prop
  | .note _ => True
  | .call _ => True
  | .poll _ choice => choice.Calm
  | .answer _ => True
  | _ => False

/-- A task on a connection that it has for itself. -/
structure Task.Calm (core : Core (ℕ ⊕ κ)) (task : Task ν α) : Prop where
  shared : core.shared.Calm
  fresh : ∀ n, task.made < n → core.calls (.inl n) = none
  idle : task.waits = false → core.calls (.inl task.made) = none ∧
    core.shared.readGate.queue = [] ∧ core.shared.writeGate.queue = []
  way : task.waits = true → ∃ call, core.calls (.inl task.made) = some call ∧
    call.op.OnWay call.pc ∧ core.shared.Held (.inl task.made) call.op call.pc.behind

/-- Two tasks that nothing has disturbed. -/
structure TasksCalm (s : Tasks κ ν α) : Prop where
  inv : TasksInv s
  calm : ∀ side, (s.task side).Calm (s.link.core side)
  kept : ∀ side, s.link.discarded side = false

/-- What is left of the way of a task to its next operation. -/
def Task.distance (core : Core (ℕ ⊕ κ)) (task : Task ν α) : ℕ :=
  if task.waits then (core.calls (.inl task.made)).elim 0 fun call => call.pc.distance else 30

theorem Task.distance_of_waits (hwaits : task.waits = true)
    (hcall : core.calls (.inl task.made) = some call) : task.distance core = call.pc.distance := by
  rw [distance, if_pos hwaits, hcall, Option.elim_some]

theorem Task.distance_of_idle (hidle : task.waits = false) : task.distance core = 30 := by
  rw [distance, if_neg (by simp [hidle])]

def Tasks.distance (s : Tasks κ ν α) : ℕ :=
  (s.task .left).distance (s.link.core .left) + (s.task .right).distance (s.link.core .right)

theorem carries_of_opOf {p : StreamProg Error ν α} (h : opOf p = some op) : op.Carries := by
  cases p with
  | receive max next => exact Or.inl ⟨max, (Option.some.inj h).symm⟩
  | send bytes next => exact Or.inr ⟨bytes, (Option.some.inj h).symm⟩
  | _ => exact absurd h.symm (Option.some_ne_none _)

theorem tasksCalm_start {p q : StreamProg Error ν α} (hp : p.Asks) (hq : q.Asks) :
    TasksCalm (.start p q : Tasks κ ν α) where
  inv := tasksInv_start hp hq
  calm side := by
    cases side <;>
      exact ⟨⟨rfl, rfl, rfl, rfl⟩, fun _ _ => rfl, fun _ => ⟨rfl, rfl, rfl⟩,
        fun h => absurd h Bool.false_ne_true⟩
  kept _ := rfl

/-- **A step on one side**, with what has to be known of it. -/
theorem TasksCalm.moved {quiet broken : Prop} (h : TasksCalm s) (hinv' : TasksInv s')
    (hmoves : s.Moves s' side quiet broken)
    (hcore : s'.link.core side.other = s.link.core side.other)
    (htask : s'.task side.other = s.task side.other)
    (hkept : s'.link.discarded = s.link.discarded)
    (hcalm : (s'.task side).Calm (s'.link.core side)) (hbroken : ¬broken)
    (hdistance : quiet → s'.link.flight side = s.link.flight side →
      (s'.task side).distance (s'.link.core side) < (s.task side).distance (s.link.core side)) :
    TasksCalm s' ∧
      (Duplex.Step s.view s'.view ∨ (s'.view = s.view ∧ s'.distance < s.distance)) := by
  refine ⟨⟨hinv', fun d => ?_, fun d => hkept ▸ h.kept d⟩, ?_⟩
  · rcases side.eq_or_eq_other d with rfl | rfl
    · exact hcalm
    · rw [hcore, htask]
      exact h.calm _
  · rcases hmoves.cases with ⟨hquiet, hsame, hflight⟩ | hstep | ⟨hbreaks, -⟩
    · have hlt := hdistance hquiet hflight
      refine Or.inr ⟨hsame, ?_⟩
      unfold Tasks.distance
      cases side with
      | left =>
        rw [show s'.task .right = s.task .right from htask,
          show s'.link.core .right = s.link.core .right from hcore]
        omega
      | right =>
        rw [show s'.task .left = s.task .left from htask,
          show s'.link.core .left = s.link.core .left from hcore]
        omega
    · exact Or.inl hstep
    · exact absurd hbreaks hbroken

variable [DecidableEq κ]

omit [DecidableEq κ] in
/-- A step of a core discards no connection, and leaves the other core. -/
theorem Link.frame_of_act [DecidableEq κ] {link link' : Link (ℕ ⊕ κ)} {label : Label (ℕ ⊕ κ)}
    (h : link.step (.act side label) = some link') :
    link'.discarded = link.discarded ∧ link'.core side.other = link.core side.other := by
  simp only [Link.step] at h
  split at h
  · exact absurd h.symm (Option.some_ne_none _)
  obtain ⟨core', -, rfl⟩ := Option.map_eq_some_iff.mp h
  exact ⟨rfl, Function.update_of_ne side.other_ne ..⟩

/-- **A poll** brings the pending call further on its way. -/
theorem Task.Calm.polled {core' : Core (ℕ ⊕ κ)} (h : task.Calm core) (hwaits : task.waits = true)
    (hcall : core.calls (.inl task.made) = some call) (hop : call.op.Carries)
    (hchoice : choice.Calm) (hstep : core.step (.poll (.inl task.made) choice) = some core') :
    task.Calm core' ∧ ∃ call' effect, core'.calls (.inl task.made) = some call' ∧
      core'.shared = core.shared.perform (.inl task.made) call.op effect ∧
      call'.op.OnWay call'.pc ∧
      Proceeds call.op call.pc call.written effect call'.pc call'.written := by
  obtain ⟨c, hc, hway, hheld⟩ := h.way hwaits
  obtain rfl := Option.some.inj (hcall.symm.trans hc)
  simp only [Core.step, hcall, Option.map_eq_some_iff] at hstep
  obtain ⟨⟨call', effect⟩, hpoll, hcore⟩ := hstep
  obtain ⟨hop', hproceeds⟩ := proceeds_of_poll h.shared hop hway hchoice hpoll
  obtain ⟨hshared, hheld'⟩ := hproceeds.keeps hop h.shared hheld
  have hperform : core'.shared = core.shared.perform (.inl task.made) call.op effect := by
    rw [← hcore]
  have hcalls : core'.calls = Function.update core.calls (.inl task.made) (some call') := by
    rw [← hcore]
  have hcall' : core'.calls (.inl task.made) = some call' := by
    rw [hcalls, Function.update_self]
  have hway' : call'.op.OnWay call'.pc := hop'.symm ▸ hproceeds.onWay hop hway
  refine ⟨⟨hperform ▸ hshared, fun n hn => ?_, fun hidle => ?_, fun _ => ?_⟩,
    call', effect, hcall', hperform, hway', hproceeds⟩
  · rw [hcalls, Function.update_of_ne (by simp; omega)]
    exact h.fresh n hn
  · exact absurd (hwaits.symm.trans hidle) (by simp)
  · exact ⟨call', hcall', hway', by rw [hop', hperform]; exact hheld'⟩

/-- **What a step keeps, and the measure.** -/
theorem TasksCalm.step (h : TasksCalm s) {label : TaskLabel κ} (hready : s.Ready label)
    (hlabel : label.Calm) (hstep : s.step label = some s') :
    TasksCalm s' ∧
      (Duplex.Step s.view s'.view ∨ (s'.view = s.view ∧ s'.distance < s.distance)) := by
  obtain ⟨hinv', hmoves⟩ := h.inv.step hready hstep
  cases label with
  | note side =>
    change s.Moves s' side _ _ at hmoves
    simp only [Tasks.step] at hstep
    split at hstep
    · obtain rfl := Option.some.inj hstep
      refine h.moved hinv' hmoves rfl (Function.update_of_ne side.other_ne ..) rfl ?_ not_false
        fun hquiet => hquiet.elim
      dsimp only
      rw [Function.update_self]
      obtain ⟨hshared, hfresh, hidle, hway⟩ := h.calm side
      exact ⟨hshared, hfresh, hidle, hway⟩
    · exact absurd hstep.symm (Option.some_ne_none _)
  | call side =>
    change s.Moves s' side _ _ at hmoves
    simp only [Tasks.step] at hstep
    split at hstep
    · exact absurd hstep.symm (Option.some_ne_none _)
    next hidle =>
    obtain ⟨op, -, hmove⟩ := Option.bind_eq_some_iff.mp hstep
    obtain ⟨hlink, htask, hother⟩ := Tasks.of_move hmove
    obtain ⟨hkept, hcores⟩ := Link.frame_of_act hlink
    have hact : s.link.Ready (.act side (.call (.inl (s.task side).made) op)) := trivial
    obtain ⟨core', hcore, hupdate, -, -⟩ := Link.flight_of_act h.inv.link hact hlink
    obtain rfl : s'.link.core side = core' := by rw [hupdate, Function.update_self]
    obtain ⟨hshared, hcalls⟩ := Core.of_call hcore
    have hcall : (s'.link.core side).calls (.inl (s.task side).made) = some { op } := by
      rw [hcalls, Function.update_self]
    obtain ⟨-, hread, hwrite⟩ := (h.calm side).idle (by simpa using hidle)
    refine h.moved hinv' hmoves hcores hother hkept ?_ not_false fun _ _ => ?_
    · rw [htask]
      refine ⟨hshared ▸ (h.calm side).shared, fun n hn => ?_, fun hwaits => ?_, fun _ => ?_⟩
      · rw [hcalls, Function.update_of_ne (by simp at hn ⊢; omega)]
        exact (h.calm side).fresh n hn
      · exact absurd hwaits (by simp)
      · refine ⟨_, hcall, trivial, ?_⟩
        rw [hshared]
        exact ⟨by simpa [PC.behind] using hread, by simpa [PC.behind] using hwrite⟩
    · have hdistance : (s'.task side).distance (s'.link.core side) = PC.start.distance := by
        rw [htask, Task.distance, if_pos rfl, hcall]
        rfl
      rw [hdistance, Task.distance_of_idle (by simpa using hidle)]
      decide
  | poll side choice =>
    change s.Moves s' side _ _ at hmoves
    simp only [Tasks.step] at hstep
    split at hstep
    · next hwaits =>
      obtain ⟨hlink, htask, hother⟩ := Tasks.of_move hstep
      obtain ⟨hkept, hcores⟩ := Link.frame_of_act hlink
      obtain ⟨core', hcore, hupdate, -, hout⟩ := Link.flight_of_act h.inv.link hready hlink
      obtain rfl : s'.link.core side = core' := by rw [hupdate, Function.update_self]
      obtain ⟨call, hcall, hop⟩ := h.inv.pending side hwaits
      obtain ⟨hcalm, call', effect, hcall', hperform, hway', hproceeds⟩ :=
        (h.calm side).polled hwaits hcall (carries_of_opOf hop) hlabel hcore
      refine h.moved hinv' hmoves hcores hother hkept (by rwa [htask]) ?_ ?_
      · rintro ⟨c', hc', hbroken⟩
        obtain rfl := Option.some.inj (hcall'.symm.trans hc')
        exact hway'.not_broken hbroken
      · rintro ⟨c, c', hc, hc', houtcome⟩ hflight
        obtain rfl := Option.some.inj (hcall.symm.trans hc)
        obtain rfl := Option.some.inj (hcall'.symm.trans hc')
        rw [htask, Task.distance_of_waits hwaits hcall, Task.distance_of_waits hwaits hcall']
        refine hproceeds.distance (carries_of_opOf hop) houtcome ?_
        rintro bytes rfl
        have hgrows := hout bytes (by rw [hperform]; rfl)
        exact List.self_eq_append_right.mp (hflight.symm.trans hgrows)
    · exact absurd hstep.symm (Option.some_ne_none _)
  | answer side =>
    change s.Moves s' side _ _ at hmoves
    simp only [Tasks.step] at hstep
    split at hstep
    · next hwaits =>
      obtain ⟨call, hcall, hstep⟩ := Option.bind_eq_some_iff.mp hstep
      split at hstep
      · next outcome hpc =>
        obtain ⟨next, hnext, rfl⟩ := Option.map_eq_some_iff.mp hstep
        obtain ⟨c, hc, hway, hread, hwrite⟩ := (h.calm side).way hwaits
        obtain rfl := Option.some.inj (hcall.symm.trans hc)
        have hself : Function.update s.task side ⟨next, (s.task side).made + 1, false⟩ side
            = ⟨next, (s.task side).made + 1, false⟩ := Function.update_self ..
        refine h.moved hinv' hmoves rfl (Function.update_of_ne side.other_ne ..) rfl ?_ not_false
          fun _ _ => ?_
        · dsimp only
          rw [hself]
          refine ⟨(h.calm side).shared,
            fun n hn => (h.calm side).fresh n (by dsimp only at hn; omega),
            fun _ => ⟨(h.calm side).fresh _ (Nat.lt_succ_self _), ?_, ?_⟩,
            fun hwaits => absurd hwaits Bool.false_ne_true⟩
          · rw [hread, hpc]
            simp [PC.behind]
          · rw [hwrite, hpc]
            simp [PC.behind]
        · dsimp only
          rw [hself, Task.distance_of_waits hwaits hcall, Task.distance_of_idle rfl, hpc]
          exact Nat.lt_succ_self _
      · exact absurd hstep.symm (Option.some_ne_none _)
    · exact absurd hstep.symm (Option.some_ne_none _)
  | _ => exact hlabel.elim

/-! ### Where a run can stop -/

/-- A task that cannot step by itself: its program has ended, or it is at a raw read and nothing is
in flight to it. -/
def Task.Rests (core : Core (ℕ ⊕ κ)) (inbox : List UInt8) (task : Task ν α) : Prop :=
  (task.waits = false ∧ ((∃ a, task.prog = .pure a) ∨ ∃ e, task.prog = .fail e)) ∨
    (inbox = [] ∧ (task.rest core).Waits)

/-- A core that makes a step makes one of the link. -/
theorem Link.isSome_of_act {link : Link (ℕ ⊕ κ)} {label : Label (ℕ ⊕ κ)}
    (hkept : link.discarded side = false) (h : ((link.core side).step label).isSome) :
    (link.step (.act side label)).isSome := by
  simp only [Link.step, hkept, Bool.false_eq_true, if_false, Option.isSome_map]
  exact h

theorem answer_isSome {p : StreamProg Error ν α} {v : Value} (hop : opOf p = some op)
    (hv : op.Returns v) : (answer p (.ok v)).isSome := by
  cases p with
  | receive max next =>
    obtain rfl := Option.some.inj hop
    cases v with
    | data chunk => rfl
    | _ => exact hv.elim
  | send bytes next =>
    obtain rfl := Option.some.inj hop
    cases v with
    | unit => rfl
    | _ => exact hv.elim
  | _ => exact absurd hop.symm (Option.some_ne_none _)

/-- **Whoever does not rest can step.** -/
theorem TasksCalm.exists_step (h : TasksCalm s) (side : Side)
    (hrests : ¬(s.task side).Rests (s.link.core side) (s.link.flight side.other)) :
    ∃ label, s.Ready label ∧ label.Calm ∧ (s.step label).isSome := by
  cases hwaits : (s.task side).waits with
  | false =>
    have hcall : ∀ op, opOf (s.task side).prog = some op → (s.step (.call side)).isSome := by
      intro op hop
      simp only [Tasks.step, hwaits, Bool.false_eq_true, if_false, hop, Option.bind_some,
        Tasks.move, Option.isSome_map]
      refine Link.isSome_of_act (h.kept side) ?_
      simp only [Core.step, ((h.calm side).idle hwaits).1]
      rfl
    cases hprog : (s.task side).prog with
    | pure a => exact absurd (Or.inl ⟨hwaits, Or.inl ⟨a, hprog⟩⟩) hrests
    | fail e => exact absurd (Or.inl ⟨hwaits, Or.inr ⟨e, hprog⟩⟩) hrests
    | note event next =>
      refine ⟨.note side, trivial, trivial, ?_⟩
      simp only [Tasks.step, hprog]
      rfl
    | receive max next => exact ⟨.call side, trivial, trivial, hcall _ (by rw [hprog]; rfl)⟩
    | send bytes next => exact ⟨.call side, trivial, trivial, hcall _ (by rw [hprog]; rfl)⟩
  | true =>
    obtain ⟨call, hcall, hop⟩ := h.inv.pending side hwaits
    obtain ⟨c, hc, hway, hheld⟩ := (h.calm side).way hwaits
    obtain rfl := Option.some.inj (hcall.symm.trans hc)
    have hpoll : ∀ choice,
        (call.poll (s.link.core side).shared (.inl (s.task side).made) choice).isSome →
        (s.step (.poll side choice)).isSome := by
      intro choice hsome
      simp only [Tasks.step, hwaits, if_true, Tasks.move, Option.isSome_map]
      refine Link.isSome_of_act (h.kept side) ?_
      simp only [Core.step, hcall, Option.isSome_map]
      exact hsome
    by_cases hdone : ∃ outcome, call.pc = .done outcome
    · obtain ⟨outcome, hpc⟩ := hdone
      rw [hpc] at hway
      obtain ⟨v, rfl, hv⟩ := hway
      refine ⟨.answer side, trivial, trivial, ?_⟩
      simp only [Tasks.step, hwaits, if_true, hcall, Option.bind_some, hpc, Option.isSome_map]
      exact answer_isSome hop hv
    obtain ⟨answers, hclose⟩ := h.inv.link.closes side
    have hsound := hclose.wire.sound _ call hcall
    have hwritten : call.pc = .io → call.op.buffer ≠ [] →
        call.written < call.op.buffer.length := by
      intro hio hbuffer
      rw [hio] at hsound
      rcases hsound with h0 | ⟨-, hlt⟩
      · rw [h0]
        exact List.length_pos_iff.mpr hbuffer
      · exact hlt
    rcases exists_poll (h.calm side).shared (carries_of_opOf hop) hway hheld hwritten
      (fun outcome hpc => hdone ⟨outcome, hpc⟩) with ⟨hio, max, hreceive⟩ |
      ⟨choice, hchoice, hchunk, hsome⟩
    · -- at a raw read: the next byte in flight, if there is one
      obtain ⟨next, hprog⟩ : ∃ next, (s.task side).prog = .receive max next := by
        rw [hreceive] at hop
        cases hprog : (s.task side).prog with
        | receive max' next =>
          rw [hprog] at hop
          obtain rfl := Op.receive.inj (Option.some.inj hop)
          exact ⟨next, rfl⟩
        | _ => simp [hprog, opOf] at hop
      cases hflight : s.link.flight side.other with
      | nil =>
        refine absurd (Or.inr ⟨hflight, max, next, ?_⟩) hrests
        rw [Task.rest, if_pos hwaits, hcall, Option.elim_some, hprog]
        exact Call.rest_receive (by rw [hio]; rfl)
      | cons byte inbox =>
        have hmax : 0 < max := by
          have hasks := h.inv.asks side
          rw [hprog] at hasks
          exact hasks.1
        refine ⟨.poll side (.read [byte]), ⟨?_, fun h => absurd h (by simp)⟩,
          List.cons_ne_nil _ _, hpoll _ ?_⟩
        · rw [hflight]
          exact ⟨inbox, rfl⟩
        · have hle : 1 ≤ max := hmax
          obtain ⟨op, pc, w⟩ := call
          dsimp only at hio hreceive
          subst hio hreceive
          simp [Call.poll, interrupted_eq_none (h.calm side).shared, pollIo, hle]
    · refine ⟨.poll side choice, ?_, hchoice, hpoll choice hsome⟩
      cases choice with
      | read chunk => exact absurd hchunk hchoice
      | _ => trivial

omit [DecidableEq κ] in
/-- A program does not act where its task rests, -/
theorem Task.Rests.not_acts {inbox : List UInt8} (h : task.Rests core inbox)
    {p' : StreamProg Error ν α} {outbox inbox' outbox' : List UInt8} :
    ¬Acts (task.rest core) inbox outbox p' inbox' outbox' := by
  intro hacts
  rcases h with ⟨hidle, ⟨a, hprog⟩ | ⟨e, hprog⟩⟩ | ⟨rfl, max, next, hrest⟩
  · rw [Task.rest_of_idle hidle, hprog] at hacts
    cases hacts
  · rw [Task.rest_of_idle hidle, hprog] at hacts
    cases hacts
  · rw [hrest] at hacts
    exact Standing.not_acts (q := .receive max next) trivial hacts

omit [DecidableEq κ] in
/-- and has returned there only if the task has. -/
theorem Task.Rests.returned {inbox : List UInt8} (h : task.Rests core inbox) {a : α}
    (hrest : task.rest core = .pure a) : task.prog = .pure a := by
  rcases h with ⟨hidle, -⟩ | ⟨-, max, next, hwaits⟩
  · rwa [Task.rest_of_idle hidle] at hrest
  · exact absurd (hwaits.symm.trans hrest) (by simp)

/-! ### Programs that follow one script -/

/-- A calm step. -/
def Tasks.CalmStep (s s' : Tasks κ ν α) : Prop :=
  ∃ label, s.Ready label ∧ label.Calm ∧ s.step label = some s'

variable {p q : StreamProg Error ν α} {script : List (Side × UInt8)} {a b : α}

/-- **Every calm run ends.** -/
theorem TasksCalm.acc (h : TasksCalm s) : Acc (fun s' s => Tasks.CalmStep s s') s := by
  obtain ⟨m, hm⟩ : ∃ m, m = s.distance := ⟨_, rfl⟩
  obtain ⟨v, hv⟩ : ∃ v, v = s.view := ⟨_, rfl⟩
  induction v using Duplex.step_wellFounded.induction generalizing s m with
  | _ v ihview =>
    induction m using Nat.strong_induction_on generalizing s with
    | _ m ihdistance =>
      refine ⟨s, fun s' ⟨label, hready, hlabel, hstep⟩ => ?_⟩
      obtain ⟨h', hview | ⟨hview, hdistance⟩⟩ := h.step hready hlabel hstep
      · exact ihview s'.view (hv ▸ hview) h' _ rfl rfl
      · exact ihdistance s'.distance (hm ▸ hdistance) h' rfl (hv.trans hview.symm)

/-- What every calm run keeps. -/
theorem TasksCalm.of_steps (hp : p.Asks) (hq : q.Asks)
    (hleft : StreamProg.Follows .left p script a) (hright : StreamProg.Follows .right q script b)
    (h : Relation.ReflTransGen Tasks.CalmStep (.start p q : Tasks κ ν α) s) :
    TasksCalm s ∧ s.view.Follows a b := by
  induction h with
  | refl => exact ⟨tasksCalm_start hp hq, script, hleft, hright, Or.inl rfl⟩
  | tail _ hstep ih =>
    obtain ⟨label, hready, hlabel, hstep⟩ := hstep
    obtain ⟨h', hview | ⟨hview, -⟩⟩ := ih.1.step hready hlabel hstep
    · exact ⟨h', ih.2.step hview⟩
    · exact ⟨h', hview ▸ ih.2⟩

/-- **Where a calm run stops.** -/
theorem TasksCalm.returned_or_step (h : TasksCalm s) (hfollows : s.view.Follows a b) :
    ((s.task .left).prog = .pure a ∧ (s.task .right).prog = .pure b) ∨
      ∃ s', Tasks.CalmStep s s' := by
  have hsteps : ∀ side, (s.task side).Rests (s.link.core side) (s.link.flight side.other) ∨
      ∃ s', Tasks.CalmStep s s' := by
    intro side
    by_cases hrests : (s.task side).Rests (s.link.core side) (s.link.flight side.other)
    · exact Or.inl hrests
    · obtain ⟨label, hready, hlabel, hsome⟩ := h.exists_step side hrests
      obtain ⟨s', hs'⟩ := Option.isSome_iff_exists.mp hsome
      exact Or.inr ⟨s', label, hready, hlabel, hs'⟩
  rcases hsteps .left with hl | hstep
  · rcases hsteps .right with hr | hstep
    · rcases hfollows.exists_step with ⟨hleft, hright⟩ | ⟨v, hstep⟩
      · exact Or.inl ⟨hl.returned hleft, hr.returned hright⟩
      · cases hstep with
        | left hacts => exact absurd hacts hl.not_acts
        | right hacts => exact absurd hacts hr.not_acts
    · exact Or.inr hstep
  · exact Or.inr hstep

/-- **Two programs that follow one script both return**, whatever the interleaving and however the
raw streams cut the bytes: no calm run goes on for ever, and none stops before both have. -/
theorem tasks_settle (hp : p.Asks) (hq : q.Asks) (hleft : StreamProg.Follows .left p script a)
    (hright : StreamProg.Follows .right q script b)
    (h : Relation.ReflTransGen Tasks.CalmStep (.start p q : Tasks κ ν α) s) :
    Acc (fun s' s => Tasks.CalmStep s s') s ∧
      (((s.task .left).prog = .pure a ∧ (s.task .right).prog = .pure b) ∨
        ∃ s', Tasks.CalmStep s s') := by
  obtain ⟨hcalm, hfollows⟩ := TasksCalm.of_steps hp hq hleft hright h
  exact ⟨hcalm.acc, hcalm.returned_or_step hfollows⟩

/-- A calm run is a run. -/
theorem runs_of_calm (h : Relation.ReflTransGen Tasks.CalmStep s s') :
    Runs Tasks.step Tasks.Ready s s' := by
  induction h with
  | refl => exact .refl
  | tail _ hstep ih =>
    obtain ⟨label, hready, -, hstep⟩ := hstep
    exact ih.tail hready hstep

/-- Two programs that follow one script can both return. -/
theorem exists_returned_of_calm (hp : p.Asks) (hq : q.Asks)
    (hleft : StreamProg.Follows .left p script a) (hright : StreamProg.Follows .right q script b) :
    ∃ s : Tasks κ ν α, Relation.ReflTransGen Tasks.CalmStep (.start p q) s ∧
      (s.task .left).prog = .pure a ∧ (s.task .right).prog = .pure b := by
  refine exists_end_of_acc (tasksCalm_start hp hq).acc fun s hreach => ?_
  obtain ⟨hcalm, hfollows⟩ := TasksCalm.of_steps hp hq hleft hright hreach
  exact hcalm.returned_or_step hfollows

/-! ### One byte -/

/-- A program that reads one byte. -/
def oneByte : StreamProg Error Unit (Option UInt8) :=
  .receive 1 fun r => .pure (match r with
    | .data chunk => chunk.head?
    | .endOfStream => none)

theorem oneByte_follows (byte : UInt8) :
    StreamProg.Follows .right oneByte [(.left, byte)] (some byte) := by
  refine .receive Nat.one_pos fun chunk rest hne hle hcut => ?_
  obtain ⟨b, rfl⟩ : ∃ b, chunk = [b] :=
    List.length_eq_one_iff.mp (le_antisymm hle (List.length_pos_iff.mpr hne))
  obtain ⟨hb, hrest⟩ := List.cons.inj hcut
  obtain rfl := (Prod.mk.inj hb).2
  obtain rfl : [] = rest := hrest
  exact .pure _

/-- A program that sends one. -/
def oneSend (byte : UInt8) : StreamProg Error Unit (Option UInt8) := .send [byte] (.pure none)

theorem oneSend_follows (byte : UInt8) :
    StreamProg.Follows .left (oneSend byte) [(.left, byte)] none := .send (.pure none)

theorem asks_oneByte : oneByte.Asks := ⟨Nat.one_pos, fun _ => trivial⟩

theorem asks_oneSend (byte : UInt8) : (oneSend byte).Asks := trivial

theorem tasks_settle_oneByte :
    ∃ s : Tasks Empty Unit (Option UInt8),
      Relation.ReflTransGen Tasks.CalmStep (.start (oneSend 7) oneByte) s ∧
        (s.task .left).prog = .pure none ∧ (s.task .right).prog = .pure (some 7) := by
  have hsettle := fun (s : Tasks Empty Unit (Option UInt8)) =>
    tasks_settle (s := s) (asks_oneSend 7) asks_oneByte (oneSend_follows 7) (oneByte_follows 7)
  exact exists_end_of_acc (hsettle _ .refl).1 fun s hreach => (hsettle s hreach).2

theorem tasks_refine_oneByte :
    ∃ s : Tasks Empty Unit (Option UInt8), (s.task .right).prog = .pure (some 7) ∧
      Relation.ReflTransGen Duplex.Lossy (.start (oneSend 7) oneByte) s.view ∧
      (s.task .right).rest (s.link.core .right) = .pure (some 7) := by
  obtain ⟨s, hreach, -, hright⟩ : ∃ s : Tasks Empty Unit (Option UInt8), _ :=
    exists_returned_of_calm (asks_oneSend 7) asks_oneByte (oneSend_follows 7) (oneByte_follows 7)
  obtain ⟨hview, hended⟩ := tasks_refine (asks_oneSend 7) asks_oneByte (runs_of_calm hreach)
  exact ⟨s, hright, hview, (hended .right (by rw [hright]; rfl)).trans hright⟩

end Transport

end Taunicorn
