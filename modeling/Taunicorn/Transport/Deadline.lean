import Taunicorn.Transport.Interrupt
import Taunicorn.Transport.Shutdown

/-!
# A send with a deadline

`send_timeout` is `send` with a deadline at its two waits. The two functions are written down
separately in the source; here a connection is compared with itself after some of the calls of
`send_timeout` have been made calls of `send`, and nothing else has been changed: not the calls, not
their order, not an answer of the environment. The readings of the clock are left out, since `send`
has none.

As long as no deadline of those calls fires, and each of their readings makes a deadline, the two
connections stay equal step by step, so that every flag, token and gate, the bytes handed over, and
the outcome and the count of every call agree. A reading that makes no deadline, since the sum is
no instant, panics where `send` goes on. A deadline that fires at the gate leaves no more than an
empty place in its queue, and one that fires in the write loop takes the connection down.

## Main results

* `Core.step_untimed`, `Core.step_timed` — the two connections step alike
* `reads_at` — what a reading of the clock leads to
* `expires_at` — where a deadline can fire
* `Expired.returns` — a call whose deadline has fired returns an error
* `send_timeout_agrees` — `send_timeout` against `send`
* `send_timeout_panics` — a run in which they differ
-/

namespace Taunicorn

namespace Transport

variable {ι : Type} [DecidableEq ι] {p : ι → Bool} {sh : Shared ι} {id : ι} {op : Op}
  {choice : Choice} {effect : Effect} {call call' : Call} {core core' core'' : Core ι}
  {label : Label ι} {timeouts : ι → Duration}

/-! ### Without the deadline -/

/-- The operation without its deadline. -/
def Op.untimed : Op → Op
  | .sendTimeout data _ => .send data
  | op => op

/-- The place without a deadline. -/
def PC.untimed : PC → PC
  | .deadline => .gate
  | pc => pc

def Call.untimed (call : Call) : Call :=
  match call.op with
  | .sendTimeout data _ => ⟨.send data, call.pc.untimed, call.written⟩
  | _ => call

/-- The call without its deadline, if it is selected. -/
def Call.select (selected : Bool) (call : Call) : Call := if selected then call.untimed else call

/-- The connection with the calls that `p` selects made without a deadline. -/
def Core.untimed (p : ι → Bool) (core : Core ι) : Core ι :=
  { core with calls := fun id => (core.calls id).map (Call.select (p id)) }

/-- A step of the connection with the selected calls, without their deadlines: a reading of the
clock is none. -/
def Label.untimed (p : ι → Bool) : Label ι → Option (Label ι)
  | .call id op => some (.call id (if p id then op.untimed else op))
  | .poll id (.now reading) => if p id then none else some (.poll id (.now reading))
  | label => some label

/-- The operation with a deadline. -/
def Op.timed (timeout : Duration) : Op → Op
  | .send data => .sendTimeout data timeout
  | op => op

/-- A step with the selected calls of `send` made with deadlines. -/
def Label.timed (p : ι → Bool) (timeouts : ι → Duration) : Label ι → Label ι
  | .call id op => .call id (if p id then op.timed (timeouts id) else op)
  | label => label

/-- The deadline of a selected call fires. -/
def Label.expires (p : ι → Bool) : Label ι → Bool
  | .poll id .timeout => p id
  | _ => false

/-- **The condition.** Where a selected call reads the clock, the reading and its timeout come to
less than `2 ^ 63` seconds. -/
def Core.representable (p : ι → Bool) (core : Core ι) : Label ι → Bool
  | .poll id (.now reading) =>
    match core.calls id with
    | some ⟨.sendTimeout _ timeout, _, _⟩ =>
      !p id || decide (reading.toNanos + timeout.toNanos < 2 ^ 63 * nanosPerSec)
    | _ => true
  | _ => true

/-- No deadline of a selected call fires, and each is an instant. -/
def Core.timely (p : ι → Bool) (core : Core ι) (label : Label ι) : Bool :=
  !label.expires p && core.representable p label

omit [DecidableEq ι] in
@[simp] theorem Op.untimed_reads (op : Op) : op.untimed.reads = op.reads := by
  cases op <;> rfl

theorem PC.untimed_of_ne {pc : PC} (h : pc ≠ .deadline) : pc.untimed = pc := by
  cases pc <;> first | rfl | exact absurd rfl h

theorem PC.untimed_finish (behindGate : Bool) (outcome : Outcome) :
    (PC.finish behindGate outcome).untimed = .finish behindGate outcome := by
  cases behindGate <;> rfl

theorem Call.untimed_op (call : Call) : call.untimed.op = call.op.untimed := by
  obtain ⟨op, pc, w⟩ := call
  cases op <;> rfl

@[simp] theorem Shared.perform_untimed (sh : Shared ι) (id : ι) (op : Op) (effect : Effect) :
    sh.perform id op.untimed effect = sh.perform id op effect := by
  cases effect <;> simp [Shared.perform, Shared.onGate]

omit [DecidableEq ι] in
/-- The raw stream does not lead back to the deadline. -/
theorem Polled.ne_deadline {pc : PC} {w w' : ℕ} (h : Polled sh id op .io w effect pc w') :
    pc ≠ .deadline := by
  cases h <;> exact PC.noConfusion

/-- A step of `send_timeout` in which it neither reads the clock nor times out is the step of
`send`. -/
theorem Call.poll_sendTimeout (sh : Shared ι) (id : ι) (data : List UInt8) (timeout : Duration)
    {pc : PC} (hpc : pc ≠ .deadline) (w : ℕ) (hchoice : choice ≠ .timeout) :
    (Call.mk (.send data) pc w).poll sh id choice
      = ((Call.mk (.sendTimeout data timeout) pc w).poll sh id choice).map
          fun x => (x.1.untimed, x.2) := by
  have hgive : ∀ choice,
      (Op.send data).giveUp sh choice = (Op.sendTimeout data timeout).giveUp sh choice := by
    intro choice
    cases choice <;> rfl
  have hinterrupted : (Op.send data).interrupted sh w choice
      = (Op.sendTimeout data timeout).interrupted sh w choice := by
    cases choice <;> rfl
  have hio : pollIo (.send data) w choice = pollIo (.sendTimeout data timeout) w choice :=
    (pollSendTimeout_eq data w hchoice).symm
  cases pc with
  | deadline => exact absurd rfl hpc
  | start =>
    cases choice with
    | go => simp only [Call.poll, Op.enter, Option.map_some, Call.untimed]; split <;> rfl
    | _ => rfl
  | eof behindGate =>
    cases choice with
    | go =>
      simp only [Call.poll, Option.map_some, Call.untimed]
      split
      · rw [PC.untimed_finish]
      · rfl
    | _ => rfl
  | ensure behindGate flag =>
    cases choice with
    | go =>
      simp only [Call.poll, Option.map_some, Call.untimed]
      split
      · rw [PC.untimed_finish]
      · cases behindGate <;> cases flag <;> rfl
    | _ => rfl
  | idle behindGate flag =>
    cases choice with
    | go =>
      simp only [Call.poll, Option.map_some, Call.untimed]
      split
      · rw [PC.untimed_finish]
      · cases behindGate <;> cases flag <;> rfl
    | _ => rfl
  | gate =>
    cases choice with
    | gate => rfl
    | _ => simp only [Call.poll, hgive, Option.map_map]; rfl
  | gateWait =>
    cases choice with
    | gate => simp only [Call.poll, apply_ite (Option.map _)]; rfl
    | timeout => exact absurd rfl hchoice
    | _ => simp only [Call.poll, hgive, Option.map_map]; rfl
  | streamClosed =>
    cases choice with
    | go => simp only [Call.poll, Option.map_some, Call.untimed]; split <;> rfl
    | _ => rfl
  | stream =>
    cases choice with
    | go => simp only [Call.poll, Option.map_some, Call.untimed]; split <;> rfl
    | _ => rfl
  | io =>
    simp only [Call.poll, hinterrupted, hio]
    cases (Op.sendTimeout data timeout).interrupted sh w choice with
    | some e => rfl
    | none =>
      cases hpoll : pollIo (.sendTimeout data timeout) w choice with
      | none => rfl
      | some x =>
        have hpolled : Polled sh id _ _ _ x.2.2 x.1 x.2.1 := polled_of_pollIo hpoll
        simp only [Option.map_some, Call.untimed, PC.untimed_of_ne hpolled.ne_deadline]
  | closing stage first error =>
    cases choice with
    | go =>
      simp only [Call.poll, Option.map_some, Call.untimed]
      rcases pollClosing_cases sh stage first error with ⟨stage', first', -, h⟩ | ⟨e, -, h⟩ |
        ⟨-, h | h⟩ <;> rw [h] <;> rfl
    | _ => rfl
  | _ => cases choice <;> rfl

theorem Call.poll_untimed (sh : Shared ι) (id : ι) (call : Call) (hpc : call.pc ≠ .deadline)
    (hchoice : choice ≠ .timeout) :
    call.untimed.poll sh id choice
      = (call.poll sh id choice).map fun x => (x.1.untimed, x.2) := by
  obtain ⟨op, pc, w⟩ := call
  -- the operations that have no deadline are what they were
  have hsame : (∀ pc w, (Call.mk op pc w).untimed = ⟨op, pc, w⟩) →
      (Call.mk op pc w).untimed.poll sh id choice
        = ((Call.mk op pc w).poll sh id choice).map fun x => (x.1.untimed, x.2) := by
    intro huntimed
    rw [huntimed]
    cases hpoll : (Call.mk op pc w).poll sh id choice with
    | none => rfl
    | some x =>
      obtain ⟨⟨op', pc', w'⟩, effect⟩ := x
      obtain rfl : op' = op := (polled_of_poll hpoll).1
      rw [Option.map_some, huntimed]
  cases op with
  | sendTimeout data timeout =>
    have huntimed : (Call.mk (.sendTimeout data timeout) pc w).untimed = ⟨.send data, pc, w⟩ := by
      rw [Call.untimed, PC.untimed_of_ne hpc]
    rw [huntimed]
    exact Call.poll_sendTimeout sh id data timeout hpc w hchoice
  | _ => exact hsame fun _ _ => rfl

theorem Call.poll_select (sh : Shared ι) (id : ι) (call : Call) {selected : Bool}
    (hpc : selected = true → call.pc ≠ .deadline) (hchoice : selected = true → choice ≠ .timeout) :
    (call.select selected).poll sh id choice
      = (call.poll sh id choice).map fun x => (x.1.select selected, x.2) := by
  cases selected with
  | false => simp [Call.select]
  | true => exact call.poll_untimed sh id (hpc rfl) (hchoice rfl)

theorem Call.drop_select (selected : Bool) (call : Call) :
    (call.select selected).drop = call.drop := by
  obtain ⟨op, pc, w⟩ := call
  cases selected with
  | false => rfl
  | true => cases op <;> cases pc <;> rfl

theorem Call.dropped_select (selected : Bool) (call : Call) :
    ({ call with pc := .dropped } : Call).select selected
      = { call.select selected with pc := .dropped } := by
  obtain ⟨op, pc, w⟩ := call
  cases selected with
  | false => rfl
  | true => cases op <;> rfl

theorem Shared.perform_select (sh : Shared ι) (id : ι) (selected : Bool) (call : Call)
    (effect : Effect) :
    sh.perform id (call.select selected).op effect = sh.perform id call.op effect := by
  cases selected with
  | false => rfl
  | true => rw [Call.select, if_pos rfl, Call.untimed_op, Shared.perform_untimed]

/-- The calls of a connection one of whose calls has stepped. -/
theorem Core.untimed_update (p : ι → Bool) (sh : Shared ι) (core : Core ι) (id : ι) (call : Call) :
    (Core.mk sh (Function.update core.calls id (some call))).untimed p
      = ⟨sh, Function.update (core.untimed p).calls id (some (call.select (p id)))⟩ := by
  refine congrArg (Core.mk sh) (funext fun i => ?_)
  by_cases hi : i = id
  · subst hi
    simp
  · simp [Function.update_of_ne hi, Core.untimed]

/-! ### Readings of the clock and deadlines -/

/-- **What a reading of the clock leads to**: to the gate, or to a panic. -/
theorem reads_at {reading : Instant} (h : core.step (.poll id (.now reading)) = some core') :
    ∃ call data timeout, core.calls id = some call ∧ call.op = .sendTimeout data timeout ∧
      call.pc = .deadline ∧ core' = ⟨core.shared, Function.update core.calls id (some { call with
        pc := if reading.toNanos + timeout.toNanos < 2 ^ 63 * nanosPerSec then .gate
          else .panicked })⟩ := by
  rw [Core.step] at h
  cases hcall : core.calls id with
  | none => simp [hcall] at h
  | some call =>
    rw [hcall] at h
    obtain ⟨⟨call', effect⟩, hpoll, rfl⟩ := Option.map_eq_some_iff.mp h
    obtain ⟨op, pc, w⟩ := call
    cases pc with
    | deadline =>
      cases op with
      | sendTimeout data timeout =>
        obtain ⟨rfl, rfl⟩ := Prod.mk.inj (Option.some.inj hpoll)
        refine ⟨_, data, timeout, rfl, rfl, rfl, ?_⟩
        simp only [checkedAdd_isSome_iff, Shared.perform]
      | _ => simp [Call.poll] at hpoll
    | io => cases op <;>
        simp [Call.poll, Op.interrupted, Op.giveUp, pollIo, pollSend, pollSendTimeout] at hpoll
    | _ => simp [Call.poll, Op.giveUp] at hpoll

/-- Nothing but a reading of the clock moves a call from there. -/
theorem reads_of_deadline (hcall : core.calls id = some call) (hpc : call.pc = .deadline)
    (h : core.step (.poll id choice) = some core') :
    ∃ reading data timeout, choice = .now reading ∧ call.op = .sendTimeout data timeout := by
  rw [Core.step, hcall] at h
  obtain ⟨⟨call', effect⟩, hpoll, -⟩ := Option.map_eq_some_iff.mp h
  obtain ⟨op, pc, w⟩ := call
  dsimp only at hpc
  subst hpc
  cases choice with
  | now reading =>
    cases op with
    | sendTimeout data timeout => exact ⟨reading, data, timeout, rfl, rfl⟩
    | _ => simp [Call.poll] at hpoll
  | _ => simp [Call.poll] at hpoll

/-- Some reading makes an instant. -/
theorem exists_representable (timeout : Duration) :
    ∃ reading : Instant, reading.toNanos + timeout.toNanos < 2 ^ 63 * nanosPerSec := by
  refine ⟨⟨-2 ^ 63, 0, le_refl _, by norm_num, nanosPerSec_pos⟩, ?_⟩
  have hsecs := timeout.secs_lt
  have hnanos := timeout.nanos_lt
  simp only [Instant.toNanos, Duration.toNanos, nanosPerSec] at *
  push_cast
  omega

/-- A call that has panicked is where it is. -/
theorem panicked_of_runs {allowed : Core ι → Label ι → Prop} (hcall : core.calls id = some call)
    (hpc : call.pc = .panicked) (hruns : Runs Core.step allowed core core') :
    core'.calls id = some call := by
  refine hruns.invariant (fun c => c.calls id = some call) hcall ?_
  rintro c label c' hcall - hstep
  obtain ⟨i, call', hstepped⟩ := Core.stepped hstep
  rw [hstepped.calls.1]
  by_cases hi : id = i
  · subst hi
    cases hstepped with
    | called id op hnone => exact absurd (hnone.symm.trans hcall) nofun
    | polled id choice call₁ call' effect hcall₁ hop hpolled =>
      obtain rfl := Option.some.inj (hcall.symm.trans hcall₁)
      have hlive := hpolled.live
      rw [hpc] at hlive
      exact hlive.elim
    | dropped id call₁ effect hcall₁ hdrop =>
      obtain rfl := Option.some.inj (hcall.symm.trans hcall₁)
      rcases (drop_eq_some hdrop).1 with h | h | h <;> exact absurd (hpc.symm.trans h) nofun
  · rw [Function.update_of_ne hi, hcall]

/-- The error of a deadline that fires at the gate. -/
def beforeProgress : Error := .msg "socket write timeout before any write progress"

/-- The error of a deadline that fires in the write loop. -/
def afterProgress (data : List UInt8) (written : ℕ) : Error :=
  .msg (s!"socket write timeout after {written} of "
    ++ s!"{data.length} bytes; connection closed because a partial prefix may have been "
    ++ "written")

/-- **Where a deadline can fire**: in the queue of the gate, or at a raw write. -/
theorem expires_at (h : core.step (.poll id .timeout) = some core') :
    ∃ call data timeout, core.calls id = some call ∧ call.op = .sendTimeout data timeout ∧
      ((call.pc = .gateWait ∧
          core' = ⟨{ core.shared with writeGate := core.shared.writeGate.leave id },
            Function.update core.calls id
              (some { call with pc := .done (.error beforeProgress) })⟩) ∨
        (call.pc = .io ∧
          core' = ⟨core.shared, Function.update core.calls id (some { call with
            pc := .closing .closed false (some (afterProgress data call.written)) })⟩)) := by
  rw [Core.step] at h
  cases hcall : core.calls id with
  | none => simp [hcall] at h
  | some call =>
    rw [hcall] at h
    obtain ⟨⟨call', effect⟩, hpoll, rfl⟩ := Option.map_eq_some_iff.mp h
    obtain ⟨op, pc, w⟩ := call
    cases pc with
    | gateWait =>
      cases op with
      | sendTimeout data timeout =>
        obtain ⟨rfl, rfl⟩ := Prod.mk.inj (Option.some.inj hpoll)
        exact ⟨_, data, timeout, rfl, rfl, Or.inl ⟨rfl, rfl⟩⟩
      | _ => simp [Call.poll] at hpoll
    | io =>
      cases op with
      | sendTimeout data timeout =>
        obtain ⟨rfl, rfl⟩ := Prod.mk.inj (Option.some.inj hpoll)
        exact ⟨_, data, timeout, rfl, rfl, Or.inr ⟨rfl, rfl⟩⟩
      | _ => simp [Call.poll, Op.interrupted, Op.giveUp, pollIo, pollSend] at hpoll
    | _ => simp [Call.poll, Op.giveUp] at hpoll

/-! ### Step by step -/

/-- **The two connections step alike**, where no selected call has to do with its deadline. -/
theorem Core.step_select (p : ι → Bool) (core : Core ι) {id : ι}
    (hpc : p id = true → ∀ call, core.calls id = some call → call.pc ≠ .deadline)
    (hchoice : p id = true → choice ≠ .timeout) :
    (core.step (.poll id choice)).map (Core.untimed p)
      = (core.untimed p).step (.poll id choice) := by
  have hcalls : (core.untimed p).calls id = (core.calls id).map (Call.select (p id)) := rfl
  have hshared : (core.untimed p).shared = core.shared := rfl
  simp only [Core.step, hcalls, hshared]
  cases hcall : core.calls id with
  | none => rfl
  | some call =>
    simp only [Option.map_some,
      Call.poll_select core.shared id call (fun h => hpc h call hcall) hchoice, Option.map_map]
    cases call.poll core.shared id choice with
    | none => rfl
    | some x =>
      simp only [Option.map_some, Function.comp_apply, Core.untimed_update, Shared.perform_select]

theorem Core.drop_untimed (p : ι → Bool) (core : Core ι) (id : ι) :
    (core.step (.drop id)).map (Core.untimed p) = (core.untimed p).step (.drop id) := by
  have hcalls : (core.untimed p).calls id = (core.calls id).map (Call.select (p id)) := rfl
  have hshared : (core.untimed p).shared = core.shared := rfl
  simp only [Core.step, hcalls, hshared]
  cases core.calls id with
  | none => rfl
  | some call =>
    simp only [Option.map_some, Call.drop_select, Option.map_map]
    cases call.drop with
    | none => rfl
    | some effect =>
      simp only [Option.map_some, Function.comp_apply, Core.untimed_update, Shared.perform_select,
        Call.dropped_select]

theorem Core.call_untimed (p : ι → Bool) (core : Core ι) (id : ι) (op : Op) :
    (core.step (.call id op)).map (Core.untimed p)
      = (core.untimed p).step (.call id (if p id then op.untimed else op)) := by
  have hcalls : (core.untimed p).calls id = (core.calls id).map (Call.select (p id)) := rfl
  simp only [Core.step, hcalls]
  cases core.calls id with
  | some call => rfl
  | none =>
    simp only [Option.map_some, Option.map_none, Core.untimed_update]
    cases p id with
    | false => rfl
    | true => cases op <;> rfl

/-- The place behind a reading of the clock is the place ahead of it. -/
theorem Core.untimed_gate {data : List UInt8} {timeout : Duration} {w : ℕ} (hp : p id = true)
    (hcall : core.calls id = some ⟨.sendTimeout data timeout, .deadline, w⟩) :
    (Core.mk core.shared (Function.update core.calls id
      (some ⟨.sendTimeout data timeout, .gate, w⟩))).untimed p = core.untimed p := by
  rw [Core.untimed_update]
  refine congrArg (Core.mk core.shared) (Function.update_eq_iff.mpr ⟨?_, fun _ _ => rfl⟩)
  rw [hcall, hp]
  rfl

/-- **Every step with deadlines is a step without**, or a reading of the clock. -/
theorem Core.step_untimed (htimely : core.timely p label = true)
    (h : core.step label = some core') :
    (label.untimed p).elim (core'.untimed p = core.untimed p) fun label' =>
      (core.untimed p).step label' = some (core'.untimed p) := by
  obtain ⟨hexpires, hrepresentable⟩ := Bool.and_eq_true_iff.mp htimely
  cases label with
  | call id op => exact (core.call_untimed p id op).symm.trans (congrArg _ h)
  | drop id => exact (core.drop_untimed p id).symm.trans (congrArg _ h)
  | poll id choice =>
    by_cases hreads : p id = true ∧ ∃ reading, choice = .now reading
    · obtain ⟨hp, reading, rfl⟩ := hreads
      obtain ⟨call, data, timeout, hcall, hop, hpc, rfl⟩ := reads_at h
      obtain ⟨op, pc, w⟩ := call
      dsimp only at hop hpc
      subst hop hpc
      have hfits : reading.toNanos + timeout.toNanos < 2 ^ 63 * nanosPerSec := by
        simpa [Core.representable, hcall, hp] using hrepresentable
      rw [Label.untimed, if_pos hp, if_pos hfits, Option.elim_none]
      exact Core.untimed_gate hp hcall
    · have huntimed : (Label.poll id choice).untimed p = some (.poll id choice) := by
        cases choice with
        | now reading => exact if_neg fun hp => hreads ⟨hp, reading, rfl⟩
        | _ => rfl
      rw [huntimed, Option.elim_some, ← Core.step_select p core, h, Option.map_some]
      · rintro hp call hcall hpc
        obtain ⟨reading, -, -, hreading, -⟩ := reads_of_deadline hcall hpc h
        exact hreads ⟨hp, reading, hreading⟩
      · rintro hp rfl
        simp [Label.expires, hp] at hexpires

omit [DecidableEq ι] in
/-- A selected call has no deadline. -/
theorem Core.untimed_op_ne (hp : p id = true) (hcall : (core.untimed p).calls id = some call)
    (data : List UInt8) (timeout : Duration) : call.op ≠ .sendTimeout data timeout := by
  obtain ⟨c, -, rfl⟩ := Option.map_eq_some_iff.mp hcall
  rw [Call.select, if_pos hp, Call.untimed_op]
  cases c.op <;> exact Op.noConfusion

/-- **Every step without deadlines is a step with them**, behind a reading of the clock where its
call has come to one. -/
theorem Core.step_timed (timeouts : ι → Duration)
    (hlabel : ∀ id data timeout, p id = true → label ≠ .call id (.sendTimeout data timeout))
    (h : (core.untimed p).step label = some core') :
    ∃ labels core'', runLabels Core.step (Core.timely p) core labels = some core'' ∧
      labels.filter (fun label => (label.untimed p).isSome) = [label.timed p timeouts] ∧
      core''.untimed p = core' := by
  -- where one step is enough
  have hone : ∀ label (core : Core ι), core.timely p label = true →
      (core.step label).map (Core.untimed p) = some core' →
      ∃ core'', runLabels Core.step (Core.timely p) core [label] = some core'' ∧
        core''.untimed p = core' := by
    intro label core htimely hstep
    obtain ⟨core'', hstep', huntimed⟩ := Option.map_eq_some_iff.mp hstep
    refine ⟨core'', ?_, huntimed⟩
    rw [runLabels, if_pos htimely, hstep']
    rfl
  cases label with
  | drop id =>
    obtain ⟨core'', hrun, huntimed⟩ := hone _ core rfl ((core.drop_untimed p id).trans h)
    exact ⟨_, core'', hrun, rfl, huntimed⟩
  | call id op =>
    have hop : (if p id then (if p id then op.timed (timeouts id) else op).untimed
        else if p id then op.timed (timeouts id) else op) = op := by
      cases hp : p id with
      | false => rfl
      | true =>
        cases op with
        | sendTimeout data timeout => exact absurd rfl (hlabel id data timeout hp)
        | _ => rfl
    obtain ⟨core'', hrun, huntimed⟩ := hone _ core rfl ((core.call_untimed p id _).trans (hop ▸ h))
    exact ⟨_, core'', hrun, rfl, huntimed⟩
  | poll id choice =>
    have hchoice : p id = true → choice ≠ .timeout := by
      rintro hp rfl
      obtain ⟨call, data, timeout, hcall, hop, -⟩ := expires_at h
      exact Core.untimed_op_ne hp hcall data timeout hop
    have hnow : p id = true → ∀ reading, choice ≠ .now reading := by
      rintro hp reading rfl
      obtain ⟨call, data, timeout, hcall, hop, -⟩ := reads_at h
      exact Core.untimed_op_ne hp hcall data timeout hop
    obtain ⟨htimely, hkept⟩ : (∀ core : Core ι, core.timely p (.poll id choice) = true) ∧
        ((Label.poll id choice).untimed p).isSome = true := by
      cases hp : p id with
      | true =>
        cases choice with
        | timeout => exact absurd rfl (hchoice hp)
        | now reading => exact absurd rfl (hnow hp reading)
        | _ => exact ⟨fun _ => rfl, rfl⟩
      | false =>
        refine ⟨fun core => ?_, ?_⟩
        · cases choice <;> simp only [Core.timely, Label.expires, Core.representable, hp] <;>
            first | rfl | split <;> rfl
        · cases choice <;> simp [Label.untimed, hp]
    by_cases hdeadline : p id = true ∧ ∃ data timeout w,
        core.calls id = some ⟨.sendTimeout data timeout, .deadline, w⟩
    · -- the reading comes first
      obtain ⟨hp, data, timeout, w, hcall⟩ := hdeadline
      obtain ⟨reading, hfits⟩ := exists_representable timeout
      have hsame := Core.untimed_gate hp hcall
      have hread : core.step (.poll id (.now reading)) = some ⟨core.shared,
          Function.update core.calls id (some ⟨.sendTimeout data timeout, .gate, w⟩)⟩ := by
        have hsome := (checkedAdd_isSome_iff reading timeout).mpr hfits
        simp [Core.step, hcall, Call.poll, hsome, Shared.perform]
      have hreads : core.timely p (.poll id (.now reading)) = true := by
        simp only [Core.timely, Label.expires, Core.representable, hcall, decide_eq_true hfits,
          Bool.or_true, Bool.not_false, Bool.and_self]
      have hgate : p id = true → ∀ call, Function.update core.calls id
          (some ⟨.sendTimeout data timeout, .gate, w⟩) id = some call → call.pc ≠ .deadline := by
        intro _ call hc
        rw [Function.update_self, Option.some.injEq] at hc
        subst hc
        exact PC.noConfusion
      obtain ⟨core'', hrun, huntimed⟩ := hone (.poll id choice) _ (htimely _)
        ((Core.step_select p _ hgate hchoice).trans (hsame ▸ h))
      refine ⟨[.poll id (.now reading), .poll id choice], core'', ?_, ?_, huntimed⟩
      · rw [runLabels, if_pos hreads, hread]
        exact hrun
      · have hnone : (Label.poll id (.now reading)).untimed p = none := if_pos hp
        simp [hnone, Label.timed, hkept]
    · have hpc : p id = true → ∀ call, core.calls id = some call → call.pc ≠ .deadline := by
        rintro hp ⟨op, pc, w⟩ hcall rfl
        cases op with
        | sendTimeout data timeout => exact hdeadline ⟨hp, data, timeout, w, hcall⟩
        | _ =>
          -- no other call moves from there
          have hcall' : (core.untimed p).calls id = some _ := congrArg (Option.map _) hcall
          rw [hp] at hcall'
          obtain ⟨reading, data, timeout, -, hop⟩ := reads_of_deadline hcall' rfl h
          exact Op.noConfusion hop
      obtain ⟨core'', hrun, huntimed⟩ := hone (.poll id choice) core (htimely _)
        ((Core.step_select p core hpc hchoice).trans h)
      exact ⟨_, core'', hrun, by simp [Label.timed, hkept], huntimed⟩

/-! ### A deadline that fires -/

/-- A call that is on its way to an error, and takes the connection down. -/
def Expired (closed : Bool) (e : Error) (pc : PC) : Prop :=
  (∃ stage first, pc = .closing stage first (some e) ∧ (stage ≠ .closed → closed = true)) ∨
    (closed = true ∧ (pc = .unwind (.error e) ∨ pc = .done (.error e)))

omit [DecidableEq ι] in
theorem Expired.mono {closed closed' : Bool} {e : Error} {pc : PC} (h : Expired closed e pc)
    (hclosed : closed = true → closed' = true) : Expired closed' e pc := by
  rcases h with ⟨stage, first, hpc, hstage⟩ | ⟨hset, hpc⟩
  · exact Or.inl ⟨stage, first, hpc, fun hne => hclosed (hstage hne)⟩
  · exact Or.inr ⟨hclosed hset, hpc⟩

/-- Its own steps lead it on, -/
theorem Expired.polled {e : Error} {pc pc' : PC} {w w' : ℕ}
    (h : Expired sh.state.closed e pc) (hpolled : Polled sh id op pc w effect pc' w') :
    Expired (sh.perform id op effect).state.closed e pc' := by
  have hlast : sh.state.load .closed = true →
      (sh.perform id op effect).state.load .closed = true := hpolled.load rfl
  rcases h with ⟨stage, first, rfl, hstage⟩ | ⟨hset, rfl | rfl⟩
  · cases hpolled with
    | closing stage first error =>
      have hset :
          (sh.perform id op (pollClosing sh stage first (some e)).2).state.closed = true := by
        by_cases hclosed : stage = .closed
        · subst hclosed
          rfl
        · exact hlast (hstage hclosed)
      rcases pollClosing_cases sh stage first (some e) with ⟨stage', first', -, h⟩ | ⟨e', he, h⟩ |
        ⟨hnone, -⟩
      · exact Or.inl ⟨stage', first', h, fun _ => hset⟩
      · obtain rfl := Option.some.inj he
        exact Or.inr ⟨hset, Or.inl h⟩
      · exact absurd hnone (Option.some_ne_none _)
  · cases hpolled with
    | released outcome => exact Or.inr ⟨hlast hset, Or.inr rfl⟩
  · exact absurd hpolled.live not_false

/-- and so does a poll that nobody else has to allow. -/
theorem Expired.next {e : Error} (h : Expired core.shared.state.closed e call.pc)
    (hcall : core.calls id = some call) :
    call.pc = .done (.error e) ∨ ∃ core' call', core.step (.poll id .go) = some core' ∧
      core'.calls id = some call' ∧ call'.pc.rank < call.pc.rank ∧
      Expired core'.shared.state.closed e call'.pc := by
  have hsteps : ∀ call' effect, call.poll core.shared id .go = some (call', effect) →
      call.pc ≠ .io → ∃ core' call', core.step (.poll id .go) = some core' ∧
        core'.calls id = some call' ∧ call'.pc.rank < call.pc.rank ∧
        Expired core'.shared.state.closed e call'.pc := by
    intro call' effect hpoll hio
    have hpolled := (polled_of_poll hpoll).2
    refine ⟨⟨core.shared.perform id call.op effect, Function.update core.calls id (some call')⟩,
      call', ?_, Function.update_self .., hpolled.rank.resolve_right fun hr => hio hr.1,
      h.polled hpolled⟩
    simp only [Core.step, hcall, hpoll, Option.map_some]
  obtain ⟨op, pc, w⟩ := call
  rcases h with ⟨stage, first, rfl, hstage⟩ | ⟨hset, rfl | rfl⟩
  · exact Or.inr (hsteps _ _ rfl (by simp))
  · exact Or.inr (hsteps _ _ rfl (by simp))
  · exact Or.inl rfl

/-- **A call whose deadline has fired returns an error**, whatever else happens. -/
theorem Expired.returns {e : Error} (h : Expired core.shared.state.closed e call.pc)
    (hcall : core.calls id = some call) : ReturnsAlone core id (.error e) := by
  induction hn : call.pc.rank using Nat.strong_induction_on generalizing core call with
  | h n ih =>
    rcases h.next hcall with hdone | ⟨core', call', hstep, hcall', hlt, hexpired⟩
    · exact .returned hcall hdone
    · exact .polled hstep (ih _ (hn ▸ hlt) hexpired hcall' rfl)

/-- It stays on its way in any company. -/
theorem expired_of_runs {allowed : Core ι → Label ι → Prop} {e : Error}
    (hcall : core.calls id = some call) (h : Expired core.shared.state.closed e call.pc)
    (hruns : Runs Core.step allowed core core') :
    ∃ call', core'.calls id = some call' ∧ Expired core'.shared.state.closed e call'.pc := by
  refine hruns.invariant (fun c => ∃ call', c.calls id = some call' ∧
    Expired c.shared.state.closed e call'.pc) ⟨call, hcall, h⟩ ?_
  rintro c label c' ⟨call, hcall, hexpired⟩ - hstep
  have hlast := load_of_step .closed rfl hstep
  obtain ⟨i, call', hstepped⟩ := Core.stepped hstep
  have hcalls := hstepped.calls.1
  by_cases hi : id = i
  · subst hi
    refine ⟨call', by rw [hcalls, Function.update_self], ?_⟩
    cases hstepped with
    | called id op hnone => exact absurd (hnone.symm.trans hcall) (by simp)
    | polled id choice call₁ call' effect hcall₁ hop hpolled =>
      obtain rfl := Option.some.inj (hcall.symm.trans hcall₁)
      exact hexpired.polled hpolled
    | dropped id call₁ effect hcall₁ hdrop =>
      obtain rfl := Option.some.inj (hcall.symm.trans hcall₁)
      -- a call cannot be dropped where it is
      rcases (drop_eq_some hdrop).1 with hpc | hpc | hpc <;> rw [hpc] at hexpired <;>
        exact absurd hexpired (by simp [Expired])
  · exact ⟨call, by rw [hcalls, Function.update_of_ne hi, hcall], hexpired.mono hlast⟩

theorem Expired.outcome {closed : Bool} {e : Error} {outcome : Outcome}
    (h : Expired closed e call.pc) (houtcome : call.outcome = some outcome) :
    outcome = .error e ∧ closed = true := by
  rw [Call.outcome] at houtcome
  rcases h with ⟨stage, first, hpc, -⟩ | ⟨hset, hpc | hpc⟩ <;> rw [hpc] at houtcome
  · exact absurd houtcome (by simp)
  · exact ⟨(Option.some.inj houtcome).symm, hset⟩
  · exact ⟨(Option.some.inj houtcome).symm, hset⟩

/-! ### Against `send` -/

/-- **`send_timeout` agrees with `send` unless its deadline expires, or is no instant.** From every
state of a connection, take any calls, and any steps of them in any order in which no deadline of
the calls selected by `p` fires and each of their readings of the clock makes a deadline: without
the readings, they are the steps of the connection on which the selected calls are calls of `send`,
and lead to the same flags, tokens, gates and bytes handed over, with the same outcome and the same
count for every call. And all steps of that connection come from such steps. A reading that makes no
deadline ends in a panic: the call never has an outcome. A deadline that fires in the queue of the
gate returns an error with nothing handed over, and changes nothing but that queue; one that fires
in the write loop leads, whatever else happens, to an error and a closed connection. -/
theorem send_timeout_agrees :
    (∀ (p : ι → Bool) (core core' : Core ι) (labels : List (Label ι)),
      runLabels Core.step (Core.timely p) core labels = some core' →
      runLabels Core.step (fun _ _ => true) (core.untimed p) (labels.filterMap (Label.untimed p))
        = some (core'.untimed p)) ∧
    (∀ (p : ι → Bool) (timeouts : ι → Duration) (core core' : Core ι) (labels : List (Label ι)),
      (∀ id data timeout, p id = true → .call id (.sendTimeout data timeout) ∉ labels) →
      runLabels Core.step (fun _ _ => true) (core.untimed p) labels = some core' →
      ∃ labels' core'', runLabels Core.step (Core.timely p) core labels' = some core'' ∧
        labels'.filter (fun label => (label.untimed p).isSome)
          = labels.map (Label.timed p timeouts) ∧ core''.untimed p = core') ∧
    (∀ (core core' : Core ι) (id : ι) (reading : Instant),
      core.step (.poll id (.now reading)) = some core' →
      ∃ call data timeout, core.calls id = some call ∧ call.op = .sendTimeout data timeout ∧
        (2 ^ 63 * nanosPerSec ≤ reading.toNanos + timeout.toNanos →
          ∀ (allowed' : Core ι → Label ι → Prop) (core'' : Core ι),
            Runs Core.step allowed' core' core'' →
            ∃ call', core''.calls id = some call' ∧ call'.outcome = none)) ∧
    ∀ (allowed : Core ι → Label ι → Prop) (core core' : Core ι) (id : ι),
      Runs Core.step allowed {} core → core.step (.poll id .timeout) = some core' →
      ∃ call data timeout, core.calls id = some call ∧ call.op = .sendTimeout data timeout ∧
        ((call.pc = .gateWait ∧ call.written = 0 ∧
            core' = ⟨{ core.shared with writeGate := core.shared.writeGate.leave id },
              Function.update core.calls id
                (some { call with pc := .done (.error beforeProgress) })⟩) ∨
          (call.pc = .io ∧ ∀ (allowed' : Core ι → Label ι → Prop) (core'' : Core ι),
            Runs Core.step allowed' core' core'' →
            ReturnsAlone core'' id (.error (afterProgress data call.written)) ∧
              ∀ call' outcome, core''.calls id = some call' → call'.outcome = some outcome →
                outcome = .error (afterProgress data call.written) ∧
                  core''.shared.state.closed = true)) := by
  refine ⟨fun p core core' labels h => ?_, fun p timeouts core core' labels hlabels h => ?_,
    fun core core' id reading hstep => ?_, fun allowed core core' id hruns hstep => ?_⟩
  · exact runLabels_filterMap (Core.untimed p) (Label.untimed p)
      (fun core label core' htimely hstep => Core.step_untimed htimely hstep) h
  · refine exists_runLabels (Core.untimed p) (Label.timed p timeouts) _
      (fun core label hlabel core' hstep => Core.step_timed timeouts ?_ hstep) h
    rintro id data timeout hp rfl
    exact hlabels id data timeout hp hlabel
  · obtain ⟨call, data, timeout, hcall, hop, -, rfl⟩ := reads_at hstep
    refine ⟨call, data, timeout, hcall, hop, fun hoverflow allowed' core'' hruns => ?_⟩
    rw [if_neg (not_lt.mpr hoverflow)] at hruns
    exact ⟨_, panicked_of_runs (Function.update_self ..) rfl hruns, rfl⟩
  · have hinv : WireInv core :=
      hruns.invariant WireInv wireInv_init fun _ _ _ hinv _ hstep => hinv.step hstep
    obtain ⟨call, data, timeout, hcall, hop, ⟨hpc, rfl⟩ | ⟨hpc, rfl⟩⟩ := expires_at hstep
    · refine ⟨call, data, timeout, hcall, hop, Or.inl ⟨hpc, ?_, rfl⟩⟩
      have hsound := hinv.sound id call hcall
      rwa [hpc] at hsound
    · refine ⟨call, data, timeout, hcall, hop, Or.inr ⟨hpc, fun allowed' core'' hruns' => ?_⟩⟩
      obtain ⟨call', hcall', hexpired⟩ := expired_of_runs (Function.update_self ..)
        (Or.inl ⟨.closed, false, rfl, fun hne => absurd rfl hne⟩) hruns'
      refine ⟨hexpired.returns hcall', fun c outcome hc houtcome => ?_⟩
      obtain rfl := Option.some.inj (hcall'.symm.trans hc)
      exact hexpired.outcome houtcome

/-! A call of `send_timeout` that reads the clock once, and the rest of a `send` of two bytes. -/

def datedRun (timeout : Duration) : List (Label ℕ) :=
  Label.call 0 (.sendTimeout [1, 2] timeout) :: List.replicate 4 (.poll 0 .go)
    ++ [.poll 0 (.now default)]

def sentRun : List (Label ℕ) :=
  List.replicate 2 (Label.poll 0 .gate) ++ List.replicate 5 (.poll 0 .go)
    ++ [.poll 0 (.accept 1), .poll 0 (.accept 1), .poll 0 .go]

/-- One second, and what is one second too much for the reading at zero. -/
abbrev oneSecond : Duration := ⟨1, 0, by decide, nanosPerSec_pos⟩

abbrev tooLong : Duration := ⟨2 ^ 63, 0, by decide, nanosPerSec_pos⟩

def datedCore : Core ℕ :=
  (runLabels Core.step (Core.timely fun _ => true) {} (datedRun oneSecond ++ sentRun)).getD {}

theorem send_timeout_agrees_dated :
    runLabels Core.step (fun _ _ => true) {}
        ((datedRun oneSecond ++ sentRun).filterMap (Label.untimed fun _ => true))
      = some (datedCore.untimed fun _ => true) ∧
      (datedCore.calls 0).map Call.outcome = some (some (.ok .unit)) ∧
      datedCore.shared.wire = [1, 2] :=
  ⟨send_timeout_agrees.1 (fun _ => true) {} datedCore (datedRun oneSecond ++ sentRun) rfl, rfl,
    rfl⟩

def overflowedCore : Core ℕ :=
  (runLabels Core.step (fun _ _ => true) {} (datedRun tooLong)).getD {}

/-- **`send_timeout` panics where `send` goes on**: no deadline fires, and the call has no outcome
in any run, while the call of `send` hands over both bytes and returns. -/
theorem send_timeout_panics :
    (¬∀ (core : Core ℕ) (labels : List (Label ℕ)),
      (∀ label ∈ labels, label.expires (fun _ => true) = false) →
      runLabels Core.step (fun _ _ => true) {} labels = some core →
      runLabels Core.step (fun _ _ => true) {} (labels.filterMap (Label.untimed fun _ => true))
        = some (core.untimed fun _ => true)) ∧
    (∀ core, Runs Core.step (fun _ _ => True) overflowedCore core →
      (core.calls 0).map Call.outcome = some none) ∧
    (runLabels Core.step (fun _ _ => true) {}
        ((datedRun tooLong).filterMap (Label.untimed fun _ => true) ++ sentRun)).map
      (fun core => ((core.calls 0).map Call.outcome, core.shared.wire))
      = some (some (some (.ok .unit)), [1, 2]) := by
  refine ⟨fun h => ?_, fun core hruns => ?_, rfl⟩
  · have hagree := h overflowedCore (datedRun tooLong) (by decide) rfl
    have hpc : some (some PC.gate) = some (some PC.panicked) :=
      congrArg (Option.map fun core : Core ℕ => (core.calls 0).map Call.pc) hagree
    exact absurd (Option.some.inj (Option.some.inj hpc)) PC.noConfusion
  · have hcall : overflowedCore.calls 0 = some ⟨.sendTimeout [1, 2] tooLong, .panicked, 0⟩ := rfl
    rw [panicked_of_runs hcall rfl hruns]
    rfl

end Transport

end Taunicorn
