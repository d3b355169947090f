import Mathlib.Data.Rat.Defs
import Mathlib.Algebra.Order.Ring.Rat
import Taunicorn.Transport.Core

/-!
# Timeouts and the clock

Where a timeout in seconds becomes a deadline. The Python layer converts the seconds to a
`Duration`, whose seconds are unsigned and have 64 bits. A deadline is an `Instant`, whose seconds
are signed and have 64 bits. Three of the four timed operations leave the addition to the runtime,
which checks it and falls back to an instant in the far future; `send_timeout` adds on its own.

An `Instant` on Linux is a count of seconds and of nanoseconds below a second. Adding a `Duration`
with `+` panics where the checked addition has no result.

## Main definitions

* `durationFromSeconds` — the conversion of the Python layer
* `sendTimeoutStart`, `timeoutStart` — a timed operation up to its first wait

## Main results

* `runLabels_sendTimeoutStart` — the call of the connection core comes to the same
* `write_all_timeout_usable_iff` — when `write_all_timeout` accepts a timeout
-/

namespace Taunicorn

namespace Transport

/-! ### Timeouts in seconds -/

/-- A value of the type `f64`. Not every rational is one. -/
inductive Seconds where
  | nan
  | infinity (negative : Bool)
  | finite (value : ℚ)
  deriving DecidableEq

/-- The integer closest to `num / den`, the even one of two. -/
def roundTiesToEven (num den : ℕ) : ℕ :=
  if 2 * (num % den) < den ∨ (2 * (num % den) = den ∧ num / den % 2 = 0) then num / den
  else num / den + 1

/-- `Duration::try_from_secs_f64`: a finite, non-negative value is rounded to nanoseconds. -/
def tryFromSecs : Seconds → Option Duration
  | .nan => none
  | .infinity _ => none
  | .finite value =>
    if value < 0 then none
    else Duration.ofNanos (roundTiesToEven (value.num.toNat * nanosPerSec) value.den)

/-- `duration_from_seconds`, with the text of its `ValueError`. -/
def durationFromSeconds (seconds : Seconds) : Except String Duration :=
  match tryFromSecs seconds with
  | some d => .ok d
  | none => .error "timeout must be a finite, non-negative, representable number"

/-! ### Timed operations up to their first wait -/

/-- What a timed operation waits for, besides its own completion. -/
inductive Deadline where
  | at (t : Instant)
  | farFuture
  deriving DecidableEq

/-- A timed operation, up to its first wait. -/
inductive Start where
  | returned (result : Except Error Unit)
  | panicked
  | waiting (deadline : Deadline)
  deriving DecidableEq

/-- `ensure_write_available`, where no other call steps in between. -/
def ConnectionState.ensureWriteAvailable (s : ConnectionState) : Except Error Unit :=
  if s.closed then .error (.msg Flag.closed.text)
  else if s.paused then .error (.msg Flag.paused.text)
  else if s.writeShutdown then .error (.msg Flag.writeShutdown.text)
  else .ok ()

/-- `ConnectionCore::send_timeout`, at the clock reading `now`. Its `+` panics on overflow. -/
def sendTimeoutStart (s : ConnectionState) (data : List UInt8) (timeout : Duration)
    (now : Instant) : Start :=
  if data.isEmpty then .returned (.ok ())
  else
    match s.ensureWriteAvailable with
    | .error e => .returned (.error e)
    | .ok () =>
      match now.checkedAdd timeout with
      | none => .panicked
      | some deadline => .waiting (.at deadline)

/-- `tokio::time::timeout`, which `accept_timeout`, `connect_timeout` and `read_timeout` call
first. -/
def timeoutStart (timeout : Duration) (now : Instant) : Start :=
  match now.checkedAdd timeout with
  | none => .waiting .farFuture
  | some deadline => .waiting (.at deadline)

/-- `PyConnection::write_all_timeout` on a connection in state `s`. -/
def writeAllTimeout (s : ConnectionState) (data : List UInt8) (seconds : Seconds)
    (now : Instant) : Except String Start := do
  let timeout ← durationFromSeconds seconds
  return sendTimeoutStart s data timeout now

/-- The `accept_timeout`, `connect_timeout` and `read_timeout` of the Python layer. -/
def otherTimeout (seconds : Seconds) (now : Instant) : Except String Start := do
  let timeout ← durationFromSeconds seconds
  return timeoutStart timeout now

/-! ### Timeouts of whole seconds -/

/-- The rounding of a duration loses no whole second. -/
theorem tryFromSecs_natCast {n : ℕ} (h : n < 2 ^ 64) :
    tryFromSecs (.finite n) = some ⟨n, 0, h, by decide⟩ := by
  have hnum : ((n : ℚ).num).toNat = n := by simp
  have hround : roundTiesToEven (n * nanosPerSec) 1 = n * nanosPerSec := by
    simp [roundTiesToEven, Nat.mod_one]
  have hdiv : n * nanosPerSec / nanosPerSec = n := Nat.mul_div_cancel n nanosPerSec_pos
  rw [tryFromSecs, if_neg (not_lt.mpr (Nat.cast_nonneg n)), hnum, Rat.den_natCast, hround,
    Duration.ofNanos, dif_pos (by rwa [hdiv])]
  simp only [hdiv, Nat.mul_mod_left]

theorem durationFromSeconds_natCast {n : ℕ} (h : n < 2 ^ 64) :
    durationFromSeconds (.finite n) = .ok ⟨n, 0, h, by decide⟩ := by
  rw [durationFromSeconds, tryFromSecs_natCast h]

/-! ### When a timeout is usable -/

section Start

variable {s : ConnectionState} {data : List UInt8} {timeout : Duration} {now : Instant}

theorem sendTimeoutStart_of_none (hdata : data ≠ []) (havailable : s.ensureWriteAvailable = .ok ())
    (hadd : now.checkedAdd timeout = none) : sendTimeoutStart s data timeout now = .panicked := by
  rw [sendTimeoutStart, if_neg (by simpa using hdata), havailable]
  dsimp only
  rw [hadd]

theorem sendTimeoutStart_of_some {deadline : Instant} (hdata : data ≠ [])
    (havailable : s.ensureWriteAvailable = .ok ()) (hadd : now.checkedAdd timeout = some deadline) :
    sendTimeoutStart s data timeout now = .waiting (.at deadline) := by
  rw [sendTimeoutStart, if_neg (by simpa using hdata), havailable]
  dsimp only
  rw [hadd]

/-- Where a call of `send_timeout` is then. -/
def Start.pc : Start → PC
  | .returned (.ok ()) => .done (.ok .unit)
  | .returned (.error e) => .done (.error e)
  | .panicked => .panicked
  | .waiting _ => .gate

/-- The connection with the call of `id` at `pc`. -/
def Core.placed {ι : Type} [DecidableEq ι] (core : Core ι) (id : ι) (call : Call) (pc : PC) :
    Core ι :=
  { core with calls := Function.update core.calls id (some { call with pc := pc }) }

/-- A poll that touches nothing but the place of its call, and what follows it. -/
theorem runLabels_placed {ι : Type} [DecidableEq ι] {core core' : Core ι} {id : ι} {call : Call}
    {pc pc' : PC} {choice : Choice} {labels : List (Label ι)}
    (hpoll : ({ call with pc := pc } : Call).poll core.shared id choice
      = some ({ call with pc := pc' }, .none))
    (hrest : runLabels Core.step (fun _ _ => true) (core.placed id call pc') labels = some core') :
    runLabels Core.step (fun _ _ => true) (core.placed id call pc) (.poll id choice :: labels)
      = some core' := by
  rw [runLabels, if_pos rfl]
  simpa only [Core.placed, Core.step, Function.update_self, hpoll, Option.map_some,
    Function.update_idem, Option.bind_some, Shared.perform] using hrest

/-- **The call of the connection core does the same**: polled from its start, with no other step in
between, it comes to where `sendTimeoutStart` ends. -/
theorem runLabels_sendTimeoutStart {ι : Type} [DecidableEq ι] {core : Core ι} {id : ι} {call : Call}
    (hcall : core.calls id = some call) (hop : call.op = .sendTimeout data timeout)
    (hpc : call.pc = .start) :
    ∃ labels, (∀ label ∈ labels, label = .poll id .go ∨ label = .poll id (.now now)) ∧
      runLabels Core.step (fun _ _ => true) core labels
        = some (core.placed id call (sendTimeoutStart core.shared.state data timeout now).pc) := by
  obtain ⟨op, pc, w⟩ := call
  dsimp only at hop hpc
  subst hop hpc
  have hstart : ∀ labels, runLabels Core.step (fun _ _ => true) core labels
      = runLabels Core.step (fun _ _ => true)
          (core.placed id ⟨.sendTimeout data timeout, .start, w⟩ .start) labels := by
    intro labels
    rw [Core.placed, ← hcall, Function.update_eq_self]
  have hgo : ∀ n, ∀ label ∈ List.replicate n (Label.poll id .go),
      label = .poll id .go ∨ label = .poll id (.now now) :=
    fun n label hlabel => Or.inl (List.eq_of_mem_replicate hlabel)
  -- the loads ahead of the gate
  have hset : ∀ flag, core.shared.state.load flag = true →
      (Call.mk (.sendTimeout data timeout) (.ensure false flag) w).poll core.shared id .go
        = some (⟨.sendTimeout data timeout, .done (.error (.msg flag.text)), w⟩, .none) := by
    intro flag hflag
    simp [Call.poll, hflag, PC.finish]
  have hclear : ∀ flag, core.shared.state.load flag = false →
      (Call.mk (.sendTimeout data timeout) (.ensure false flag) w).poll core.shared id .go
        = some (⟨.sendTimeout data timeout,
            (Op.sendTimeout data timeout).afterEnsure false flag, w⟩, .none) := by
    intro flag hflag
    simp [Call.poll, hflag]
  by_cases hdata : data.isEmpty
  · have henter : (Call.mk (.sendTimeout data timeout) .start w).poll core.shared id .go
        = some (⟨.sendTimeout data timeout, .done (.ok .unit), w⟩, .none) := by
      simp [Call.poll, Op.enter, hdata]
    rw [sendTimeoutStart, if_pos hdata]
    exact ⟨_, hgo 1, (hstart _).trans (runLabels_placed henter rfl)⟩
  have henter : (Call.mk (.sendTimeout data timeout) .start w).poll core.shared id .go
      = some (⟨.sendTimeout data timeout, .ensure false .closed, w⟩, .none) := by
    simp [Call.poll, Op.enter, hdata]
  rw [sendTimeoutStart, if_neg hdata, ConnectionState.ensureWriteAvailable]
  cases hclosed : core.shared.state.closed with
  | true =>
    exact ⟨_, hgo 2, (hstart _).trans (runLabels_placed henter
      (runLabels_placed (hset .closed hclosed) rfl))⟩
  | false =>
  cases hpaused : core.shared.state.paused with
  | true =>
    exact ⟨_, hgo 3, (hstart _).trans (runLabels_placed henter
      (runLabels_placed (hclear .closed hclosed) (runLabels_placed (hset .paused hpaused) rfl)))⟩
  | false =>
  cases hshut : core.shared.state.writeShutdown with
  | true =>
    exact ⟨_, hgo 4, (hstart _).trans (runLabels_placed henter
      (runLabels_placed (hclear .closed hclosed) (runLabels_placed (hclear .paused hpaused)
        (runLabels_placed (hset .writeShutdown hshut) rfl))))⟩
  | false =>
    have hdated : (Call.mk (.sendTimeout data timeout) .deadline w).poll core.shared id (.now now)
        = some (⟨.sendTimeout data timeout,
            if (now.checkedAdd timeout).isSome then .gate else .panicked, w⟩, .none) := rfl
    refine ⟨List.replicate 4 (.poll id .go) ++ [.poll id (.now now)], fun label hlabel => ?_, ?_⟩
    · rcases List.mem_append.mp hlabel with hlabel | hlabel
      · exact hgo 4 label hlabel
      · exact Or.inr (List.mem_singleton.mp hlabel)
    · refine (hstart _).trans (runLabels_placed henter (runLabels_placed (hclear .closed hclosed)
        (runLabels_placed (hclear .paused hpaused)
          (runLabels_placed (hclear .writeShutdown hshut) (runLabels_placed hdated ?_)))))
      cases now.checkedAdd timeout <;> rfl

end Start

/-- **When `write_all_timeout` accepts a timeout.** For every timeout the Python layer accepts,
every non-empty buffer and every reading of the clock, on an available connection the operation
comes to wait exactly if the clock plus the timeout lies before `2 ^ 63` seconds; otherwise it
panics. The other timed operations wait in either case. -/
theorem write_all_timeout_usable_iff {s : ConnectionState} {data : List UInt8} {seconds : Seconds}
    {timeout : Duration} (haccepted : durationFromSeconds seconds = .ok timeout)
    (hdata : data ≠ []) (havailable : s.ensureWriteAvailable = .ok ()) (now : Instant) :
    ((∃ deadline, writeAllTimeout s data seconds now = .ok (.waiting deadline)) ↔
        now.toNanos + timeout.toNanos < 2 ^ 63 * nanosPerSec) ∧
      (writeAllTimeout s data seconds now ≠ .ok .panicked ↔
        now.toNanos + timeout.toNanos < 2 ^ 63 * nanosPerSec) ∧
      ∃ deadline, otherTimeout seconds now = .ok (.waiting deadline) := by
  have hwrite : writeAllTimeout s data seconds now = .ok (sendTimeoutStart s data timeout now) := by
    rw [writeAllTimeout, haccepted]
    rfl
  have hother : otherTimeout seconds now = .ok (timeoutStart timeout now) := by
    rw [otherTimeout, haccepted]
    rfl
  rw [← checkedAdd_isSome_iff, hwrite, hother]
  cases hadd : now.checkedAdd timeout with
  | none =>
    rw [sendTimeoutStart_of_none hdata havailable hadd, timeoutStart, hadd]
    simp
  | some deadline =>
    rw [sendTimeoutStart_of_some hdata havailable hadd, timeoutStart, hadd]
    simp

/-- A reading of the clock. -/
def exampleNow : Instant := ⟨1000, 0, by decide, by decide, nanosPerSec_pos⟩

/-- The largest whole number of seconds that is usable then. -/
theorem write_all_timeout_usable_iff_largest :
    ∃ deadline, writeAllTimeout {} [1] (.finite (9223372036854774807 : ℕ)) exampleNow
      = .ok (.waiting deadline) :=
  (write_all_timeout_usable_iff (durationFromSeconds_natCast (by decide)) (by simp) rfl
    exampleNow).1.mpr (by decide)

/-- **A timeout that is accepted and panics.** `2 ^ 63` seconds make a duration, but no deadline. -/
theorem write_all_timeout_panics :
    (durationFromSeconds (.finite (9223372036854775808 : ℕ))).isOk = true ∧
      writeAllTimeout {} [1] (.finite (9223372036854775808 : ℕ)) exampleNow = .ok .panicked ∧
      otherTimeout (.finite (9223372036854775808 : ℕ)) exampleNow = .ok (.waiting .farFuture) := by
  have haccepted := durationFromSeconds_natCast (show 9223372036854775808 < 2 ^ 64 by decide)
  rw [writeAllTimeout, otherTimeout, haccepted]
  exact ⟨rfl, rfl, rfl⟩

end Transport

end Taunicorn
