import Taunicorn.Lib.Blame
import Taunicorn.Transport.Deadline
import Taunicorn.Transport.Establish
import Taunicorn.Transport.ReadTimeout
import Taunicorn.Transport.Server

/-!
# What the errors of the transport are blamed on

Every error of the transport is made at one step of one call: a load that finds a flag set, a branch
of a `select!` that gives up, an answer of the raw socket, or a deadline. `Cause` says which, from
the program counter and the answer of the environment. `Site` is the list of all the places where
an error is made, each with its cause and its text.

The errors of a poisoned lock are absent, as the lock's poisoning is.

## Main results

* `Call.site_of_poll`, `ServerCall.site_of_poll`, `EstablishCall.site_of_poll` — the list is
  complete
* `connecting_accounts`, `serving_accounts`, `establishing_accounts` — what holds at every place of
  the list holds of every error in every run
-/

namespace Taunicorn

namespace Transport

/-- What an error is blamed on. -/
inductive Cause where
  /-- A deadline has passed. -/
  | deadline
  /-- The server or the connection is paused. -/
  | paused
  | emptyName
  /-- The text form of a security descriptor has a nul. -/
  | containsNul (text : String)
  /-- The server, the connection or the direction is stopped, closed or shut down, or was while the
  call waited. -/
  | unavailable
  /-- A raw write has accepted nothing. -/
  | wroteNothing
  /-- A raw write of `send` or `send_timeout` has failed. -/
  | writeFailed (text : String)
  /-- Any other raw operation has failed. -/
  | failed (text : String)
  deriving DecidableEq, Repr

/-- The error of a write loop that the close token interrupts. -/
def closedAfter (data : List UInt8) (written : ℕ) : Error :=
  .msg (s!"socket connection closed after {written} of {data.length} bytes were "
    ++ "written; do not blindly retry the full buffer")

/-- The error of a write loop in which a raw write accepts nothing. -/
def zeroAfter (data : List UInt8) (written : ℕ) : Error :=
  .msg (s!"socket write returned zero after {written} of "
    ++ s!"{data.length} bytes; connection closed")

/-- The error of a write loop in which a raw write fails. The text of its error is all that is left
of it. -/
def failedAfter (data : List UInt8) (written : ℕ) (text : String) : Error :=
  .msg (s!"socket write failed after {written} of "
    ++ s!"{data.length} bytes; connection closed because a partial prefix may have been "
    ++ s!"written: {text}")

/-- **The places where the transport makes an error.** -/
inductive Site : Cause → Error → Prop
  | emptyEndpoint : Site .emptyName (.msg "socket endpoint must not be empty")
  | emptyName : Site .emptyName (.msg "socket name must not be empty")
  | containsNul (text : String) : Site (.containsNul text) (.msg text)
  | failed (text : String) : Site (.failed text) (.io text)
  | connectTimeout : Site .deadline (.msg "socket connect timeout")
  | acceptTimeout : Site .deadline (.msg "socket accept timeout")
  | readTimeout : Site .deadline readElapsed
  | writeTimeout : Site .deadline beforeProgress
  | writeTimeoutAfter (data : List UInt8) (written : ℕ) :
      Site .deadline (afterProgress data written)
  | serverPaused : Site .paused serverPaused
  | serverStopped : Site .unavailable serverStopped
  | serverWasStopped : Site .unavailable (.msg "socket server was stopped")
  | paused : Site .paused (.msg Flag.paused.text)
  | refused (flag : Flag) : flag ≠ .paused → Site .unavailable (.msg flag.text)
  | wasClosed : Site .unavailable (.msg "socket connection was closed")
  | wasShutDown : Site .unavailable (.msg "socket receive direction was shut down")
  | closedAfter (data : List UInt8) (written : ℕ) : Site .unavailable (closedAfter data written)
  | wroteNothing : Site .wroteNothing
      (.msg "socket write returned zero for a non-empty buffer; connection closed")
  | wroteNothingAfter (data : List UInt8) (written : ℕ) :
      Site .wroteNothing (zeroAfter data written)
  | writeFailed (data : List UInt8) (written : ℕ) (text : String) :
      Site (.writeFailed text) (failedAfter data written text)

variable {ι : Type}

/-! ### The core -/

/-- The error that a call is on its way to return, or has returned. -/
def PC.error : PC → Option Error
  | .closing _ _ error => error
  | .unwind (.error e) => some e
  | .done (.error e) => some e
  | _ => none

def Call.error (call : Call) : Option Error := call.pc.error

/-- What an error is blamed on that the call makes on that answer. -/
def Call.cause (call : Call) (sh : Shared ι) : Choice → Cause
  | .timeout => .deadline
  | .fail text => if call.op.whole then .writeFailed text else .failed text
  | .accept _ => .wroteNothing
  | .go =>
    match call.pc with
    | .ensure _ .paused => if sh.state.paused then .paused else .unavailable
    | _ => .unavailable
  | _ => .unavailable

variable {sh : Shared ι} {id : ι} {op : Op} {pc pc' : PC} {w w' : ℕ} {choice : Choice}
  {effect : Effect} {call call' : Call} {e : Error}

@[simp] theorem PC.error_finish_ok (b : Bool) (v : Value) : (PC.finish b (.ok v)).error = none := by
  cases b <;> rfl

@[simp] theorem PC.error_finish_error (b : Bool) (e : Error) :
    (PC.finish b (.error e)).error = some e := by
  cases b <;> rfl

@[simp] theorem Op.error_enter (op : Op) : op.enter.error = none := by
  rcases op.enter_cases with ⟨v, h, -⟩ | ⟨h, -⟩ | h | ⟨h, -⟩ | ⟨h, -⟩ <;> rw [h] <;> rfl

@[simp] theorem Op.error_enterGate (op : Op) : op.enterGate.error = none := by
  cases op <;> rfl

@[simp] theorem Op.error_afterEnsure (op : Op) (b : Bool) (flag : Flag) :
    (op.afterEnsure b flag).error = none := by
  rcases op.afterEnsure_cases b flag with ⟨next, h⟩ | ⟨h, -⟩ | ⟨-, ⟨h, -⟩ | h⟩ <;> rw [h] <;> rfl

@[simp] theorem Op.error_afterIdle (op : Op) (b : Bool) (flag : Flag) :
    (op.afterIdle b flag).error = none := by
  cases op <;> cases flag <;> cases b <;> rfl

/-- A call keeps the error it has. -/
theorem Polled.error (h : Polled sh id op pc w effect pc' w') (he : pc.error = some e) :
    pc'.error = some e := by
  cases h with
  | closing stage first error =>
    rcases pollClosing_cases sh stage first error with ⟨stage', first', -, h⟩ | ⟨e', rfl, h⟩ |
      ⟨rfl, -⟩
    · rw [h]
      exact he
    · rw [h]
      exact he
    · exact absurd he.symm (Option.some_ne_none _)
  | released outcome => cases outcome <;> exact he
  | _ => exact absurd he.symm (Option.some_ne_none _)

theorem site_of_giveUp (h : op.giveUp sh choice = some e) :
    Site ((Call.mk op pc w).cause sh choice) e := by
  unfold Op.giveUp at h
  split at h
  · split_ifs at h
    cases h
    exact .wasClosed
  · split_ifs at h
    cases h
    exact .wasShutDown
  · exact absurd h.symm (Option.some_ne_none _)

theorem site_of_interrupted (h : op.interrupted sh w choice = some e) :
    Site ((Call.mk op pc w).cause sh choice) e := by
  unfold Op.interrupted at h
  split at h
  · split_ifs at h
    cases h
    exact .closedAfter _ w
  · split_ifs at h
    cases h
    exact .closedAfter _ w
  · exact site_of_giveUp h

theorem site_of_pollSend {data : List UInt8} (hwhole : op.whole = true)
    (h : pollSend data w choice = some (pc', w', effect)) (he : pc'.error = some e) :
    Site ((Call.mk op pc w).cause sh choice) e := by
  unfold pollSend at h
  split at h
  · split_ifs at h with hzero hle hlt
    · cases h
      cases he
      exact .wroteNothingAfter data w
    all_goals cases h; exact absurd he.symm (Option.some_ne_none _)
  · cases h
    cases he
    simp only [Call.cause, hwhole, if_true]
    exact .writeFailed data w _
  · exact absurd h.symm (Option.some_ne_none _)

theorem site_of_pollSendTimeout {data : List UInt8} (hwhole : op.whole = true)
    (h : pollSendTimeout data w choice = some (pc', w', effect)) (he : pc'.error = some e) :
    Site ((Call.mk op pc w).cause sh choice) e := by
  by_cases htimeout : choice = .timeout
  · subst htimeout
    cases h
    cases he
    exact .writeTimeoutAfter data w
  · rw [pollSendTimeout_eq data w htimeout] at h
    exact site_of_pollSend hwhole h he

theorem site_of_pollIo (h : pollIo op w choice = some (pc', w', effect))
    (he : pc'.error = some e) : Site ((Call.mk op pc w).cause sh choice) e := by
  unfold pollIo at h
  split at h
  case h_1 =>
    split_ifs at h <;> cases h <;> exact absurd he.symm (Option.some_ne_none _)
  case h_2 =>
    split_ifs at h
    · cases h
      cases he
      exact .wroteNothing
    · cases h
      exact absurd he.symm (Option.some_ne_none _)
  case h_3 => exact site_of_pollSend rfl h he
  case h_4 => exact site_of_pollSendTimeout rfl h he
  case h_13 => exact absurd h.symm (Option.some_ne_none _)
  -- the other operations complete, or fail
  all_goals
    cases h
    first
    | exact absurd he.symm (Option.some_ne_none _)
    | cases he; exact .failed _

/-- **The list is complete for the core.** -/
theorem Call.site_of_poll [DecidableEq ι] (h : call.poll sh id choice = some (call', effect))
    (hnone : call.error = none) (hsome : call'.error = some e) : Site (call.cause sh choice) e := by
  obtain ⟨op, pc, w⟩ := call
  unfold Call.error at hnone hsome
  dsimp only at hnone
  unfold Call.poll at h
  dsimp only at h
  split at h
  case h_1 =>
    cases h
    exact absurd hsome (by simp)
  case h_2 b =>
    cases h
    dsimp only at hsome
    split at hsome
    · exact absurd hsome (by simp)
    · exact absurd hsome.symm (Option.some_ne_none _)
  case h_3 b flag =>
    cases h
    dsimp only at hsome
    split at hsome
    · next hset =>
      rw [PC.error_finish_error] at hsome
      cases hsome
      by_cases hflag : flag = .paused
      · subst hflag
        simp only [Call.cause, show sh.state.paused = true from hset, if_true]
        exact .paused
      · have hcause : (Call.mk op (.ensure b flag) w).cause sh .go = .unavailable := by
          cases flag <;> first | rfl | exact absurd rfl hflag
        rw [hcause]
        exact .refused flag hflag
    · exact absurd hsome (by simp)
  case h_4 b flag =>
    cases h
    dsimp only at hsome
    split at hsome
    · exact absurd hsome (by simp)
    · exact absurd hsome (by simp)
  case h_5 =>
    split at h
    · cases h
      dsimp only at hsome
      split at hsome <;> exact absurd hsome.symm (Option.some_ne_none _)
    · exact absurd h.symm (Option.some_ne_none _)
  case h_6 =>
    cases h
    exact absurd hsome.symm (Option.some_ne_none _)
  case h_7 =>
    obtain ⟨e', hgive, he⟩ := Option.map_eq_some_iff.mp h
    cases he
    cases hsome
    exact site_of_giveUp hgive
  case h_8 =>
    split_ifs at h
    cases h
    exact absurd hsome (by simp)
  case h_9 =>
    split at h
    · cases h
      cases hsome
      exact .writeTimeout
    · exact absurd h.symm (Option.some_ne_none _)
  case h_10 =>
    obtain ⟨e', hgive, he⟩ := Option.map_eq_some_iff.mp h
    cases he
    cases hsome
    exact site_of_giveUp hgive
  case h_11 =>
    obtain ⟨⟨pc, effect⟩, hstored, he⟩ := Option.map_eq_some_iff.mp h
    cases he
    cases Op.stores_of_stored hstored <;> exact absurd hsome.symm (Option.some_ne_none _)
  case h_12 =>
    cases h
    exact absurd hsome.symm (Option.some_ne_none _)
  case h_13 =>
    cases h
    dsimp only at hsome
    split at hsome
    · cases hsome
      exact .refused .closed (by simp)
    · exact absurd hsome.symm (Option.some_ne_none _)
  case h_14 =>
    cases h
    dsimp only at hsome
    split at hsome
    · exact absurd hsome.symm (Option.some_ne_none _)
    · cases hsome
      exact .refused .closed (by simp)
  case h_15 =>
    split at h
    · next e' he =>
      cases h
      cases hsome
      exact site_of_interrupted he
    · obtain ⟨⟨pc, w', effect⟩, hio, he⟩ := Option.map_eq_some_iff.mp h
      cases he
      exact site_of_pollIo hio hsome
  case h_16 =>
    cases h
    exact absurd hsome.symm (Option.some_ne_none _)
  case h_17 stage first error =>
    -- a full close makes no error, and here carries none
    cases h
    obtain rfl : error = none := hnone
    rcases pollClosing_cases sh stage first none with ⟨stage', first', -, h⟩ | ⟨e', he, -⟩ |
      ⟨-, h | h⟩
    · rw [h] at hsome
      exact absurd hsome.symm (Option.some_ne_none _)
    · exact absurd he.symm (Option.some_ne_none _)
    all_goals
      rw [h] at hsome
      exact absurd hsome.symm (Option.some_ne_none _)
  case h_18 outcome =>
    cases h
    cases outcome with
    | ok v => exact absurd hsome.symm (Option.some_ne_none _)
    | error e' => exact absurd hnone (Option.some_ne_none _)
  case h_19 => exact absurd h.symm (Option.some_ne_none _)

theorem Call.cause_ne_containsNul (call : Call) (sh : Shared ι) (choice : Choice) (text : String) :
    call.cause sh choice ≠ .containsNul text := by
  unfold Call.cause
  split
  case h_2 => split <;> exact Cause.noConfusion
  case h_4 =>
    split
    · split <;> exact Cause.noConfusion
    · exact Cause.noConfusion
  all_goals exact Cause.noConfusion

/-! ### The connection -/

def Connection.error (connection : Connection ι) (id : ι) : Option Error :=
  (connection.core.calls id).bind fun call =>
    if connection.elapsed id = some true then some readElapsed else call.error

/-- The methods of a connection, with what their errors are blamed on. -/
def connecting (ι : Type) [DecidableEq ι] :
    Blame (Connection ι) (ConnectionLabel ι) ι Error Cause where
  step := Connection.step
  error := Connection.error
  blame connection
    | .poll id choice => (connection.core.calls id).map fun call =>
      (id, call.cause connection.core.shared choice)
    | .elapse id => some (id, .deadline)
    | _ => none

variable {connection connection' : Connection ι} {core core' : Core ι} {label : ConnectionLabel ι}

theorem Call.error_of_outcome (h : call.outcome = some (.error e)) : call.error = some e := by
  unfold Call.outcome at h
  unfold Call.error
  split at h
  · next hpc => cases h; rw [hpc]; rfl
  · next hpc => cases h; rw [hpc]; rfl
  · exact absurd h.symm (Option.some_ne_none _)

/-- `read_bytes` makes no error of its own. -/
theorem error_of_readBytes {max : ℕ} {outcome : Outcome}
    (h : (readBytes max outcome).map Value.data = .error e) : outcome = .error e := by
  unfold readBytes at h
  split_ifs at h
  · cases h
  · split at h <;> cases h
    rfl

/-- An error that a call returns is one that it is committed to. -/
theorem Connection.error_of_outcome (h : connection.outcome id = some (.error e)) :
    connection.error id = some e := by
  obtain ⟨call, hcall, houtcome⟩ := Option.bind_eq_some_iff.mp h
  simp only [Connection.error, hcall, Option.bind_some]
  split at houtcome
  · next helapsed =>
    cases houtcome
    rw [helapsed, if_pos rfl]
  · next helapsed _ =>
    obtain ⟨outcome, hpc, hread⟩ := Option.map_eq_some_iff.mp houtcome
    rw [helapsed, if_neg (by simp)]
    exact Call.error_of_outcome (hpc.trans (congrArg some (error_of_readBytes hread)))
  · next hlate _ =>
    rw [if_neg hlate]
    exact Call.error_of_outcome houtcome

theorem Core.poll_of_step [DecidableEq ι] (h : core.step (.poll id choice) = some core') :
    ∃ call call' effect, core.calls id = some call ∧
      call.poll core.shared id choice = some (call', effect) ∧
      core'.calls = Function.update core.calls id (some call') := by
  rw [Core.step] at h
  cases hcall : core.calls id with
  | none => simp [hcall] at h
  | some call =>
    rw [hcall] at h
    obtain ⟨⟨call', effect⟩, hpoll, rfl⟩ := Option.map_eq_some_iff.mp h
    exact ⟨call, call', effect, rfl, hpoll, rfl⟩

theorem Call.error_of_drop (h : call.drop = some effect) : call.error = none := by
  unfold Call.error
  rcases (drop_eq_some h).1 with hpc | hpc | hpc <;> rw [hpc] <;> rfl

theorem Connection.error_eq (hcall : connection.core.calls id = some call) :
    connection.error id
      = if connection.elapsed id = some true then some readElapsed else call.error := by
  rw [Connection.error, hcall, Option.bind_some]

/-- What a step does to the error of the call that it is taken for. -/
inductive Connection.Errs [DecidableEq ι] (connection connection' : Connection ι) :
    ConnectionLabel ι → ι → Prop
  | called (label : ConnectionLabel ι) (id : ι) : (connecting ι).blame connection label = none →
      connection.error id = none → connection'.error id = none →
      Errs connection connection' label id
  | polled (id : ι) (choice : Choice) (call call' : Call) (effect : Effect) :
      connection.core.calls id = some call →
      call.poll connection.core.shared id choice = some (call', effect) →
      connection.error id
        = (if connection.elapsed id = some true then some readElapsed else call.error) →
      connection'.error id
        = (if connection.elapsed id = some true then some readElapsed else call'.error) →
      Errs connection connection' (.poll id choice) id
  | dropped (id : ι) : connection'.error id = connection.error id →
      Errs connection connection' (.drop id) id
  | elapsed (id : ι) : connection.error id = none → connection'.error id = some readElapsed →
      Errs connection connection' (.elapse id) id

/-- A step is taken for one call, and leaves the errors of the others. -/
theorem Connection.errs_of_step [DecidableEq ι] (h : connection.step label = some connection') :
    ∃ i, connection.Errs connection' label i ∧
      ∀ id, id ≠ i → connection'.error id = connection.error id := by
  obtain ⟨i, call', hstepped⟩ := Core.stepped (Connection.core_of_step h)
  have hothers : (∀ id, id ≠ i → connection'.elapsed id = connection.elapsed id) →
      ∀ id, id ≠ i → connection'.error id = connection.error id := by
    intro helapsed id hi
    rw [Connection.error, Connection.error, hstepped.calls.1, Function.update_of_ne hi,
      helapsed id hi]
  cases label with
  | call id op =>
    obtain ⟨core, hcore, rfl⟩ := Option.map_eq_some_iff.mp h
    cases hstepped with
    | called _ _ hnone =>
      refine ⟨_, .called _ _ rfl ?_ ?_, hothers fun id hi => Function.update_of_ne hi ..⟩
      · rw [Connection.error, hnone, Option.bind_none]
      · simp [Connection.error, Call.error, PC.error]
  | readTimeout id max =>
    obtain ⟨core, hcore, rfl⟩ := Option.map_eq_some_iff.mp h
    cases hstepped with
    | called _ _ hnone =>
      refine ⟨_, .called _ _ rfl ?_ ?_, hothers fun id hi => Function.update_of_ne hi ..⟩
      · rw [Connection.error, hnone, Option.bind_none]
      · simp [Connection.error, Call.error, PC.error]
  | poll id choice =>
    obtain ⟨core, hcore, rfl⟩ := Option.map_eq_some_iff.mp h
    obtain ⟨call, call', effect, hcall, hpoll, hcalls⟩ := Core.poll_of_step hcore
    cases hstepped with
    | polled _ _ =>
      refine ⟨_, .polled _ _ call call' effect hcall hpoll (Connection.error_eq hcall)
        (Connection.error_eq ?_), hothers fun _ _ => rfl⟩
      rw [hcalls, Function.update_self]
  | drop id =>
    obtain ⟨core, hcore, rfl⟩ := Option.map_eq_some_iff.mp h
    cases hstepped with
    | dropped _ call effect hcall hdrop =>
      refine ⟨_, .dropped _ ?_, hothers fun _ _ => rfl⟩
      rw [Connection.error_eq hcall, Call.error_of_drop hdrop]
      simp [Connection.error, Call.error, PC.error]
  | elapse id =>
    rw [Connection.step] at h
    split_ifs at h with hpending
    obtain ⟨core, hcore, rfl⟩ := Option.map_eq_some_iff.mp h
    obtain ⟨helapsed, -⟩ := Bool.and_eq_true_iff.mp hpending
    cases hstepped with
    | dropped _ call effect hcall hdrop =>
      refine ⟨_, .elapsed _ ?_ ?_, hothers fun id hi => Function.update_of_ne hi ..⟩
      · rw [Connection.error_eq hcall, Call.error_of_drop hdrop, of_decide_eq_true helapsed]
        rfl
      · simp [Connection.error]

theorem connecting_lawful [DecidableEq ι] : (connecting ι).Lawful where
  other {connection label connection' id} h hother := by
    obtain ⟨i, herrs, hothers⟩ := Connection.errs_of_step h
    by_cases hi : id = i
    · subst hi
      cases herrs with
      | called label id _ hnone hnone' => exact hnone'.trans hnone.symm
      | polled id choice call call' effect hcall => simp [connecting, hcall] at hother
      | dropped id hsame => exact hsame
      | elapsed id => exact absurd rfl (hother .deadline)
    · exact hothers id hi
  stays {connection label connection' id e} h herror := by
    obtain ⟨i, herrs, hothers⟩ := Connection.errs_of_step h
    by_cases hi : id = i
    · subst hi
      dsimp only [connecting] at herror ⊢
      cases herrs with
      | called label id _ hnone => exact absurd (herror.symm.trans hnone) (Option.some_ne_none _)
      | polled id choice call call' effect _ hpoll hbefore hafter =>
        rw [hbefore] at herror
        rw [hafter]
        split_ifs at herror ⊢
        · exact herror
        · exact (polled_of_poll hpoll).2.error herror
      | dropped id hsame => exact hsame.trans herror
      | elapsed id hnone => exact absurd (herror.symm.trans hnone) (Option.some_ne_none _)
    · exact (hothers id hi).trans herror

/-- **The rule for connections.** -/
theorem connecting_accounts [DecidableEq ι] {P : Cause → Error → Prop}
    (hsite : ∀ {cause e}, Site cause e → (∀ text, cause ≠ .containsNul text) → P cause e) :
    (connecting ι).Accounts {} P := by
  refine Blame.accounts connecting_lawful (fun id => rfl) ?_
  intro connection label connection' id cause e h hblame hnone hsome
  obtain ⟨i, herrs, hothers⟩ := Connection.errs_of_step h
  dsimp only [connecting] at hnone hsome
  have hi : id = i := by
    by_contra hi
    exact absurd ((hothers id hi).symm.trans hsome) (by simp [hnone])
  subst hi
  cases herrs with
  | called label id hquiet => exact absurd (hblame.symm.trans hquiet) (Option.some_ne_none _)
  | polled id choice call call' effect hcall hpoll hbefore hafter =>
    simp only [connecting, hcall, Option.map_some, Option.some.injEq, Prod.mk.injEq, true_and]
      at hblame
    subst hblame
    rw [hbefore] at hnone
    rw [hafter] at hsome
    split_ifs at hnone hsome
    exact hsite (Call.site_of_poll hpoll hnone hsome) (call.cause_ne_containsNul _ choice)
  | dropped id hsame => exact absurd hblame.symm (Option.some_ne_none _)
  | elapsed id _ hafter =>
    obtain ⟨-, rfl⟩ := Prod.mk.inj (Option.some.inj hblame)
    obtain rfl := Option.some.inj (hafter.symm.trans hsome)
    exact hsite .readTimeout fun text => Cause.noConfusion

/-! ### The server -/

variable {α : Type} {server : ServerShared α} {serverCall serverCall' : ServerCall α}
  {server' : ServerShared α}

def ServerCall.error (call : ServerCall α) : Option Error :=
  match call.pc with
  | .done (.error e) => some e
  | _ => none

def ServerCall.cause (sh : ServerShared α) (call : ServerCall α) : ServerChoice → Cause
  | .timeout => .deadline
  | .fail text => .failed text
  | .go =>
    match call.pc with
    | .paused => if sh.paused then .paused else .unavailable
    | _ => .unavailable
  | _ => .unavailable

theorem ServerCall.error_stays {choice : ServerChoice}
    (h : serverCall.poll server choice = some (serverCall', server'))
    (he : serverCall.error = some e) : serverCall'.error = some e := by
  have hreturned : serverCall.pc.Returned := by
    unfold ServerCall.error at he
    split at he
    · next hpc => rw [hpc]; trivial
    · exact absurd he.symm (Option.some_ne_none _)
  exact absurd (h.symm.trans (ServerCall.poll_returned hreturned server choice))
    (Option.some_ne_none _)

/-- **The list is complete for the server.** -/
theorem ServerCall.site_of_poll {choice : ServerChoice}
    (h : serverCall.poll server choice = some (serverCall', server'))
    (hsome : serverCall'.error = some e) : Site (serverCall.cause server choice) e := by
  obtain ⟨op, pc⟩ := serverCall
  unfold ServerCall.poll at h
  dsimp only at h
  unfold ServerCall.error at hsome
  split at h
  case h_1 =>
    cases h
    dsimp only at hsome
    cases hpaused : server.paused
    · simp [hpaused] at hsome
    · simp only [hpaused, if_true, Option.some.injEq] at hsome
      subst hsome
      simp only [ServerCall.cause, hpaused, if_true]
      exact .serverPaused
  case h_2 =>
    cases h
    dsimp only at hsome
    cases hstopped : server.stopped
    · simp [hstopped] at hsome
    · simp only [hstopped, if_true, Option.some.injEq] at hsome
      subst hsome
      exact .serverStopped
  case h_3 =>
    cases h
    dsimp only at hsome
    cases hlistener : server.listener
    · simp only [hlistener, Bool.false_eq_true, if_false, Option.some.injEq] at hsome
      subst hsome
      exact .serverStopped
    · simp [hlistener] at hsome
  case h_4 =>
    split at h
    · exact absurd h.symm (Option.some_ne_none _)
    · cases h
      exact absurd hsome.symm (Option.some_ne_none _)
  case h_5 text =>
    cases h
    cases hsome
    exact .failed text
  case h_6 =>
    split_ifs at h
    cases h
    cases hsome
    exact .serverWasStopped
  case h_7 =>
    split at h
    · cases h
      cases hsome
      exact .acceptTimeout
    · exact absurd h.symm (Option.some_ne_none _)
  case h_10 first =>
    cases h
    cases first <;> exact absurd hsome.symm (Option.some_ne_none _)
  case h_13 value =>
    cases h
    cases hstopped : server.stopped <;> simp [hstopped] at hsome
  case h_15 => exact absurd h.symm (Option.some_ne_none _)
  all_goals
    cases h
    exact absurd hsome.symm (Option.some_ne_none _)

theorem ServerCall.cause_ne_containsNul (call : ServerCall α) (sh : ServerShared α)
    (choice : ServerChoice) (text : String) : call.cause sh choice ≠ .containsNul text := by
  unfold ServerCall.cause
  split
  case h_3 =>
    split
    · split <;> exact Cause.noConfusion
    · exact Cause.noConfusion
  all_goals exact Cause.noConfusion

/-- The methods of a server, with what their errors are blamed on. -/
def serving (α ι : Type) [DecidableEq ι] : Blame (Server α ι) (ServerLabel α ι) ι Error Cause :=
  Pool.blaming (serverSpec α) ServerCall.error ServerCall.cause

/-- **The rule for servers.** -/
theorem serving_accounts [DecidableEq ι] {P : Cause → Error → Prop}
    (hsite : ∀ {cause e}, Site cause e → (∀ text, cause ≠ .containsNul text) → P cause e) :
    (serving α ι).Accounts Server.bound P := by
  refine Pool.accounts (fun _ => rfl) (fun op => by cases op <;> rfl) ServerCall.error_stays ?_
  intro sh call choice call' sh' e h _ hsome
  exact hsite (ServerCall.site_of_poll h hsome) (call.cause_ne_containsNul sh choice)

/-! ### Binding and connecting -/

variable {ν ω δ : Type} {platform : Platform ν ω δ} {establishOp : EstablishOp}
  {establishCall establishCall' : EstablishCall ν δ}

/-- The text form of the security descriptor, where there is one. -/
def EstablishOp.sddl : EstablishOp → Option String
  | .bind _ (some (.windows sddl)) => some sddl
  | _ => none

/-- Which of the checks and conversions refuses. -/
def EstablishOp.cause (platform : Platform ν ω δ) (op : EstablishOp) : Cause :=
  if op.endpoint.name = "" then .emptyName
  else match platform.toNsName op.endpoint.name, op.sddl with
    | .error text, _ => .failed text
    | .ok _, none => .unavailable
    | .ok _, some sddl =>
      match platform.fromStr sddl with
      | .error text => .containsNul text
      | .ok wide =>
        match platform.deserialize wide with
        | .error text => .failed text
        | .ok _ => .unavailable

def EstablishCall.error (call : EstablishCall ν δ) : Option Error :=
  match call.pc with
  | .done (.error e) => some e
  | _ => none

def EstablishCall.cause (platform : Platform ν ω δ) (call : EstablishCall ν δ) :
    EstablishChoice → Cause
  | .timeout => .deadline
  | .fail text => .failed text
  | .go => call.op.cause platform
  | _ => .unavailable

theorem site_of_bindOptions {name : String} {mode : Option Mode} (hname : name ≠ "")
    (h : bindOptions platform name mode = .error e) :
    Site ((EstablishOp.bind name mode).cause platform) e := by
  simp only [bindOptions, Endpoint.new_of_ne hname, getAsyncSocketName_of_ne platform hname,
    Bind.bind, Except.bind] at h
  simp only [EstablishOp.cause, EstablishOp.endpoint, hname, if_false]
  cases hns : platform.toNsName name with
  | error text =>
    rw [hns] at h
    cases h
    exact .failed text
  | ok socketName =>
    rw [hns] at h
    cases mode with
    | none => cases h
    | some mode =>
      cases mode with
      | unix mode => cases h
      | windows sddl =>
        dsimp only [EstablishOp.sddl, Except.mapError] at h ⊢
        cases hstr : platform.fromStr sddl with
        | error text =>
          rw [hstr] at h
          cases h
          exact .containsNul text
        | ok wide =>
          rw [hstr] at h
          dsimp only [Except.mapError] at h ⊢
          cases hdescriptor : platform.deserialize wide with
          | error text =>
            rw [hdescriptor] at h
            cases h
            exact .failed text
          | ok descriptor =>
            rw [hdescriptor] at h
            cases h

theorem site_of_connectName {endpoint : Endpoint} (hname : endpoint.name ≠ "")
    (h : connectName platform endpoint = .error e) :
    Site ((EstablishOp.connect endpoint).cause platform) e := by
  rw [connectName_of_ne platform hname] at h
  simp only [EstablishOp.cause, EstablishOp.endpoint, hname, if_false]
  cases hns : platform.toNsName endpoint.name with
  | error text =>
    rw [hns] at h
    cases h
    exact .failed text
  | ok socketName =>
    rw [hns] at h
    cases h

theorem site_of_enter (h : establishOp.enter platform = .error e) :
    Site (establishOp.cause platform) e := by
  have hmap : ∀ {β γ : Type} {x : Except Error β} {f : β → γ}, x.map f = .error e →
      x = .error e := by
    intro β γ x f hx
    cases x with
    | error e' => cases hx; rfl
    | ok a => cases hx
  by_cases hname : establishOp.endpoint.name = ""
  · rw [enter_of_empty platform hname] at h
    cases h
    unfold EstablishOp.cause
    rw [if_pos hname]
    exact .emptyEndpoint
  · cases establishOp with
    | bind name mode => exact site_of_bindOptions hname (hmap h)
    | start endpoint => exact site_of_bindOptions hname (hmap h)
    | connect endpoint => exact site_of_connectName hname (hmap h)
    | connectTimeout endpoint => exact site_of_connectName hname (hmap h)

/-- The error about a nul is that of the conversion. -/
theorem nul_of_cause {text : String} (h : establishOp.cause platform = .containsNul text) :
    ∃ sddl, platform.fromStr sddl = .error text := by
  unfold EstablishOp.cause at h
  split_ifs at h
  split at h
  · cases h
  · cases h
  · next sddl _ _ =>
    split at h
    · next hstr => cases h; exact ⟨sddl, hstr⟩
    · split at h <;> cases h

/-- **The list is complete for binding and connecting.** -/
theorem EstablishCall.site_of_poll {choice : EstablishChoice}
    (h : establishCall.poll platform choice = some establishCall')
    (hsome : establishCall'.error = some e) : Site (establishCall.cause platform choice) e := by
  obtain ⟨op, pc⟩ := establishCall
  unfold EstablishCall.poll at h
  dsimp only at h
  unfold EstablishCall.error at hsome
  split at h
  case h_1 =>
    split at h
    · next pc hpc =>
      cases h
      rcases enter_eq_ok hpc with ⟨opts, rfl⟩ | ⟨name, rfl⟩ <;>
        exact absurd hsome.symm (Option.some_ne_none _)
    · next e' he =>
      cases h
      cases hsome
      exact site_of_enter he
  case h_4 text =>
    cases h
    cases hsome
    exact .failed text
  case h_6 text =>
    cases h
    cases hsome
    exact .failed text
  case h_7 =>
    split at h
    · cases h
      cases hsome
      exact .connectTimeout
    · exact absurd h.symm (Option.some_ne_none _)
  case h_9 => exact absurd h.symm (Option.some_ne_none _)
  all_goals
    cases h
    exact absurd hsome.symm (Option.some_ne_none _)

theorem EstablishCall.error_stays {choice : EstablishChoice}
    (h : establishCall.poll platform choice = some establishCall')
    (he : establishCall.error = some e) : establishCall'.error = some e := by
  obtain ⟨op, pc⟩ := establishCall
  unfold EstablishCall.error at he
  split at he
  · next hpc =>
    dsimp only at hpc
    subst hpc
    cases choice <;> exact absurd h.symm (Option.some_ne_none _)
  · exact absurd he.symm (Option.some_ne_none _)

theorem EstablishCall.nul_of_cause {choice : EstablishChoice} {text : String}
    (h : establishCall.cause platform choice = .containsNul text) :
    ∃ sddl, platform.fromStr sddl = .error text := by
  cases choice with
  | go => exact Transport.nul_of_cause h
  | _ => cases h

/-- Binding and connecting, with what their errors are blamed on. -/
def establishing (platform : Platform ν ω δ) (ι : Type) [DecidableEq ι] :
    Blame (Pool Unit (EstablishCall ν δ) ι) (PoolLabel ι EstablishOp EstablishChoice Empty) ι Error
      Cause :=
  Pool.blaming (establishSpec platform) EstablishCall.error
    fun _ call choice => call.cause platform choice

/-- **The rule for binding and connecting.** -/
theorem establishing_accounts [DecidableEq ι] {P : Cause → Error → Prop}
    (hsite : ∀ {cause e}, Site cause e →
      (∀ text, cause = .containsNul text → ∃ sddl, platform.fromStr sddl = .error text) →
        P cause e) :
    (establishing platform ι).Accounts { shared := () } P := by
  refine Pool.accounts (fun _ => rfl) (fun op => rfl) ?_ ?_
  · intro sh call choice call' sh' e h he
    obtain ⟨c, hpoll, hpair⟩ := Option.map_eq_some_iff.mp h
    cases hpair
    exact EstablishCall.error_stays hpoll he
  · intro sh call choice call' sh' e h _ hsome
    obtain ⟨c, hpoll, hpair⟩ := Option.map_eq_some_iff.mp h
    cases hpair
    exact hsite (EstablishCall.site_of_poll hpoll hsome) fun text => EstablishCall.nul_of_cause

end Transport

end Taunicorn
